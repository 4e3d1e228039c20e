import FastRpc.Sbuf
import FastRpc.Threads
import FastRpc.Transition
import Mathlib.Data.List.FinRange

/-! # The table of reverse modules

`mod_table.c` keeps the modules that the DSP calls on this side.  Every module has one of the slots
of `rev_handle_table`, whose `key` is zero while the slot is free; the modules that are open are
also in the hash `openMods`, and `refs` counts the opens of a module and its running invocations.

`open_mod_table_open` tries the static overrides, a dynamic library and the static modules, each of
them under `rev_handle_table_lock`; the hash and `refs` are changed under the lock of the table.
What follows an unlock is not protected: the calls of a close into its module, and what a failed
open cleans up.  Every locked section and every call that is made without the lock of the table is
one step here, so a call is at a place `Pc` with the local variables that it still uses, and
`advance` runs it to its next place.

A module is known by its slot and by how many modules had the slot before it (`Mod`).  The number
is not in the source: it tells a thread's module from a later one in the same slot.  Also `opens`
(opens without a close) and `trace` are not in the source.  Where C gives the run no meaning (a hash
entry is overwritten or deleted twice, an `int` overflows) the table is `undefined` and the run ends. -/

namespace FastRpc.ModTable

/-- A C string: its characters before the NUL. -/
abbrev Str := List Char

/-! ### URIs -/

/-- `struct parsed_uri`; a part that was not found is empty. -/
structure ParsedUri where
  file : Str
  sym : Str
  ver : Str
  deriving DecidableEq, Repr

/-- `AEE_EBADPARM`. -/
def eBadParm : ℤ := 0xE

/-- `AEE_EUNKNOWN`, which `VERIFY` sets. -/
def eUnknown : ℤ := -1

/-- `"file://"`. -/
def fileScheme : Str := ['f', 'i', 'l', 'e', ':', '/', '/']

/-- `"_modver"`. -/
def modver : Str := ['_', 'm', 'o', 'd', 'v', 'e', 'r']

/-- The loop of `parse_uri` over the queries, with its variable `out->ver` and the error that ends
it.  `strncmp(name, "_modver", nameLen)` is zero for every prefix of `_modver`. -/
def parseQueries : ℕ → Str → Str → Str × Option ℤ
  | 0, _, ver => (ver, none)
  | _, [], ver => (ver, none)
  | n + 1, c :: cs, ver =>
      let name := (c :: cs).takeWhile (fun c => c != '&' && c != '=')
      let buf := (c :: cs).dropWhile (fun c => c != '&' && c != '=')
      if name = [] then (ver, some eUnknown)
      else if buf.head? = some '=' then
        let value := buf.tail.takeWhile (· != '&')
        if value = [] then (ver, some eUnknown)
        else
          parseQueries n (buf.tail.dropWhile (· != '&')).tail
            (if name.isPrefixOf modver then value else ver)
      else parseQueries n buf.tail (if name.isPrefixOf modver then [] else ver)

/-- `parse_uri`: what it has parsed, and its error. -/
def parseUri (uri : Str) : ParsedUri × Option ℤ :=
  match fileScheme.isPrefixOf? uri with
  | none => (⟨[], [], []⟩, some eBadParm)
  | some buf =>
      let buf := if buf.head? = some '/' then buf.tail else buf
      let file := buf.takeWhile (· != '?')
      let buf := (buf.dropWhile (· != '?'))
      if file = [] then (⟨[], [], []⟩, some eUnknown)
      else if buf = [] then (⟨file, [], []⟩, some eUnknown)
      else
        let sym := buf.tail.takeWhile (· != '&')
        let buf := buf.tail.dropWhile (· != '&')
        if sym = [] then (⟨file, [], []⟩, some eUnknown)
        else
          let queries := parseQueries buf.length buf.tail []
          (⟨file, sym, queries.1⟩, queries.2)

/-- The URI that `open_mod_table_open_from_static` builds from the parts. -/
def ParsedUri.build (vals : ParsedUri) : Str :=
  if vals.ver ≠ [] then
    fileScheme ++ '/' :: vals.file ++ '?' :: vals.sym ++ '&' :: modver ++ '=' :: vals.ver
  else fileScheme ++ vals.file ++ '?' :: vals.sym

/-! ### Modules -/

/-- `MAX_REV_HANDLES`. -/
def maxRevHandles : ℕ := 20

instance : NeZero maxRevHandles := ⟨by decide⟩

/-- `REV_HANDLE_SIZE`. -/
def revHandleSize : ℕ := 256

/-- An index into `rev_handle_table`. -/
abbrev Slot := Fin maxRevHandles

/-- `struct open_mod`; a pointer is its address, and its hash links are the list `openMods`. -/
structure OpenMod where
  dlhandle : ℕ
  invoke : ℕ
  handleInvoke : ℕ
  key : ℕ
  h64 : ℕ
  vals : ParsedUri
  refs : ℤ
  uri : Str
  deriving DecidableEq, Repr

/-- `memset(dm, 0, REV_HANDLE_SIZE)`. -/
def OpenMod.zero : OpenMod := ⟨0, 0, 0, 0, 0, ⟨[], [], []⟩, 0, []⟩

/-- `struct static_mod`. -/
structure StaticMod where
  invoke : ℕ
  handleInvoke : ℕ
  deriving DecidableEq, Repr

/-- What a run does not change: where the table is, the size of `struct open_mod`, and what has been
registered. -/
structure Config where
  base : ℕ
  sizeofOpenMod : ℕ
  staticModOverrides : Str → Option StaticMod
  staticMods : Str → Option StaticMod
  constMods : ℕ → Bool

/-- `(uint32_t)(uintptr_t)dm`. -/
def Config.slotKey (cfg : Config) (i : Slot) : ℕ := u32 ((cfg.base : ℤ) + revHandleSize * i)

/-- A module: its slot, and the number of modules before it in this slot. -/
structure Mod where
  slot : Slot
  number : ℕ
  deriving DecidableEq, Repr

/-- What can be seen of a run: the opens and closes with their results, and the calls that a close
of `asked` makes into the module `called`. -/
inductive Obs
  | opened (uri : Str) (handle : ℕ)
  | notOpened (uri : Str) (nErr dlErr : ℤ)
  | closed (handle : ℕ) (unloaded : Bool)
  | notClosed (handle : ℕ)
  | closeResult (handle : ℕ) (nErr : ℤ)
  | closesEntry (asked called : Mod)
  | dlcloses (asked called : Mod)
  | invoked (handle : ℕ) (nErr : ℤ)
  deriving DecidableEq, Repr

/-- The table. -/
structure Table where
  slots : Slot → OpenMod
  number : Slot → ℕ
  opens : Slot → ℤ
  openMods : List (Slot × ℕ)
  revLock : Bool
  undefined : Bool
  trace : List Obs

/-- The empty table. -/
def Table.init : Table :=
  ⟨fun _ => OpenMod.zero, fun _ => 0, fun _ => 0, [], false, false, []⟩

namespace Table

variable (t : Table)

/-- The module that is in a slot. -/
def mod (i : Slot) : Mod := ⟨i, t.number i⟩

/-- A module is written. -/
def setSlot (i : Slot) (dm : OpenMod) : Table := { t with slots := Function.update t.slots i dm }

/-- Something is seen. -/
def emit (o : Obs) : Table := { t with trace := t.trace ++ [o] }

/-- `dm->refs += n` on `int`. -/
def addRefs (i : Slot) (n : ℤ) : Table :=
  let dm := t.slots i
  { t.setSlot i { dm with refs := dm.refs + n } with
    undefined := t.undefined || decide (2 ^ 31 ≤ dm.refs + n) || decide (dm.refs + n < -2 ^ 31) }

/-- `HASH_FIND_INT(me->openMods, &handle, dm)`. -/
def find (handle : ℕ) : Option Slot :=
  (t.openMods.find? (fun e => e.2 == handle && u32 (t.slots e.1).key == handle)).map Prod.fst

/-- The module is in the hash. -/
def isOpen (i : Slot) : Bool := t.openMods.any (fun e => e.1 == i)

/-- `HASH_DEL(me->openMods, dm)`. -/
def hashDel (i : Slot) : Table :=
  { t with
    openMods := t.openMods.filter (fun e => e.1 != i), undefined := t.undefined || !t.isOpen i }

/-- `HASH_ADD_INT(me->openMods, key, dm)`. -/
def hashAdd (i : Slot) : Table := { t with openMods := (i, u32 (t.slots i).key) :: t.openMods }

/-- The slot that `is_reverse_handle_opened` finds. -/
def openedSlot (uri : Str) : Option Slot :=
  (List.finRange maxRevHandles).find? (fun i => (t.slots i).key != 0 && (t.slots i).uri == uri)

/-- `is_reverse_handle_opened`. -/
def isReverseHandleOpened (uri : Str) : Table × Option ℕ :=
  match t.openedSlot uri with
  | none => (t, none)
  | some i =>
      let handle := u32 (t.slots i).key
      ({ t.addRefs i 1 with opens := Function.update t.opens i (t.opens i + 1) }.emit
        (.opened uri handle), some handle)

/-- `next_available_rev_handle`. -/
def nextAvailableRevHandle : Option Slot :=
  (List.finRange maxRevHandles).find? (fun i => (t.slots i).key == 0)

/-- The slot is zeroed for a new module, whose name is then written. -/
def take (i : Slot) (uri : Str) (vals : ParsedUri) : Table :=
  { t.setSlot i { OpenMod.zero with uri := uri, vals := vals } with
    number := Function.update t.number i (t.number i + 1)
    opens := Function.update t.opens i 0
    undefined := t.undefined || t.isOpen i }

/-- The functions of the new module are stored, its `key` is set and `refs` is `1`. -/
def fill (cfg : Config) (i : Slot) (invoke handleInvoke : ℕ) : Table :=
  let dm := t.slots i
  { t.setSlot i { dm with
      invoke := invoke, handleInvoke := handleInvoke, key := cfg.slotKey i, refs := 1 } with
    opens := Function.update t.opens i 1 }

/-- The loop that looks for a key which is not in the hash. -/
def freshKey : ℕ → ℕ → ℕ
  | 0, key => key
  | n + 1, key => if (t.find (u32 key)).isSome then freshKey n (key + 1) else key

/-- The last locked section of `open_mod_table_open_dynamic`. -/
def addDynamic (cfg : Config) (i : Slot) : Table × Option ℕ :=
  let dm := t.slots i
  let key := t.freshKey t.openMods.length dm.key
  let t := t.setSlot i { dm with key := key }
  if cfg.constMods (u32 key) then (t, none) else (t.hashAdd i, some (u32 key))

/-- The last locked section of `open_mod_table_open_from_static`. -/
def addStatic (i : Slot) : Table × Option ℕ := (t.hashAdd i, some (u32 (t.slots i).key))

/-- The locked section of `open_mod_table_close`: whether the handle was found, and the module
that is to be unloaded. -/
def openModTableClose (handle : ℕ) : Table × Option (Option Mod) :=
  match t.find handle with
  | none => (t.emit (.notClosed handle), none)
  | some i =>
      let dec : Table := { t.addRefs i (-1) with opens := Function.update t.opens i (t.opens i - 1) }
      if (dec.slots i).refs = 0 then
        let dm := dec.slots i
        (((dec.hashDel i).setSlot i { dm with key := 0 }).emit (.closed handle true),
          some (some (t.mod i)))
      else (dec.emit (.closed handle false), some none)

/-- `open_mod_table_get_open`. -/
def openModTableGetOpen (handle : ℕ) : Table × Option Mod :=
  match t.find handle with
  | none => (t, none)
  | some i => (t.addRefs i 1, some (t.mod i))

/-- The locked section of `open_mod_close`: the module that is to be unloaded. -/
def openModClose (i : Slot) : Table × Option Mod :=
  let dec : Table := t.addRefs i (-1)
  if (dec.slots i).refs = 0 then (dec.hashDel i, some (t.mod i)) else (dec, none)

/-- `dm->key = 0`. -/
def clearKey (i : Slot) : Table :=
  let dm := t.slots i
  t.setSlot i { dm with key := 0 }

end Table

/-! ### Opens -/

/-- `AEE_ENOMEMORY`. -/
def eNoMemory : ℤ := 0x2

/-- `AEE_EINVHANDLE`. -/
def eInvHandle : ℤ := 0x2C

/-- `AEE_ENOSUCHMOD`. -/
def eNoSuchMod : ℤ := 0x3E

/-- `AEE_ENOSUCHSYMBOL`. -/
def eNoSuchSymbol : ℤ := 0x42

/-- `sizeof("file:///lib_skel.so?_skel_handle_invoke&_modver=1.0")`. -/
def sizeofTemplate : ℕ := 52

/-- `"lib%s_skel.so"`. -/
def libName (uri : Str) : Str :=
  ['l', 'i', 'b'] ++ uri ++ ['_', 's', 'k', 'e', 'l', '.', 's', 'o']

/-- `"%s_skel_invoke"`. -/
def symName (uri : Str) : Str := uri ++ ['_', 's', 'k', 'e', 'l', '_', 'i', 'n', 'v', 'o', 'k', 'e']

/-- The name of the system library: all from the last dot on is replaced by `_system.so`. -/
def systemName (name : Str) : Str :=
  (if '.' ∈ name then (name.reverse.dropWhile (· != '.')).tail.reverse else name) ++
    ['_', 's', 'y', 's', 't', 'e', 'm', '.', 's', 'o']

/-- What the outside answers in one step: whether memory is there, `dlopen` (the library, and
whether `errno` is `ENOENT`), `dlsym`, the open entry point of a module, `dlclose`, and the result
of an invocation. -/
structure Answer where
  calloc : Bool
  dlopen : Str → ℕ × Bool
  dlsym : ℕ → Str → ℕ
  handleOpen : Str → ℤ × ℕ
  dlclose : ℤ
  invokeErr : ℤ

/-- The three ways of `open_mod_table_open`; the last keeps the `dlErr` of the dynamic open. -/
inductive Path
  | override
  | dynamic
  | static (dlErr : ℤ)
  deriving DecidableEq, Repr

/-- The table of static modules that a static open uses. -/
def Path.table (cfg : Config) : Path → Str → Option StaticMod
  | .override => cfg.staticModOverrides
  | _ => cfg.staticMods

/-- The part of `open_mod_table_open_from_static` that looks the module up, by its URI or by the
one built from its parts: what it leaves in the slot, and the module. -/
def fromStatic (tbl : Str → Option StaticMod) (uri : Str) :
    (Str × ParsedUri) × Except ℤ StaticMod :=
  match tbl uri with
  | some sm => ((uri, ⟨[], [], []⟩), .ok sm)
  | none =>
      let vals := (parseUri uri).1
      match (parseUri uri).2 with
      | some nErr => ((uri, vals), .error nErr)
      | none =>
          match tbl vals.build with
          | some sm => ((vals.build, vals), .ok sm)
          | none => ((vals.build, vals), .error eNoSuchMod)

/-- The two calls of `dlopen`. -/
def openLibrary (dm : OpenMod) (uri : Str) (a : Answer) : ℕ :=
  let name := if dm.vals.file ≠ [] then dm.vals.file else libName uri
  if (a.dlopen name).1 = 0 ∧ (a.dlopen name).2 then (a.dlopen (systemName name)).1
  else (a.dlopen name).1

/-- `strncmp(dm->vals.ver, "1.0", dm->vals.verlen)` is zero. -/
def OpenMod.takesHandle (dm : OpenMod) : Bool :=
  dm.vals.ver != [] && dm.vals.ver.isPrefixOf ['1', '.', '0']

/-- The call of `dlsym`: `invoke` and `handle_invoke`. -/
def findSymbol (dm : OpenMod) (uri : Str) (a : Answer) : ℕ × ℕ :=
  let name := if dm.vals.sym ≠ [] then dm.vals.sym else symName uri
  if dm.takesHandle then (0, a.dlsym dm.dlhandle name) else (a.dlsym dm.dlhandle name, 0)

/-! ### Calls -/

/-- Why a module is unloaded: its open failed, a client closed it, or the last invocation of
`asked` ended. -/
inductive Closer
  | failed (p : Path) (uri : Str) (nErr dlErr : ℤ)
  | table (handle : ℕ)
  | invoke (handle : ℕ) (asked : Mod) (nErr : ℤ)
  deriving DecidableEq, Repr

/-- What is left to do of an unload. -/
inductive Stage
  | closeEntry
  | dlclose
  | clearKey
  deriving DecidableEq, Repr

/-- Where a call is, with the local variables that it still uses. -/
inductive Pc
  | idle
  | lock (p : Path) (uri : Str)
  | search (p : Path) (uri : Str)
  | take (p : Path) (uri : Str)
  | load (uri : Str) (m : Mod)
  | symbol (p : Path) (uri : Str) (m : Mod)
  | entry (p : Path) (uri : Str) (m : Mod)
  | add (p : Path) (uri : Str) (m : Mod)
  | unlock
  | fail (p : Path) (uri : Str) (m : Option Mod) (nErr dlErr : ℤ)
  | close (handle : ℕ)
  | invoke (handle : ℕ)
  | invoking (handle : ℕ) (m : Mod)
  | ended (handle : ℕ) (m : Mod) (nErr : ℤ)
  | finish (c : Closer) (m : Mod) (stage : Stage)
  deriving DecidableEq, Repr

/-- A call of one of the functions. -/
inductive Call
  | openModTableOpen (uri : Str)
  | openModTableClose (handle : ℕ)
  | openModTableHandleInvoke (handle : ℕ)

variable (cfg : Config)

/-- The size check of a static open. -/
def fitsStatic (uri : Str) : Bool :=
  cfg.sizeofOpenMod + (uri.length * 2 + sizeofTemplate + 1) ≤ revHandleSize

/-- The size check of a dynamic open. -/
def fitsDynamic (uri : Str) : Bool := cfg.sizeofOpenMod + uri.length + 1 ≤ revHandleSize

/-- `open_mod_table_open_static`, behind a dynamic open that found no library or symbol. -/
def startStatic (t : Table) (uri : Str) (dlErr : ℤ) : Table × Pc :=
  if fitsStatic cfg uri then (t, .lock (.static dlErr) uri)
  else (t.emit (.notOpened uri 0 dlErr), .idle)

/-- `open_mod_table_open_dynamic`. -/
def startDynamic (t : Table) (uri : Str) (a : Answer) : Table × Pc :=
  if a.calloc && fitsDynamic cfg uri then (t, .lock .dynamic uri)
  else (t.emit (.notOpened uri eNoMemory 0), .idle)

/-- `open_mod_table_open`. -/
def startOpen (t : Table) (uri : Str) (a : Answer) : Table × Pc :=
  if fitsStatic cfg uri then (t, .lock .override uri) else startDynamic cfg t uri a

/-- `open_mod_table_open` behind an open that failed with `nErr`. -/
def afterFailure (t : Table) (p : Path) (uri : Str) (nErr dlErr : ℤ) (a : Answer) : Table × Pc :=
  match p with
  | .override => startDynamic cfg t uri a
  | .dynamic =>
      if dlErr = 0 then (t.emit (.notOpened uri nErr 0), .idle) else startStatic cfg t uri dlErr
  | .static dlErr => (t.emit (.notOpened uri 0 dlErr), .idle)

/-- A call up to its first section. -/
def enter (t : Table) (a : Answer) : Call → Table × Pc
  | .openModTableOpen uri => startOpen cfg t uri a
  | .openModTableClose handle => (t, .close handle)
  | .openModTableHandleInvoke handle =>
      -- a const module is called without the table
      if cfg.constMods handle then (t.emit (.invoked handle a.invokeErr), .idle)
      else (t, .invoke handle)

/-- The end of an unload. -/
def finished (t : Table) (a : Answer) : Closer → Table × Pc
  | .failed p uri nErr dlErr => afterFailure cfg t p uri nErr dlErr a
  | .table _ => (t, .idle)
  | .invoke handle _ nErr => (t.emit (.invoked handle nErr), .idle)

/-- The module that an unload was asked for. -/
def Closer.asked (m : Mod) : Closer → Mod
  | .invoke _ asked _ => asked
  | _ => m

/-- The step behind `dlclose`: `open_mod_table_close` has cleared the key before, and returns the
error of `dlclose`. -/
def afterDlclose (t : Table) (c : Closer) (m : Mod) (dlErr : ℤ) : Table × Pc :=
  match c with
  | .table handle => (t.emit (.closeResult handle dlErr), .idle)
  | c => (t, .finish c m .clearKey)

/-- The step behind the close entry point: a static open does not close its library. -/
def afterCloseEntry (t : Table) (c : Closer) (m : Mod) : Table × Pc :=
  match c with
  | .failed .override _ _ _ => (t, .finish c m .clearKey)
  | .failed (.static _) _ _ _ => (t, .finish c m .clearKey)
  | _ => (t, .finish c m .dlclose)

/-- One step of an unload. -/
def finishStep (t : Table) (a : Answer) (c : Closer) (m : Mod) : Stage → Table × Pc
  | .closeEntry =>
      if (t.slots m.slot).h64 ≠ 0 then
        afterCloseEntry (t.emit (.closesEntry (c.asked m) (t.mod m.slot))) c m
      else afterCloseEntry t c m
  | .dlclose =>
      if (t.slots m.slot).dlhandle ≠ 0 then
        afterDlclose (t.emit (.dlcloses (c.asked m) (t.mod m.slot))) c m a.dlclose
      else afterDlclose t c m 0
  | .clearKey => finished cfg (t.clearKey m.slot) a c

/-- A dynamic open takes the slot and parses the URI. -/
def takeDynamic (t : Table) (uri : Str) (i : Slot) : Table × Pc :=
  let t := t.take i uri (parseUri uri).1
  (t, .load uri (t.mod i))

/-- A static open takes the slot and looks the module up. -/
def takeStatic (t : Table) (p : Path) (uri : Str) (i : Slot) : Table × Pc :=
  let r := fromStatic (p.table cfg) uri
  let t := t.take i r.1.1 r.1.2
  match r.2 with
  | .error nErr => (t, .fail p uri (some (t.mod i)) nErr 0)
  | .ok _ => (t, .symbol p uri (t.mod i))

/-- An open takes a free slot. -/
def takeStep (t : Table) (p : Path) (uri : Str) : Table × Pc :=
  match t.nextAvailableRevHandle with
  | none => (t, .fail p uri none eInvHandle 0)
  | some i => if p = .dynamic then takeDynamic t uri i else takeStatic cfg t p uri i

/-- `dlopen`. -/
def loadStep (t : Table) (uri : Str) (m : Mod) (a : Answer) : Table × Pc :=
  let dm := t.slots m.slot
  let t := t.setSlot m.slot { dm with dlhandle := openLibrary dm uri a }
  if (t.slots m.slot).dlhandle = 0 then (t, .fail .dynamic uri (some m) eInvHandle eInvHandle)
  else (t, .symbol .dynamic uri m)

/-- `dlsym`, and the slot is filled in. -/
def symbolDynamic (t : Table) (uri : Str) (m : Mod) (a : Answer) : Table × Pc :=
  let fns := findSymbol (t.slots m.slot) uri a
  if fns.1 = 0 ∧ fns.2 = 0 then (t, .fail .dynamic uri (some m) eNoSuchSymbol eNoSuchSymbol)
  else (t.fill cfg m.slot fns.1 fns.2, .entry .dynamic uri m)

/-- The slot is filled in from the static module. -/
def symbolStatic (t : Table) (p : Path) (uri : Str) (m : Mod) : Table × Pc :=
  match (fromStatic (p.table cfg) uri).2 with
  | .error nErr => (t, .fail p uri (some m) nErr 0)
  | .ok sm => (t.fill cfg m.slot sm.invoke sm.handleInvoke, .entry p uri m)

/-- The functions of the module are stored, and it gets its key. -/
def symbolStep (t : Table) (p : Path) (uri : Str) (m : Mod) (a : Answer) : Table × Pc :=
  if p = .dynamic then symbolDynamic cfg t uri m a else symbolStatic cfg t p uri m

/-- `open_mod_handle_open`. -/
def entryStep (t : Table) (p : Path) (uri : Str) (m : Mod) (a : Answer) : Table × Pc :=
  let dm := t.slots m.slot
  if dm.handleInvoke = 0 then (t, .add p uri m)
  else if (a.handleOpen uri).1 ≠ 0 then (t, .fail p uri (some m) (a.handleOpen uri).1 0)
  else (t.setSlot m.slot { dm with h64 := (a.handleOpen uri).2 }, .add p uri m)

/-- The module is added to the hash. -/
def addStep (t : Table) (p : Path) (uri : Str) (m : Mod) : Table × Pc :=
  match (if p = .dynamic then t.addDynamic cfg m.slot else t.addStatic m.slot) with
  | (t, none) => (t, .fail p uri (some m) eUnknown 0)
  | (t, some handle) => (t.emit (.opened uri handle), .unlock)

/-- `is_reverse_handle_opened`; the open goes on when it finds nothing. -/
def searchStep (t : Table) (p : Path) (uri : Str) : Table × Pc :=
  match t.isReverseHandleOpened uri with
  | (t, some _) => (t, .unlock)
  | (t, none) => (t, .take p uri)

/-- The lock is released, and a module that was not opened is unloaded. -/
def failStep (t : Table) (p : Path) (uri : Str) (m : Option Mod) (nErr dlErr : ℤ) (a : Answer) :
    Table × Pc :=
  match m with
  | none => afterFailure cfg { t with revLock := false } p uri nErr dlErr a
  | some m => ({ t with revLock := false }, .finish (.failed p uri nErr dlErr) m .closeEntry)

/-- The locked section of `open_mod_table_close`. -/
def closeStep (t : Table) (handle : ℕ) : Table × Pc :=
  match t.openModTableClose handle with
  | (t, some (some m)) => (t, .finish (.table handle) m .closeEntry)
  | (t, _) => (t, .idle)

/-- `open_mod_table_get_open`. -/
def invokeStep (t : Table) (handle : ℕ) : Table × Pc :=
  match t.openModTableGetOpen handle with
  | (t, some m) => (t, .invoking handle m)
  | (t, none) => (t.emit (.invoked handle eNoSuchMod), .idle)

/-- The locked section of `open_mod_close`. -/
def endStep (t : Table) (handle : ℕ) (m : Mod) (nErr : ℤ) : Table × Pc :=
  match t.openModClose m.slot with
  | (t, some closed) => (t, .finish (.invoke handle m nErr) closed .closeEntry)
  | (t, none) => (t.emit (.invoked handle nErr), .idle)

/-- One step of a call. -/
def advance (t : Table) (a : Answer) : Pc → Option (Table × Pc)
  | .idle => none
  | .lock p uri => if t.revLock then none else some ({ t with revLock := true }, .search p uri)
  | .search p uri => some (searchStep t p uri)
  | .take p uri => some (takeStep cfg t p uri)
  | .load uri m => some (loadStep t uri m a)
  | .symbol p uri m => some (symbolStep cfg t p uri m a)
  | .entry p uri m => some (entryStep t p uri m a)
  | .add p uri m => some (addStep cfg t p uri m)
  | .unlock => some ({ t with revLock := false }, .idle)
  | .fail p uri m nErr dlErr => some (failStep cfg t p uri m nErr dlErr a)
  | .close handle => some (closeStep t handle)
  | .invoke handle => some (invokeStep t handle)
  | .invoking handle m => some (t, .ended handle m a.invokeErr)
  | .ended handle m nErr => some (endStep t handle m nErr)
  | .finish c m stage => some (finishStep cfg t a c m stage)

/-! ### Threads -/

/-- The table and the call of every thread. -/
structure State (ι : Type) where
  table : Table
  pc : ι → Pc

/-- A thread makes a call, or runs the next step of its call. -/
inductive Event (ι : Type)
  | call (i : ι) (c : Call) (a : Answer)
  | next (i : ι) (a : Answer)

variable {ι : Type}

/-- No module, and no call in progress. -/
def init : State ι := ⟨Table.init, fun _ => .idle⟩

/-- One step of thread `i`. -/
def step [DecidableEq ι] (s : State ι) : Event ι → Option (State ι)
  | .call i c a =>
      if s.table.undefined = false ∧ s.pc i = .idle then
        some ⟨(enter cfg s.table a c).1, Function.update s.pc i (enter cfg s.table a c).2⟩
      else none
  | .next i a =>
      if s.table.undefined then none
      else (advance cfg s.table a (s.pc i)).map (fun r => ⟨r.1, Function.update s.pc i r.2⟩)

end FastRpc.ModTable
