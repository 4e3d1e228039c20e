import FastRpc.MappingRefs
import FastRpc.PacketQueue

/-! # A write that fails

`dspqueue_write_noblock` changes the reference counts of the buffers of its packet before it writes the
packet, and publishes the packet before it signals it.  At `bail` the changes that were made are taken back
from the first buffer on, whatever failed.  Here the mappings are part of the state of the call; its ring
code is that of `PacketQueue`.

After a failed signal the packet stays published.  The other failures leave everything as it was when the
way back of every count fits (`failed_write_untouched`): a `REF` cannot be taken back where it holds the
only reference, which a later `DEREF` of the same packet may have brought about. -/

namespace FastRpc.WriteUndo

open CInt
open StaticMap hiding Store Session
open RefCount

/-! ### The call -/

/-- The change that a buffer asks for; there is none when both flags are set. -/
def change (b : Buffer) : Option Change :=
  if b.isRef then if b.isDeref then none else some .up
  else if b.isDeref then some .down
  else some .keep

/-- `b->fd` as an `int`. -/
def intFd (b : Buffer) : ℤ := wrap (b.fd.toNat : ℤ)

/-- The check of the offset and size of a buffer against the mapping. -/
def inBounds (b : Buffer) (size : ℕ) : Bool :=
  if b.size ≠ 0 then b.offset.toNat + b.size.toNat ≤ size else b.offset = 0

/-- The buffer loop: the mappings, the first `buf_refs` buffers and the error. -/
def refLoop (d : Domain) :
    StaticMap.Store → List Buffer → StaticMap.Store × List Buffer × Option AEEResult
  | s, [] => (s, [], none)
  | s, b :: bs =>
      match change b with
      | none => (s, [], some .EBADPARM)
      | some change =>
          let r := fastrpcBufferRef s d (intFd b) change.delta
          match r.2.nErr with
          | some nErr => (r.1, [], some nErr)
          | none =>
              if inBounds b (r.2.size.getD 0) then
                let rest := refLoop d r.1 bs
                (rest.1, b :: rest.2.1, rest.2.2)
              else (r.1, [b], some .EBADPARM)

/-- The loop at `bail`. -/
def undoLoop (d : Domain) (s : StaticMap.Store) (bs : List Buffer) : StaticMap.Store :=
  bs.foldl (fun s b =>
    if b.isRef then (fastrpcBufferRef s d (intFd b) (-1)).1
    else if b.isDeref then (fastrpcBufferRef s d (intFd b) 1).1
    else s) s

/-- The packet queue, and the static mappings of all domains. -/
structure WriteState where
  queue : Queue
  maps : StaticMap.Store

/-- The checks in front of the buffer loop. -/
def checkWrite (q : Queue) (buffers : List Buffer) (message : List UInt8) :
    Except Fault (ℕ × Bool) := do
  verifyC (buffers.length ≤ maxBuffers) .EBADPARM
  verifyC (message.length ≤ maxMessageSize) .EBADPARM
  reserve q (packetLength buffers.length message.length)

/-- The packet that the call stores from `space` on. -/
def storePacket (q : Queue) (space : ℕ × Bool) (flags : ℕ) (buffers : List Buffer)
    (message : List UInt8) : Except Fault (ByteStore.Store × ℕ) :=
  let flags := packetFlags flags buffers.length message.length
  let len := packetLength buffers.length message.length
  writePacket q.bytes space.1 q.queueLength space.2
    (packetHeader len flags buffers.length q.seqNo) buffers message

/-- `dspqueue_write_noblock` on a queue of domain `d`; `sendSignal` is the result of `send_signal`. -/
def dspqueueWriteNoblock (d : Domain) (sendSignal : Except AEEResult Unit) (st : WriteState)
    (flags : ℕ) (buffers : List Buffer) (message : List UInt8) : WriteState × Except Fault Unit :=
  match checkWrite st.queue buffers message with
  | .error e => (st, .error e)
  | .ok space =>
      let refs := refLoop d st.maps buffers
      match refs.2.2 with
      | some nErr => (⟨st.queue, undoLoop d refs.1 refs.2.1⟩, .error (.error nErr))
      | none =>
          match storePacket st.queue space flags buffers message with
          | .error e => (⟨st.queue, refs.1⟩, .error e)
          | .ok (bytes, w) =>
              let q := publish st.queue bytes w
              match (Env.mk (fun _ _ => .error .ENOSUCHMAP) sendSignal).signal (signalsPacket q) with
              | .error e => (⟨q, undoLoop d refs.1 refs.2.1⟩, .error e)
              | .ok () => (⟨{ q with seqNo := (q.seqNo + 1) % 2 ^ 16 }, refs.1⟩, .ok ())

theorem writeRing_eq (bufferRef : BufferRef) (q : Queue) (flags : ℕ) (buffers : List Buffer)
    (message : List UInt8) : writeRing bufferRef q flags buffers message =
      (checkWrite q buffers message >>= fun space =>
        writeRefs bufferRef buffers >>= fun _ =>
          storePacket q space flags buffers message >>= fun out => .ok (publish q out.1 out.2)) := by
  unfold writeRing checkWrite
  by_cases hbuffers : buffers.length ≤ maxBuffers
  · by_cases hmessage : message.length ≤ maxMessageSize
    · rw [verifyC_pos hbuffers, verifyC_pos hmessage]
      rfl
    · rw [verifyC_pos hbuffers, verifyC_neg hmessage]
      rfl
  · rw [verifyC_neg hbuffers]
    rfl

/-- Apart from the mappings it is the write of `PacketQueue`, with the answers that the buffer loop
gets. -/
theorem dspqueueWriteNoblock_queue (d : Domain) (env : Env) (st : WriteState) (flags : ℕ)
    (buffers : List Buffer) (message : List UInt8)
    (hrefs : writeRefs env.bufferRef buffers =
      match (refLoop d st.maps buffers).2.2 with
      | none => .ok ()
      | some nErr => .error (.error nErr)) :
    ((dspqueueWriteNoblock d env.sendSignal st flags buffers message).1.queue,
        (dspqueueWriteNoblock d env.sendSignal st flags buffers message).2) =
      FastRpc.dspqueueWriteNoblock env st.queue flags buffers message := by
  unfold dspqueueWriteNoblock FastRpc.dspqueueWriteNoblock
  rw [writeRing_eq, hrefs]
  cases checkWrite st.queue buffers message with
  | error e => rfl
  | ok space =>
      cases hloop : (refLoop d st.maps buffers).2.2 with
      | some nErr => simp [hloop]
      | none =>
          cases hpacket : storePacket st.queue space flags buffers message with
          | error e => simp [hloop, hpacket]
          | ok out =>
              obtain ⟨bytes, w⟩ := out
              have hsignal : (Env.mk (fun _ _ => .error .ENOSUCHMAP) env.sendSignal).signal =
                env.signal := rfl
              simp only [hloop, hpacket, hsignal, ok_bind]
              cases env.signal (signalsPacket (publish st.queue bytes w)) <;> rfl

/-! ### What a failed write should leave -/

/-- The buffer loop on the table of the domain. -/
def tableLoop : Table → List Buffer → Table × List Buffer × Option AEEResult
  | T, [] => (T, [], none)
  | T, b :: bs =>
      match change b with
      | none => (T, [], some .EBADPARM)
      | some change =>
          let r := T.bufferRef (intFd b) change.delta
          match r.2.nErr with
          | some nErr => (r.1, [], some nErr)
          | none =>
              if inBounds b (r.2.size.getD 0) then
                let rest := tableLoop r.1 bs
                (rest.1, b :: rest.2.1, rest.2.2)
              else (r.1, [b], some .EBADPARM)

/-- The buffers whose change is made. -/
def changed (T : Table) (bs : List Buffer) : List Buffer := (tableLoop T bs).2.1

/-- Every buffer is found, changed and in bounds. -/
def Accepted (T : Table) (bs : List Buffer) : Prop := (tableLoop T bs).2.2 = none

instance (T : Table) (bs : List Buffer) : Decidable (Accepted T bs) := inferInstanceAs (Decidable (_ = _))

/-- The changes that buffers ask for of one mapping. -/
def changesOf (fd : ℤ) (bs : List Buffer) : List Change :=
  (bs.filter (fun b => intFd b = fd)).filterMap change

/-- Nothing of the packet is left: the positions, the counters and the sequence number, what the reader
finds, and the reference counts. -/
structure Untouched (st st' : WriteState) : Prop where
  position : st'.queue.writeState = st.queue.writeState
  written : st'.queue.writePacketCount = st.queue.writePacketCount
  counted : st'.queue.reqPacketCount = st.queue.reqPacketCount
  seqNo : st'.queue.seqNo = st.queue.seqNo
  undelivered : ∀ args, (readStart st'.queue args).map Prod.snd = (readStart st.queue args).map Prod.snd
  refs : ∀ d fd, (st'.maps.table d).entry (.fd fd) = (st.maps.table d).entry (.fd fd)

/-- When a failed write leaves nothing: where the packet is stored, no signal is needed or it succeeds; and
where a buffer is refused, the way back of each mapping that was changed fits its count. -/
def LeavesNothing (d : Domain) (sendSignal : Except AEEResult Unit) (st : WriteState) (flags : ℕ)
    (buffers : List Buffer) (message : List UInt8) : Prop :=
  ∀ space, checkWrite st.queue buffers message = .ok space →
    if Accepted (st.maps.table d) buffers then
      ∀ out, storePacket st.queue space flags buffers message = .ok out →
        signalsPacket st.queue = true → sendSignal = .ok ()
    else
      ∀ fd node, (st.maps.table d).entry (.fd fd) = some node →
        changesOf fd (changed (st.maps.table d) buffers) ≠ [] →
        Fits node.refs (changesOf fd (changed (st.maps.table d) buffers))

/-! ### One buffer -/

section Buffers

variable {s : StaticMap.Store} {d : Domain} {T : Table} {b : Buffer} {bs : List Buffer} {fd : ℤ}
  {node : Node}

/-- A change of a mapping on the table. -/
theorem bufferRef_change (T : Table) (fd : ℤ) (x : Change) :
    (T.bufferRef fd x.delta).2.nErr ≠ none ∧ (T.bufferRef fd x.delta).1 = T ∧
        (∀ node, T.entry (.fd fd) = some node → x.apply node.refs = none) ∨
      (T.bufferRef fd x.delta).2.nErr = none ∧ ∃ node refs, T.entry (.fd fd) = some node ∧
        x.apply node.refs = some refs ∧ (T.bufferRef fd x.delta).1 = T.setRefs (.fd fd) refs := by
  unfold Table.bufferRef
  cases hentry : T.entry (.fd fd) with
  | none => exact .inl ⟨by simp [Outcome.of], rfl, by simp⟩
  | some node =>
      by_cases hpos : node.refs ≤ 0
      · refine .inl ?_
        simp [hpos, Outcome.of, apply_nonpos hpos]
      · have hlt : 0 < node.refs := not_le.mp hpos
        cases x with
        | up =>
            refine .inr ?_
            simp [hpos, delta_up, apply_up hlt]
        | down =>
            by_cases hone : node.refs = 1
            · refine .inl ?_
              simp [hone, delta_down, apply_down_last]
            · refine .inr ?_
              have hlt' : 1 < node.refs := by omega
              simp [hpos, hone, delta_down, apply_down hlt']
        | keep =>
            refine .inr ?_
            simp [hpos, delta_keep, apply_keep hlt, (Table.setRefs_eq_self hentry node.refs).mpr rfl]

theorem changesOf_cons_self {x : Change} (hx : change b = some x) (hfd : intFd b = fd) :
    changesOf fd (b :: bs) = x :: changesOf fd bs := by
  simp [changesOf, hfd, hx]

theorem changesOf_cons_other (hfd : intFd b ≠ fd) : changesOf fd (b :: bs) = changesOf fd bs := by
  simp [changesOf, hfd]

/-- `T'` is the table after the changes of the buffers `bs`, all of which were accepted. -/
structure Follows (T : Table) (bs : List Buffer) (T' : Table) : Prop where
  asks : ∀ b ∈ bs, (change b).isSome = true
  missing : ∀ fd, T.entry (.fd fd) = none → T'.entry (.fd fd) = none ∧ changesOf fd bs = []
  counts : ∀ fd node, T.entry (.fd fd) = some node → ∃ refs,
    doAll node.refs (changesOf fd bs) = some refs ∧ T'.entry (.fd fd) = some { node with refs := refs }

theorem Follows.refl (T : Table) : Follows T [] T :=
  ⟨by simp, fun _ h => ⟨h, rfl⟩, fun _ node h => ⟨node.refs, rfl, h⟩⟩

theorem Follows.cons {T' : Table} {x : Change} {refs : ℤ} (hx : change b = some x) (hfd : intFd b = fd)
    (hentry : T.entry (.fd fd) = some node) (happly : x.apply node.refs = some refs)
    (h : Follows (T.setRefs (.fd fd) refs) bs T') : Follows T (b :: bs) T' where
  asks := by
    refine List.forall_mem_cons.mpr ⟨?_, h.asks⟩
    rw [hx]
    rfl
  missing := by
    intro fd' hnone
    have hne : fd' ≠ fd := by
      rintro rfl
      rw [hnone] at hentry
      cases hentry
    obtain ⟨hnone', hchanges⟩ := h.missing fd' ((Table.entry_setRefs_other hne T refs).trans hnone)
    exact ⟨hnone', (changesOf_cons_other (hfd ▸ hne.symm)).trans hchanges⟩
  counts := by
    intro fd' node' hnode
    rcases eq_or_ne fd' fd with rfl | hne
    · obtain rfl := Option.some.inj (hentry.symm.trans hnode)
      obtain ⟨refs', hall, hentry'⟩ := h.counts _ _ (Table.entry_setRefs_self hentry refs)
      refine ⟨refs', ?_, hentry'⟩
      rw [changesOf_cons_self hx hfd, doAll, happly]
      exact hall
    · rw [changesOf_cons_other (hfd ▸ hne.symm)]
      exact h.counts fd' node' ((Table.entry_setRefs_other hne T refs).trans hnode)

/-- The buffer loop accepts each change that it makes. -/
theorem tableLoop_follows (T : Table) (bs : List Buffer) : Follows T (changed T bs) (tableLoop T bs).1 := by
  unfold changed
  induction bs generalizing T with
  | nil => exact .refl T
  | cons b bs ih =>
      unfold tableLoop
      cases hx : change b with
      | none => exact .refl T
      | some x =>
          dsimp only
          obtain ⟨hnErr, hsame, _⟩ | ⟨hnErr, node, refs, hentry, happly, hset⟩ :=
            bufferRef_change T (intFd b) x
          · obtain ⟨nErr, hnErr⟩ := Option.ne_none_iff_exists'.mp hnErr
            rw [hnErr]
            dsimp only
            rw [hsame]
            exact .refl T
          · rw [hnErr]
            dsimp only
            rw [hset]
            split_ifs
            · exact .cons hx rfl hentry happly (ih _)
            · exact .cons hx rfl hentry happly (.refl _)

/-- The loop at `bail` on the table of the domain. -/
def tableUndo (T : Table) (bs : List Buffer) : Table :=
  bs.foldl (fun T b =>
    if b.isRef then (T.bufferRef (intFd b) (-1)).1
    else if b.isDeref then (T.bufferRef (intFd b) 1).1
    else T) T

theorem tableUndo_cons {x : Change} (hx : change b = some x) :
    tableUndo T (b :: bs) = tableUndo (T.bufferRef (intFd b) x.inverse.delta).1 bs := by
  have hkeep : (T.bufferRef (intFd b) 0).1 = T := by
    obtain ⟨_, hsame, _⟩ | ⟨_, node, refs, hentry, happly, hset⟩ := bufferRef_change T (intFd b) .keep
    · exact hsame
    · have hrefs : node.refs = refs := by
        simp only [Change.apply] at happly
        split_ifs at happly
        exact Option.some.inj happly
      exact hset.trans ((Table.setRefs_eq_self hentry refs).mpr hrefs)
  unfold tableUndo
  rw [List.foldl_cons]
  congr 1
  unfold change at hx
  split_ifs at hx ⊢ with href hderef hderef
  · obtain rfl := Option.some.inj hx
    rfl
  · obtain rfl := Option.some.inj hx
    rfl
  · obtain rfl := Option.some.inj hx
    exact hkeep.symm

/-- A change that is taken back, or refused. -/
theorem bufferRef_entry (T : Table) (fd fd' : ℤ) (x : Change) :
    (T.bufferRef fd x.delta).1.entry (.fd fd') = (T.entry (.fd fd')).map (fun node =>
      { node with refs := if fd = fd' then (x.apply node.refs).getD node.refs else node.refs }) := by
  obtain ⟨_, hsame, hnone⟩ | ⟨_, node, refs, hentry, happly, hset⟩ := bufferRef_change T fd x
  · rw [hsame]
    cases hentry : T.entry (.fd fd') with
    | none => rfl
    | some node =>
        split_ifs with hfd
        · subst hfd
          simp [hnone node hentry]
        · rfl
  · rw [hset]
    split_ifs with hfd
    · subst hfd
      simp [Table.entry_setRefs_self hentry, hentry, happly]
    · rw [Table.entry_setRefs_other (Ne.symm hfd)]
      cases T.entry (.fd fd') <;> rfl

/-- What the loop at `bail` makes of a count. -/
theorem tableUndo_entry (T : Table) (fd : ℤ) (hasks : ∀ b ∈ bs, (change b).isSome = true) :
    (tableUndo T bs).entry (.fd fd) = (T.entry (.fd fd)).map (fun node =>
      { node with refs := undoAll node.refs (changesOf fd bs) }) := by
  induction bs generalizing T with
  | nil =>
      cases hentry : T.entry (.fd fd) <;> simp [tableUndo, hentry, changesOf, undoAll]
  | cons b bs ih =>
      obtain ⟨hb, hasks⟩ := List.forall_mem_cons.mp hasks
      obtain ⟨x, hx⟩ := Option.isSome_iff_exists.mp hb
      rw [tableUndo_cons hx, ih _ hasks, bufferRef_entry, Option.map_map]
      refine congrArg (fun f => (T.entry (.fd fd)).map f) (funext fun node => ?_)
      by_cases hfd : intFd b = fd
      · simp [changesOf_cons_self hx hfd, undoAll_cons, hfd]
      · simp [changesOf_cons_other hfd, hfd]

theorem refLoop_table (hs : s.Ok) (bs : List Buffer) :
    Leaves s d (tableLoop (s.table d) bs).1 (refLoop d s bs).1 ∧
      (refLoop d s bs).2 = (tableLoop (s.table d) bs).2 := by
  induction bs generalizing s with
  | nil => exact ⟨.same hs, rfl⟩
  | cons b bs ih =>
      unfold refLoop tableLoop
      cases change b with
      | none => exact ⟨.same hs, rfl⟩
      | some x =>
          obtain ⟨houtcome, hleaves⟩ := bufferRef_leaves (d := d) hs (intFd b) x.delta
          dsimp only
          rw [houtcome]
          cases ((s.table d).bufferRef (intFd b) x.delta).2.nErr with
          | some nErr => exact ⟨hleaves, rfl⟩
          | none =>
              dsimp only
              split_ifs
              · obtain ⟨hrest, heq⟩ := ih hleaves.ok
                rw [hleaves.table_self] at hrest heq
                exact ⟨hleaves.trans hrest, by rw [heq]⟩
              · exact ⟨hleaves, rfl⟩

theorem undoLoop_table (hs : s.Ok) (bs : List Buffer) :
    Leaves s d (tableUndo (s.table d) bs) (undoLoop d s bs) := by
  induction bs generalizing s with
  | nil => exact .same hs
  | cons b bs ih =>
      unfold undoLoop tableUndo
      rw [List.foldl_cons, List.foldl_cons]
      split_ifs
      · have hleaves := (bufferRef_leaves (d := d) hs (intFd b) (-1)).2
        have hrest := ih hleaves.ok
        rw [hleaves.table_self] at hrest
        exact hleaves.trans hrest
      · have hleaves := (bufferRef_leaves (d := d) hs (intFd b) 1).2
        have hrest := ih hleaves.ok
        rw [hleaves.table_self] at hrest
        exact hleaves.trans hrest
      · exact ih hs

/-- Changes that were made and taken back leave the count of each mapping exactly where the way back
fits. -/
theorem undo_entry_iff {T' : Table} (h : Follows T bs T') (fd : ℤ)
    (hint : ∀ node, T.entry (.fd fd) = some node → node.refs ≤ intMax) :
    (tableUndo T' bs).entry (.fd fd) = T.entry (.fd fd) ↔
      ∀ node, T.entry (.fd fd) = some node → changesOf fd bs ≠ [] → Fits node.refs (changesOf fd bs) := by
  rw [tableUndo_entry T' fd h.asks]
  cases hentry : T.entry (.fd fd) with
  | none => simp [(h.missing fd hentry).1]
  | some node =>
      obtain ⟨refs, hall, hentry'⟩ := h.counts fd node hentry
      have heq : (some { node with refs := undoAll refs (changesOf fd bs) } = some node) ↔
          undoAll refs (changesOf fd bs) = node.refs := by
        refine ⟨fun hsome => congrArg Node.refs (Option.some.inj hsome), fun hrefs => ?_⟩
        rw [hrefs]
      simp only [hentry', Option.map_some, heq, Option.some.injEq, forall_eq']
      cases hchanges : changesOf fd bs with
      | nil =>
          rw [hchanges] at hall
          obtain rfl := Option.some.inj hall
          simp [undoAll]
      | cons x xs =>
          rw [hchanges] at hall
          obtain ⟨c, happly, _⟩ := Option.bind_eq_some_iff.mp hall
          have hpos := (apply_eq_some happly (hint node hentry)).1
          rw [undoAll_eq_iff hpos (hint node hentry) hall]
          simp

end Buffers

/-! ### The packet -/

section Packet

variable {d : Domain} {sendSignal : Except AEEResult Unit} {st : WriteState} {flags : ℕ}
  {buffers : List Buffer} {message : List UInt8} {space : ℕ × Bool}

/-- Only an assertion of the function fails. -/
def AssertsOnly {α : Type} (x : Except Fault α) : Prop := ∀ e, x = .error e → e = .assertion

theorem AssertsOnly.ok {α : Type} (a : α) : AssertsOnly (.ok a : Except Fault α) := nofun

theorem AssertsOnly.cAssert (cond : Bool) : AssertsOnly (cAssert cond) := by
  intro e h
  cases cond with
  | true => cases h
  | false =>
      cases h
      rfl

theorem AssertsOnly.bind {α β : Type} {x : Except Fault α} {f : α → Except Fault β}
    (hx : AssertsOnly x) (hf : ∀ a, AssertsOnly (f a)) : AssertsOnly (x >>= f) := by
  intro e h
  cases x with
  | error e' =>
      cases h
      exact hx e rfl
  | ok a => exact hf a e h

theorem assertsOnly_writePart (packetQueue : ByteStore.Store) (w queueLen : ℕ) (data : List UInt8) :
    AssertsOnly (writePart packetQueue w queueLen data) := by
  unfold writePart writeData
  split_ifs
  · exact .bind (.cAssert _) fun _ => .bind (.cAssert _) fun _ => .bind (.cAssert _) fun _ =>
      .bind (.cAssert _) fun _ => .ok _
  · exact .ok _

theorem assertsOnly_writeBody (packetQueue : ByteStore.Store) (w queueLen : ℕ) :
    AssertsOnly (writeBody packetQueue w queueLen buffers message) := by
  unfold writeBody
  refine .bind (assertsOnly_writePart _ _ _ _) fun out => ?_
  obtain ⟨packetQueue', w'⟩ := out
  exact assertsOnly_writePart _ _ _ _

theorem assertsOnly_storePacket : AssertsOnly (storePacket st.queue space flags buffers message) := by
  unfold storePacket writePacket
  exact assertsOnly_writeBody _ _ _

theorem Untouched.refl (st : WriteState) : Untouched st st :=
  ⟨rfl, rfl, rfl, rfl, fun _ => rfl, fun _ _ => rfl⟩

/-- A refused buffer. -/
theorem refused_untouched_iff (hs : st.maps.Ok) (hint : ∀ node ∈ st.maps.table d, node.refs ≤ intMax) :
    Untouched st ⟨st.queue, undoLoop d (refLoop d st.maps buffers).1 (refLoop d st.maps buffers).2.1⟩ ↔
      ∀ fd node, (st.maps.table d).entry (.fd fd) = some node →
        changesOf fd (changed (st.maps.table d) buffers) ≠ [] →
        Fits node.refs (changesOf fd (changed (st.maps.table d) buffers)) := by
  obtain ⟨hleaves, hloop⟩ := refLoop_table (d := d) hs buffers
  have hfollows := tableLoop_follows (st.maps.table d) buffers
  have hundo := undoLoop_table (d := d) hleaves.ok (refLoop d st.maps buffers).2.1
  rw [hleaves.table_self, hloop] at hundo
  have hall := hleaves.trans hundo
  have hentry := fun fd => undo_entry_iff hfollows fd
    fun node hnode => hint node (Table.entry_mem hnode)
  rw [hloop]
  constructor
  · intro huntouched fd
    refine (hentry fd).mp ?_
    have hrefs := huntouched.refs d fd
    rwa [hall.table_self] at hrefs
  · intro hfits
    refine ⟨rfl, rfl, rfl, rfl, fun _ => rfl, fun d' fd => ?_⟩
    rw [hall.table]
    rcases eq_or_ne d' d with rfl | hne
    · rw [Function.update_self]
      exact (hentry fd).mpr (hfits fd)
    · rw [Function.update_of_ne hne]

/-- **A failed write leaves nothing exactly under `LeavesNothing`.** -/
theorem failed_write_untouched (d : Domain) (sendSignal : Except AEEResult Unit) (st : WriteState)
    (hs : st.maps.Ok) (hint : ∀ node ∈ st.maps.table d, node.refs ≤ intMax) (flags : ℕ)
    (buffers : List Buffer) (message : List UInt8) :
    (∀ code, (dspqueueWriteNoblock d sendSignal st flags buffers message).2 = .error (.error code) →
      Untouched st (dspqueueWriteNoblock d sendSignal st flags buffers message).1) ↔
    LeavesNothing d sendSignal st flags buffers message := by
  unfold LeavesNothing dspqueueWriteNoblock
  cases hcheck : checkWrite st.queue buffers message with
  | error e => simp [Untouched.refl]
  | ok space =>
      have hloop := (refLoop_table (d := d) hs buffers).2
      have haccepted : Accepted (st.maps.table d) buffers ↔ (refLoop d st.maps buffers).2.2 = none := by
        rw [hloop]
        rfl
      dsimp only
      cases hrefs : (refLoop d st.maps buffers).2.2 with
      | some nErr =>
          have hrefused : ¬ Accepted (st.maps.table d) buffers := by
            rw [haccepted, hrefs]
            exact Option.some_ne_none nErr
          simp [hrefused, refused_untouched_iff hs hint]
      | none =>
          simp only [Except.ok.injEq, forall_eq', if_pos (haccepted.mpr hrefs)]
          cases hpacket : storePacket st.queue space flags buffers message with
          | error e =>
              obtain rfl := assertsOnly_storePacket e hpacket
              simp
          | ok out =>
              have hneeded : signalsPacket (publish st.queue out.1 out.2) = signalsPacket st.queue := rfl
              have hpublished : ∀ maps, ¬ Untouched st ⟨publish st.queue out.1 out.2, maps⟩ :=
                fun maps h => addU32_one_ne_self _ h.written
              simp only [hneeded]
              cases hsignal : signalsPacket st.queue with
              | false => simp [Env.signal]
              | true =>
                  cases sendSignal with
                  | ok u => simp [Env.signal]
                  | error code => simp [Env.signal, hpublished]

/-- A buffer of a packet, given by its descriptor and flags. -/
def bufferOf (fd flags : UInt32) : Buffer := ⟨fd, 0, 0, flags, 0⟩

/-- A queue of 256 bytes that signals every packet, and one mapping with the count `1`. -/
def smallQueue : WriteState := ⟨.create 256 (fun _ => 0) 0 false, oneMapping⟩

/-- A reference is taken, and the next buffer is not mapped. -/
theorem failed_write_untouched_ref :
    Untouched smallQueue (dspqueueWriteNoblock 3 (.ok ()) smallQueue 0
      [bufferOf 5 4, bufferOf 9 0] [1]).1 := by
  have hint : ∀ node ∈ smallQueue.maps.table 3, node.refs ≤ intMax := by decide
  refine (failed_write_untouched 3 (.ok ()) smallQueue (callStatic_table Store.Ok.init _ _ _).1 hint 0
    [bufferOf 5 4, bufferOf 9 0] [1]).mpr ?_ .ENOSUCHMAP (by decide +kernel)
  intro space _
  have hchanged : changed (smallQueue.maps.table 3) [bufferOf 5 4, bufferOf 9 0] = [bufferOf 5 4] := by
    decide +kernel
  have hfd : intFd (bufferOf 5 4) = 5 := by decide
  rw [if_neg (by decide +kernel), hchanged]
  intro fd node hentry hchanges
  obtain rfl : 5 = fd := by
    by_contra hne
    exact hchanges (by rw [changesOf_cons_other (by rwa [hfd])]; rfl)
  have hnode : (smallQueue.maps.table 3).entry (.fd 5) =
      some ⟨⟨5, 0, 0, 0, 0x1000, 0x100, 0x4000⟩, 1⟩ := by decide
  obtain rfl := Option.some.inj (hnode.symm.trans hentry)
  rw [changesOf_cons_self (x := .up) (by decide) hfd]
  exact fits_cons.mpr ⟨by decide, fun t ht => by rw [List.suffix_nil.mp ht]; decide⟩

/-- A reference that is taken and given back in front of a missing buffer is left over, and a packet whose
signal fails stays in the queue. -/
theorem failed_write_leaves :
    let refused := dspqueueWriteNoblock 3 (.ok ()) smallQueue 0
      [bufferOf 5 4, bufferOf 5 8, bufferOf 9 0] [1]
    let unsignalled := dspqueueWriteNoblock 3 (.error .EFAILED) smallQueue 0 [bufferOf 5 4] [1]
    (refused.2 = .error (.error .ENOSUCHMAP) ∧ (refused.1.maps.table 3).map Node.refs = [2] ∧
      ¬ Untouched smallQueue refused.1) ∧
    (unsignalled.2 = .error (.error .EFAILED) ∧ unsignalled.1.queue.writeState.position = 40 ∧
      ¬ Untouched smallQueue unsignalled.1) := by
  intro refused unsignalled
  refine ⟨⟨by decide +kernel, by decide +kernel, fun h => ?_⟩,
    ⟨by decide +kernel, by decide +kernel, fun h => ?_⟩⟩
  · have hrefs := congrArg (Option.map Node.refs) (h.refs 3 5)
    revert hrefs
    decide +kernel
  · have hwritten := h.written
    revert hwritten
    decide +kernel

end Packet

end FastRpc.WriteUndo
