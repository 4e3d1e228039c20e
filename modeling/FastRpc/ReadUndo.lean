import FastRpc.PeekRead
import FastRpc.WriteUndo

/-! # A read that fails

`dspqueue_read_noblock` takes a packet out of the ring before it looks its buffers up.  Where a buffer is
refused, the loop at `bail` takes the changes of the buffers in front of it back, and stores the results of
these calls in the variable of the error.  `PacketQueue` gives the error of the buffer loop to the caller;
here the mappings are part of the state, and the code is the one that is left at the end.

So the packet is lost whenever a buffer is refused, and the call returns `AEE_SUCCESS` if the last of the
changes could be taken back (`failed_read`). -/

namespace FastRpc.ReadUndo

open CInt
open StaticMap hiding Store Session
open RefCount WriteUndo

/-! ### The call -/

/-- The packet queue, and the static mappings of all domains. -/
structure ReadState where
  queue : Queue
  maps : StaticMap.Store

/-- The buffer with the address and size that the mapping gives it, if it is in bounds. -/
def attached (b : Buffer) (va size : ℕ) : Option Buffer :=
  if b.size ≠ 0 then
    if b.offset.toNat + b.size.toNat ≤ size then some { b with ptr := .ofNat (va + b.offset.toNat) }
    else none
  else if b.offset = 0 then some { b with ptr := .ofNat va, size := .ofNat size }
  else none

/-- What the buffer loop leaves: the mappings, the first `buf_refs` buffers of the packet, the array of the
caller and the error. -/
structure BufferLoop where
  maps : StaticMap.Store
  bufRefs : List Buffer
  buffers : List Buffer
  nErr : Option AEEResult

/-- The buffer loop. -/
def readLoop (d : Domain) : StaticMap.Store → List Buffer → BufferLoop
  | s, [] => ⟨s, [], [], none⟩
  | s, b :: bs =>
      match change b with
      | none => ⟨s, [], b :: bs, some .EBADPARM⟩
      | some change =>
          let r := fastrpcBufferRef s d (intFd b) change.delta
          match r.2.nErr with
          | some nErr => ⟨r.1, [], b :: bs, some nErr⟩
          | none =>
              match attached b (r.2.va.getD 0) (r.2.size.getD 0) with
              | none => ⟨r.1, [b], b :: bs, some .EBADITEM⟩
              | some b' =>
                  let rest := readLoop d r.1 bs
                  ⟨rest.maps, b :: rest.bufRefs, b' :: rest.buffers, rest.nErr⟩

/-- The loop at `bail`: each call that it makes overwrites the code. -/
def bailLoop (d : Domain) (r : StaticMap.Store × Option AEEResult) (bs : List Buffer) :
    StaticMap.Store × Option AEEResult :=
  bs.foldl (fun r b =>
    if b.isRef then
      let undo := fastrpcBufferRef r.1 d (intFd b) (-1)
      (undo.1, undo.2.nErr)
    else if b.isDeref then
      let undo := fastrpcBufferRef r.1 d (intFd b) 1
      (undo.1, undo.2.nErr)
    else r) r

/-- What a read that returns `AEE_SUCCESS` stores; at `bail` nothing is stored in `num_buffers`. -/
structure Stored where
  delivered : Delivered
  numBuffers : Option ℕ
  deriving DecidableEq, Repr

/-- The rest of the call behind the packet `p` that it has taken out of the ring. -/
def finishRead (d : Domain) (sendSignal : Except AEEResult Unit) (st : ReadState) (p : Delivered) :
    ReadState × Except Fault Stored :=
  match (Env.mk (fun _ _ => .error .ENOSUCHMAP) sendSignal).signal (signalsSpace st.queue) with
  | .error e => (st, .error e)
  | .ok () =>
      match p.buffers with
      | none => (st, .ok ⟨p, some p.numBuffers⟩)
      | some bs =>
          let r := readLoop d st.maps bs
          match r.nErr with
          | none => (⟨st.queue, r.maps⟩, .ok ⟨{ p with buffers := some r.buffers }, some p.numBuffers⟩)
          | some nErr =>
              let undone := bailLoop d (r.maps, some nErr) r.bufRefs
              (⟨st.queue, undone.1⟩, match undone.2 with
                | some nErr => .error (.error nErr)
                | none => .ok ⟨{ p with buffers := some r.buffers }, none⟩)

/-- Where a call looks for its packet: at its beginning, or in one round of the polling behind an early
wakeup packet. -/
inductive Look
  | start
  | poll
  deriving DecidableEq, Repr

/-- The packet that is taken out of the ring, if there is one, and the queue without it. -/
def takePacket (q : Queue) (args : ReadArgs) : Look → Except Fault (Queue × Option Delivered)
  | .start => (readStart q args).map (fun r => (r.1, match r.2 with
      | .packet p => some p
      | .polling _ => none))
  | .poll => (readPoll q args).map (fun r => match r with
      | some (q, p) => (q, some p)
      | none => (q, none))

/-- `dspqueue_read_noblock` on a queue of domain `d` from one look for a packet on, up to a result or to the
next look; `sendSignal` is the result of `send_signal`. -/
def dspqueueReadNoblock (look : Look) (d : Domain) (sendSignal : Except AEEResult Unit) (st : ReadState)
    (args : ReadArgs) : ReadState × Except Fault (Option Stored) :=
  match takePacket st.queue args look with
  | .error e => (st, .error e)
  | .ok (q, some p) =>
      let r := finishRead d sendSignal ⟨q, st.maps⟩ p
      (r.1, r.2.map some)
  | .ok (q, none) =>
      match look with
      | .poll => (⟨q, st.maps⟩, .ok none)
      | .start => (⟨q, st.maps⟩,
          ((Env.mk (fun _ _ => .error .ENOSUCHMAP) sendSignal).signal (signalsSpace q)).map (fun _ => none))

/-- Apart from the mappings it is the read of `PacketQueue`. -/
theorem dspqueueReadNoblock_queue (d : Domain) (env : Env) (st : ReadState) (args : ReadArgs) :
    (dspqueueReadNoblock .start d env.sendSignal st args).1.queue =
        (FastRpc.dspqueueReadNoblock env st.queue args).1 ∧
      (dspqueueReadNoblock .poll d env.sendSignal st args).1.queue =
        (FastRpc.dspqueueReadPoll env st.queue args).1 := by
  have hfinish : ∀ st p, (finishRead d env.sendSignal st p).1.queue = st.queue := by
    intro st p
    unfold finishRead
    dsimp only
    split
    · rfl
    · split
      · rfl
      · split <;> rfl
  constructor
  · unfold dspqueueReadNoblock FastRpc.dspqueueReadNoblock takePacket
    cases readStart st.queue args with
    | error e => rfl
    | ok r =>
        obtain ⟨q, p | waittime⟩ := r
        · exact hfinish _ _
        · rfl
  · unfold dspqueueReadNoblock FastRpc.dspqueueReadPoll takePacket readPoll
    cases getQueueStateRead st.queue with
    | error e => rfl
    | ok r =>
        obtain ⟨qleft, r⟩ := r
        simp only [ok_bind]
        split_ifs
        · rfl
        · cases peekLocked st.queue.bytes r with
          | error e => rfl
          | ok h =>
              simp only [ok_bind]
              cases readPacket st.queue args qleft r h with
              | error e => rfl
              | ok out => exact hfinish _ _

/-! ### What a failed read should leave -/

/-- The call returns an error code. -/
def Reported (result : Except Fault (Option Stored)) : Prop := ∃ code, result = .error (.error code)

/-- The reference count of every buffer is as before. -/
def Restored (s s' : StaticMap.Store) : Prop :=
  ∀ d fd, (s'.table d).entry (.fd fd) = (s.table d).entry (.fd fd)

/-- The packet is still in front of the reader. -/
def Kept (q q' : Queue) : Prop :=
  q'.readState = q.readState ∧ q'.readPacketCount = q.readPacketCount

/-- Whether the loop at `bail` makes a call for the buffer. -/
def Flagged (b : Buffer) : Prop := b.isRef = true ∨ b.isDeref = true

instance (b : Buffer) : Decidable (Flagged b) := inferInstanceAs (Decidable (_ ∨ _))

/-! ### The buffer loop -/

section Buffers

variable {s : StaticMap.Store} {d : Domain} {b : Buffer} {bs : List Buffer} {x : Change}

theorem attached_isSome (b : Buffer) (va size : ℕ) : (attached b va size).isSome = inBounds b size := by
  unfold attached inBounds
  split_ifs <;> simp_all

/-- It makes the changes of the buffer loop of a write, and stops where that one does. -/
theorem readLoop_refLoop (s : StaticMap.Store) (d : Domain) (bs : List Buffer) :
    (readLoop d s bs).maps = (refLoop d s bs).1 ∧ (readLoop d s bs).bufRefs = (refLoop d s bs).2.1 ∧
      ((readLoop d s bs).nErr = none ↔ (refLoop d s bs).2.2 = none) := by
  induction bs generalizing s with
  | nil => exact ⟨rfl, rfl, Iff.rfl⟩
  | cons b bs ih =>
      unfold readLoop refLoop
      cases change b with
      | none => exact ⟨rfl, rfl, by simp⟩
      | some x =>
          dsimp only
          cases (fastrpcBufferRef s d (intFd b) x.delta).2.nErr with
          | some nErr => exact ⟨rfl, rfl, by simp⟩
          | none =>
              dsimp only
              have hbounds := attached_isSome b ((fastrpcBufferRef s d (intFd b) x.delta).2.va.getD 0)
                ((fastrpcBufferRef s d (intFd b) x.delta).2.size.getD 0)
              cases hattached : attached b ((fastrpcBufferRef s d (intFd b) x.delta).2.va.getD 0)
                ((fastrpcBufferRef s d (intFd b) x.delta).2.size.getD 0) with
              | none =>
                  rw [hattached] at hbounds
                  rw [← hbounds]
                  exact ⟨rfl, rfl, by simp⟩
              | some b' =>
                  rw [hattached] at hbounds
                  rw [← hbounds]
                  obtain ⟨hmaps, hrefs, hnErr⟩ := ih (fastrpcBufferRef s d (intFd b) x.delta).1
                  exact ⟨hmaps, congrArg (b :: ·) hrefs, hnErr⟩

theorem bailLoop_cons (r : StaticMap.Store × Option AEEResult) (hx : change b = some x) :
    bailLoop d r (b :: bs) = bailLoop d
      (if x = .keep then r
      else ((fastrpcBufferRef r.1 d (intFd b) x.inverse.delta).1,
        (fastrpcBufferRef r.1 d (intFd b) x.inverse.delta).2.nErr)) bs := by
  unfold bailLoop
  rw [List.foldl_cons]
  congr 1
  unfold change at hx
  split_ifs at hx ⊢ <;> cases hx <;> first | rfl | contradiction

/-- The mappings are those of the loop at `bail` of a write. -/
theorem bailLoop_undoLoop (r : StaticMap.Store × Option AEEResult) (bs : List Buffer) :
    (bailLoop d r bs).1 = undoLoop d r.1 bs := by
  unfold bailLoop undoLoop
  induction bs generalizing r with
  | nil => rfl
  | cons b bs ih =>
      rw [List.foldl_cons, List.foldl_cons, ih]
      split_ifs <;> rfl

/-- Without a call the code stays. -/
theorem bailLoop_keep (r : StaticMap.Store × Option AEEResult)
    (hkeep : ∀ b ∈ bs, change b = some .keep) : bailLoop d r bs = r := by
  induction bs generalizing r with
  | nil => rfl
  | cons b bs ih =>
      obtain ⟨hb, hbs⟩ := List.forall_mem_cons.mp hkeep
      rw [bailLoop_cons r hb, if_pos rfl, ih r hbs]

/-- The code is that of the last call. -/
theorem bailLoop_last (r : StaticMap.Store × Option AEEResult) (ys : List Buffer) {zs : List Buffer}
    (hx : change b = some x) (hne : x ≠ .keep) (hkeep : ∀ b ∈ zs, change b = some .keep) :
    (bailLoop d r (ys ++ b :: zs)).2 =
      (fastrpcBufferRef (undoLoop d r.1 ys) d (intFd b) x.inverse.delta).2.nErr := by
  have happend : bailLoop d r (ys ++ b :: zs) = bailLoop d (bailLoop d r ys) (b :: zs) :=
    List.foldl_append
  rw [happend, bailLoop_cons _ hx, if_neg hne, bailLoop_keep _ hkeep, bailLoop_undoLoop]

/-- The last buffer of a list that is not kept as it is. -/
theorem exists_last_change (hasks : ∀ b ∈ bs, (change b).isSome = true)
    (h : ¬ ∀ b ∈ bs, change b = some .keep) : ∃ ys b zs x, bs = ys ++ b :: zs ∧ change b = some x ∧
      x ≠ .keep ∧ ∀ b ∈ zs, change b = some .keep := by
  induction bs with
  | nil => simp at h
  | cons b bs ih =>
      obtain ⟨hb, hbs⟩ := List.forall_mem_cons.mp hasks
      by_cases hrest : ∀ b ∈ bs, change b = some .keep
      · obtain ⟨x, hx⟩ := Option.isSome_iff_exists.mp hb
        refine ⟨[], b, bs, x, rfl, hx, ?_, hrest⟩
        rintro rfl
        exact h (List.forall_mem_cons.mpr ⟨hx, hrest⟩)
      · obtain ⟨ys, b', zs, x, rfl, hx, hne, hkeep⟩ := ih hbs hrest
        exact ⟨b :: ys, b', zs, x, rfl, hx, hne, hkeep⟩

theorem changesOf_append (fd : ℤ) (xs ys : List Buffer) :
    changesOf fd (xs ++ ys) = changesOf fd xs ++ changesOf fd ys := by
  simp [changesOf]

theorem changesOf_keep (fd : ℤ) (hkeep : ∀ b ∈ bs, change b = some .keep) :
    ∀ x ∈ changesOf fd bs, x = .keep := by
  intro x hx
  obtain ⟨b, hb, hbx⟩ := List.mem_filterMap.mp hx
  rw [hkeep b (List.mem_of_mem_filter hb)] at hbx
  exact (Option.some.inj hbx).symm

/-- Where the way back fits, the last change is taken back. -/
theorem last_taken_back {T T' : Table} {ys zs : List Buffer} (h : Follows T (ys ++ b :: zs) T')
    (hx : change b = some x) (hkeep : ∀ b ∈ zs, change b = some .keep)
    (hint : ∀ node, T.entry (.fd (intFd b)) = some node → node.refs ≤ intMax)
    (hfits : ∀ node, T.entry (.fd (intFd b)) = some node →
      Fits node.refs (changesOf (intFd b) (ys ++ b :: zs))) :
    ((tableUndo T' ys).bufferRef (intFd b) x.inverse.delta).2.nErr = none := by
  have hchanges : changesOf (intFd b) (ys ++ b :: zs) =
      changesOf (intFd b) ys ++ x :: changesOf (intFd b) zs := by
    rw [changesOf_append, changesOf_cons_self hx rfl]
  cases hentry : T.entry (.fd (intFd b)) with
  | none =>
      have hnil := (h.missing (intFd b) hentry).2
      rw [hchanges] at hnil
      simp at hnil
  | some node =>
      obtain ⟨refs, hall, hentry'⟩ := h.counts (intFd b) node hentry
      have hfit := hfits node hentry
      have hrefs : refs = node.refs + net (changesOf (intFd b) (ys ++ b :: zs)) := by
        obtain ⟨hadds, _⟩ | ⟨_, hover⟩ := doAll_eq_some hall (hint node hentry)
        · exact hadds
        · have hle := (hfit _ List.suffix_rfl).2
          omega
      have hnet : net (x :: changesOf (intFd b) zs) = x.delta := by
        rw [RefCount.net_cons, net_keep (changesOf_keep _ hkeep), add_zero]
      rw [hchanges] at hrefs hfit
      have hundone : undoAll refs (changesOf (intFd b) ys) = node.refs + x.delta := by
        rw [hrefs, undoAll_append_of_fits hfit, hnet]
      have hback : x.inverse.apply (node.refs + x.delta) = some node.refs := by
        have hstart := hfit [] List.nil_suffix
        have hlast := hfit _ (List.suffix_append (changesOf (intFd b) ys) _)
        rw [hnet] at hlast
        rw [net_nil, add_zero] at hstart
        exact apply_inverse hstart.1 hstart.2 hlast.1
      have hbefore : (tableUndo T' ys).entry (.fd (intFd b)) =
          some { node with refs := node.refs + x.delta } := by
        have hasks : ∀ b ∈ ys, (change b).isSome = true :=
          fun b hb => h.asks b (List.mem_append_left _ hb)
        rw [tableUndo_entry T' (intFd b) hasks, hentry', Option.map_some, hundone]
      obtain ⟨_, _, hnone⟩ | ⟨hnErr, _⟩ := bufferRef_change (tableUndo T' ys) (intFd b) x.inverse
      · have hrefused := hnone _ hbefore
        rw [hback] at hrefused
        cases hrefused
      · exact hnErr

end Buffers

/-! ### The read -/

section Read

variable {look : Look} {d : Domain} {sendSignal : Except AEEResult Unit} {st : ReadState} {args : ReadArgs}
  {q q' : Queue} {p : Delivered} {bs : List Buffer}

/-- What the loop at `bail` leaves of the counts. -/
theorem bail_restored_iff (hs : st.maps.Ok) (hint : ∀ node ∈ st.maps.table d, node.refs ≤ intMax)
    (bs : List Buffer) (nErr : Option AEEResult) :
    Restored st.maps
        (bailLoop d ((readLoop d st.maps bs).maps, nErr) (readLoop d st.maps bs).bufRefs).1 ↔
      ∀ fd node, (st.maps.table d).entry (.fd fd) = some node →
        changesOf fd (changed (st.maps.table d) bs) ≠ [] →
        Fits node.refs (changesOf fd (changed (st.maps.table d) bs)) := by
  obtain ⟨hmaps, hrefs, _⟩ := readLoop_refLoop st.maps d bs
  rw [bailLoop_undoLoop, hmaps, hrefs]
  have huntouched : Untouched ⟨st.queue, st.maps⟩
      ⟨st.queue, undoLoop d (refLoop d st.maps bs).1 (refLoop d st.maps bs).2.1⟩ ↔ _ :=
    refused_untouched_iff hs hint
  rw [← huntouched]
  exact ⟨fun h => ⟨rfl, rfl, rfl, rfl, fun _ => rfl, h⟩, fun h => h.refs⟩

/-- The code at the end of the loop at `bail`, where the way back fits. -/
theorem bail_code_iff (hs : st.maps.Ok) (hint : ∀ node ∈ st.maps.table d, node.refs ≤ intMax)
    (hfits : ∀ fd node, (st.maps.table d).entry (.fd fd) = some node →
      changesOf fd (changed (st.maps.table d) bs) ≠ [] →
      Fits node.refs (changesOf fd (changed (st.maps.table d) bs))) (nErr : AEEResult) :
    (bailLoop d ((readLoop d st.maps bs).maps, some nErr) (readLoop d st.maps bs).bufRefs).2 ≠ none ↔
      ∀ b ∈ changed (st.maps.table d) bs, change b = some .keep := by
  obtain ⟨hmaps, hrefs, _⟩ := readLoop_refLoop st.maps d bs
  obtain ⟨hleaves, hloop⟩ := refLoop_table (d := d) hs bs
  have hfollows := tableLoop_follows (st.maps.table d) bs
  have hchanged : (refLoop d st.maps bs).2.1 = changed (st.maps.table d) bs := by
    rw [hloop]
    rfl
  rw [hmaps, hrefs, hchanged]
  by_cases hkeep : ∀ b ∈ changed (st.maps.table d) bs, change b = some .keep
  · rw [bailLoop_keep _ hkeep]
    exact iff_of_true (Option.some_ne_none nErr) hkeep
  · refine iff_of_false (not_not.mpr ?_) hkeep
    obtain ⟨ys, b, zs, x, hsplit, hx, hne, hzs⟩ := exists_last_change hfollows.asks hkeep
    have hundo := undoLoop_table (d := d) hleaves.ok ys
    rw [hleaves.table_self] at hundo
    rw [hsplit] at hfollows hfits
    have hself : changesOf (intFd b) (ys ++ b :: zs) ≠ [] := by
      simp [changesOf_append, changesOf_cons_self hx rfl]
    have hlast := last_taken_back hfollows hx hzs (fun node hnode => hint node (Table.entry_mem hnode))
      (fun node hnode => hfits _ node hnode hself)
    rw [hsplit, bailLoop_last _ ys hx hne hzs, (bufferRef_leaves hundo.ok _ _).1, hundo.table_self]
    exact hlast

theorem takePacket_consumes (h : takePacket q args look = .ok (q', some p)) : ∃ r', q' = consume q r' := by
  cases look with
  | start =>
      unfold takePacket at h
      cases hread : readStart q args with
      | error e =>
          rw [hread] at h
          cases h
      | ok r =>
          rw [hread] at h
          obtain rfl := congrArg Prod.fst (Except.ok.inj h)
          exact readStart_consumes hread
  | poll =>
      unfold takePacket at h
      cases hread : readPoll q args with
      | error e =>
          rw [hread] at h
          cases h
      | ok r =>
          rw [hread] at h
          cases r with
          | none => cases h
          | some r =>
              obtain rfl := congrArg Prod.fst (Except.ok.inj h)
              exact readPoll_consumes hread

/-- A read whose buffers are refused ends at `bail`. -/
theorem refused_read (hs : st.maps.Ok) (hpacket : takePacket st.queue args look = .ok (q, some p))
    (hsignal : signalsSpace q = true → sendSignal = .ok ()) (hbuffers : p.buffers = some bs)
    (hrefused : ¬ Accepted (st.maps.table d) bs) : ∃ nErr,
      (dspqueueReadNoblock look d sendSignal st args).1 =
        ⟨q, (bailLoop d ((readLoop d st.maps bs).maps, some nErr) (readLoop d st.maps bs).bufRefs).1⟩ ∧
      (Reported (dspqueueReadNoblock look d sendSignal st args).2 ↔
        (bailLoop d ((readLoop d st.maps bs).maps, some nErr) (readLoop d st.maps bs).bufRefs).2 ≠ none) := by
  have hsent : (Env.mk (fun _ _ => .error .ENOSUCHMAP) sendSignal).signal (signalsSpace q) = .ok () :=
    Env.Signals.signal hsignal
  have hfails : (readLoop d st.maps bs).nErr ≠ none := by
    rw [Ne, (readLoop_refLoop st.maps d bs).2.2, (refLoop_table (d := d) hs bs).2]
    exact hrefused
  obtain ⟨nErr, hnErr⟩ := Option.ne_none_iff_exists'.mp hfails
  refine ⟨nErr, ?_⟩
  unfold dspqueueReadNoblock
  rw [hpacket]
  dsimp only
  unfold finishRead
  dsimp only
  rw [hsent, hbuffers]
  dsimp only
  rw [hnErr]
  refine ⟨rfl, ?_⟩
  dsimp only
  cases (bailLoop d ((readLoop d st.maps bs).maps, some nErr) (readLoop d st.maps bs).bufRefs).2 with
  | none => simp [Reported, Except.map]
  | some nErr => simp [Reported, Except.map]

theorem not_flagged_iff (b : Buffer) : ¬ Flagged b ↔ change b = some .keep := by
  unfold Flagged change
  cases b.isRef <;> cases b.isDeref <;> simp

/-- **A read whose buffers are refused never keeps the packet**; it reports the failure and restores the
counts exactly when no buffer in front of the failure asks for a change. -/
theorem failed_read (look : Look) (d : Domain) (sendSignal : Except AEEResult Unit) (st : ReadState)
    (hs : st.maps.Ok) (hint : ∀ node ∈ st.maps.table d, node.refs ≤ intMax) (args : ReadArgs)
    (hpacket : takePacket st.queue args look = .ok (q, some p))
    (hsignal : signalsSpace q = true → sendSignal = .ok ()) (hbuffers : p.buffers = some bs) :
    ((¬ Accepted (st.maps.table d) bs →
        Reported (dspqueueReadNoblock look d sendSignal st args).2 ∧
        Restored st.maps (dspqueueReadNoblock look d sendSignal st args).1.maps ∧
        Kept st.queue (dspqueueReadNoblock look d sendSignal st args).1.queue) ↔
      Accepted (st.maps.table d) bs) ∧
    (¬ Accepted (st.maps.table d) bs →
      (Reported (dspqueueReadNoblock look d sendSignal st args).2 ∧
          Restored st.maps (dspqueueReadNoblock look d sendSignal st args).1.maps ↔
        ∀ b ∈ changed (st.maps.table d) bs, ¬ Flagged b)) := by
  have hconsumed : ∀ maps, ¬ Kept st.queue (ReadState.mk q maps).queue := by
    obtain ⟨r', rfl⟩ := takePacket_consumes hpacket
    exact fun _ hkept => addU32_one_ne_self _ hkept.2
  constructor
  · refine ⟨fun h => ?_, fun h hrefused => absurd h hrefused⟩
    by_contra hrefused
    obtain ⟨nErr, hstate, _⟩ := refused_read hs hpacket hsignal hbuffers hrefused
    have hkept := (h hrefused).2.2
    rw [hstate] at hkept
    exact hconsumed _ hkept
  · intro hrefused
    obtain ⟨nErr, hstate, hreported⟩ := refused_read hs hpacket hsignal hbuffers hrefused
    have hrestored := bail_restored_iff hs hint bs (some nErr)
    rw [hstate, hreported]
    dsimp only
    simp only [not_flagged_iff]
    constructor
    · rintro ⟨hcode, hrefs⟩
      exact (bail_code_iff hs hint (hrestored.mp hrefs) nErr).mp hcode
    · intro hkeep
      have hfits : ∀ fd node, (st.maps.table d).entry (.fd fd) = some node →
          changesOf fd (changed (st.maps.table d) bs) ≠ [] →
          Fits node.refs (changesOf fd (changed (st.maps.table d) bs)) := by
        intro fd node hnode hne
        obtain ⟨refs, hall, _⟩ := (tableLoop_follows (st.maps.table d) bs).counts fd node hnode
        have hle := hint node (Table.entry_mem hnode)
        obtain ⟨x, xs, hxs⟩ := List.exists_cons_of_ne_nil hne
        rw [hxs] at hall
        obtain ⟨c, happly, _⟩ := Option.bind_eq_some_iff.mp hall
        exact fits_keep (apply_eq_some happly hle).1 hle (changesOf_keep fd hkeep)
      exact ⟨(bail_code_iff hs hint hfits nErr).mpr hkeep, hrestored.mpr hfits⟩

/-- A ring of 256 bytes with one packet, in which the peer has named these buffers, and one mapping with the
count `1`. -/
def received (buffers : List Buffer) : ReadState :=
  ⟨(FastRpc.dspqueueWriteNoblock ⟨fun _ _ => .ok (0, 0x100), .ok ()⟩
    (.create 256 (fun _ => 0) 0 false) 0 buffers [1]).1, oneMapping⟩

/-- Room for four buffers and a message of 64 bytes. -/
def areas : ReadArgs := ⟨some 4, some 64⟩

/-- The only buffer is not mapped. -/
theorem failed_read_unmapped :
    let r := dspqueueReadNoblock .start 3 (.ok ()) (received [bufferOf 9 0]) areas
    Reported r.2 ∧ Restored oneMapping r.1.maps := by
  have hint : ∀ node ∈ (received [bufferOf 9 0]).maps.table 3, node.refs ≤ intMax := by decide
  have hpacket : takePacket (received [bufferOf 9 0]).queue areas .start =
      .ok (consume (received [bufferOf 9 0]).queue 40, some ⟨19, 1, 1, some [bufferOf 9 0], some [1]⟩) := rfl
  have hchanged : changed ((received [bufferOf 9 0]).maps.table 3) [bufferOf 9 0] = [] := by
    decide +kernel
  have hread := failed_read .start 3 (.ok ()) (received [bufferOf 9 0])
    (callStatic_table Store.Ok.init _ _ _).1 hint areas hpacket (fun _ => rfl) rfl
  refine (hread.2 (by decide +kernel)).mpr ?_
  rw [hchanged]
  simp

/-- A reference is taken, and the next buffer is not mapped: the reference is given back, the call returns
`AEE_SUCCESS` without a number of buffers, and the packet is gone.  If the reference is given back in the
packet itself, one is left over. -/
theorem failed_read_unreported :
    let r := dspqueueReadNoblock .start 3 (.ok ()) (received [bufferOf 5 4, bufferOf 9 0]) areas
    let r' := dspqueueReadNoblock .start 3 (.ok ())
      (received [bufferOf 5 4, bufferOf 5 8, bufferOf 9 0]) areas
    (¬ Accepted (oneMapping.table 3) [bufferOf 5 4, bufferOf 9 0] ∧ ¬ Reported r.2 ∧
      ¬ Kept (received [bufferOf 5 4, bufferOf 9 0]).queue r.1.queue) ∧
    (¬ Accepted (oneMapping.table 3) [bufferOf 5 4, bufferOf 5 8, bufferOf 9 0] ∧
      (r'.1.maps.table 3).map Node.refs = [2] ∧ ¬ Restored oneMapping r'.1.maps) := by
  intro r r'
  have hcode : r.2.isOk = true := by decide +kernel
  have hcount : r.1.queue.readPacketCount = 1 := by decide +kernel
  refine ⟨⟨by decide +kernel, ?_, fun hkept => ?_⟩, by decide +kernel, by decide +kernel, fun h => ?_⟩
  · rintro ⟨code, herror⟩
    rw [herror] at hcode
    cases hcode
  · rw [hkept.2] at hcount
    revert hcount
    decide +kernel
  · have hrefs := congrArg (Option.map Node.refs) (h 3 5)
    revert hrefs
    decide +kernel

end Read

end FastRpc.ReadUndo
