import FastRpc.QueueLayout
import FastRpc.RingFifo
import FastRpc.RingInvariant
import FastRpc.RingTolerance

/-! # The sizes of a ring

`dspqueue_create` bounds the sizes of the two rings from above only.  The write path subtracts `8` from
the size, and asserts that the free space is a multiple of `8`.  So a ring of less than `8` bytes makes
the subtraction underflow, and one of `16` bytes or more whose size is no multiple of `8` fails the
assertion in its first write.  A ring of `8` to `15` bytes takes no packet at all, and its writes end
before the assertion.  With every other size the ring code keeps to the ring in every run
(`queue_bounds`). -/

namespace FastRpc.RingTrace

open ByteStore FramedRing QueueLayout Traced Transition

/-- Every access of the ring code lies inside the ring, every subtraction is exact, and no assertion
fails. -/
abbrev InBounds (Q : ℕ) {α : Type} (m : Ring α) : Prop :=
  Ensures (fun e => e.Inside Q ∧ e.Exact) (fun x => x ≠ .assertion) m

/-- The ring code of a call keeps to the ring. -/
def CallInBounds (q : Queue) : Op → Prop
  | .write env flags buffers message =>
      InBounds q.queueLength (writeRing env.bufferRef q flags buffers message)
  | .read env args => ∀ later, InBounds q.queueLength (readNoblock env q args later)
  | _ => True

/-- A queue as `dspqueue_create` leaves it, with a ring of `Q` bytes. -/
structure Fresh (Q : ℕ) (q : Queue) : Prop where
  length : q.queueLength = Q
  same_count : q.headerQueueCount = q.queueCount
  read_position : q.readState.position = 0
  write_position : q.writeState.position = 0

/-- Every call of every run without early wakeup packets keeps to the ring. -/
def BoundsHold (q : Queue) : Prop :=
  ∀ ops, (∀ op ∈ ops, op.NoWakeup) →
    Guarded Sys.step (fun s op => CallInBounds s.queue op) (Sys.init q) ops

/-- The ring takes no packet, or its size is a multiple of `8`. -/
def SizeOk (Q : ℕ) : Prop := 8 ≤ Q ∧ (Q < 16 ∨ Q % 8 = 0)

section Reading

variable {q : Queue} {args : ReadArgs} {m : Store} {Q r n room skip : ℕ} {h : Header}
  {xs : List (Packet × ℕ)}

/-! ### Reads subtract nothing -/

/-- The code makes no subtraction of the free space. -/
abbrev NoSub {α : Type} (m : Ring α) : Prop := Ensures Touch.Exact (fun _ => True) m

theorem noSub_lift {α : Type} (x : Except Fault α) : NoSub (lift x) :=
  ensures_lift.mpr fun _ _ => trivial

theorem noSub_lift_bind {α β : Type} {x : Except Fault α} {f : α → Ring β} (hf : ∀ a, NoSub (f a)) :
    NoSub (lift x >>= f) :=
  ensures_bind.mpr ⟨noSub_lift x, fun a _ => hf a⟩

theorem noSub_bind {α β : Type} {m : Ring α} {f : α → Ring β} (hm : NoSub m) (hf : ∀ a, NoSub (f a)) :
    NoSub (m >>= f) :=
  ensures_bind.mpr ⟨hm, fun a _ => hf a⟩

theorem noSub_readData : NoSub (readData m r Q n room) := by
  unfold readData
  refine noSub_lift_bind fun _ => noSub_lift_bind fun _ => noSub_lift_bind fun _ => ?_
  refine noSub_bind (ensures_emit.mpr trivial) fun _ => ?_
  exact noSub_lift_bind fun _ => ensures_pure _

theorem noSub_readArea {α : Type} {area : Option ℕ} {size : ℕ} {decode : List UInt8 → α} :
    NoSub (readArea area size m r Q n skip decode) := by
  unfold readArea
  split_ifs
  · cases area with
    | none => exact ensures_pure _
    | some max => exact noSub_bind noSub_readData fun _ => ensures_pure _
  · exact ensures_pure _

theorem noSub_readPacket {qleft : ℕ} : NoSub (readPacket q args qleft r h) := by
  unfold readPacket
  refine noSub_lift_bind fun _ => noSub_lift_bind fun _ => noSub_lift_bind fun _ => ?_
  refine noSub_lift_bind fun _ => noSub_lift_bind fun _ => ?_
  unfold readBody
  refine noSub_bind noSub_readArea fun _ => noSub_bind noSub_readArea fun _ => ?_
  exact noSub_lift_bind fun _ => noSub_bind (ensures_emit.mpr trivial) fun _ => ensures_pure _

theorem noSub_readWakeup {qleft : ℕ} : NoSub (readWakeup q qleft r h) := by
  unfold readWakeup
  refine noSub_lift_bind fun _ => noSub_lift_bind fun _ => ?_
  split_ifs
  · refine noSub_lift_bind fun _ => noSub_bind noSub_readData fun _ => ?_
    exact noSub_bind (ensures_emit.mpr trivial) fun _ => ensures_pure _
  · exact noSub_bind (ensures_emit.mpr trivial) fun _ => ensures_pure _

theorem noSub_peekLocked : NoSub (peekLocked m r) :=
  noSub_bind (ensures_emit.mpr trivial) fun _ => noSub_lift _

theorem noSub_readStart : NoSub (readStart q args) := by
  unfold readStart
  refine noSub_lift_bind fun _ => noSub_lift_bind fun _ => noSub_lift_bind fun _ => ?_
  refine noSub_bind noSub_peekLocked fun _ => ?_
  split_ifs
  · exact noSub_bind noSub_readWakeup fun _ => ensures_pure _
  · exact noSub_bind noSub_readPacket fun _ => ensures_pure _

theorem noSub_readPoll : NoSub (readPoll q args) := by
  unfold readPoll
  refine noSub_lift_bind fun x => ?_
  obtain ⟨qleft, r⟩ := x
  dsimp only
  split_ifs
  · exact ensures_pure _
  · exact noSub_bind noSub_peekLocked fun _ => noSub_bind noSub_readPacket fun _ => ensures_pure _

theorem noSub_readPolls (later : List PeerView) : NoSub (readPolls q args later) := by
  induction later with
  | nil => exact ensures_pure _
  | cons v later ih =>
      refine noSub_bind noSub_readPoll fun result => ?_
      cases result with
      | none => exact ih
      | some result => exact ensures_pure _

theorem noSub_readNoblock (env : Env) (later : List PeerView) :
    NoSub (readNoblock env q args later) := by
  refine noSub_bind noSub_readStart fun x => ?_
  obtain ⟨q', outcome⟩ := x
  cases outcome with
  | packet d => exact ensures_pure _
  | polling t => exact noSub_lift_bind fun _ => noSub_readPolls later

/-! ### Reads of normal packets -/

/-- A read that meets no early wakeup packet returns a packet, or fails with a code. -/
theorem readStart_normal_cases (args : ReadArgs) (hsim : Simulates q xs)
    (hn : ∀ x ∈ xs.head?, x.1.isWakeup = false) :
    (∃ code, FastRpc.readStart q args = .error (.error code)) ∨
      ∃ q' d, FastRpc.readStart q args = .ok (q', .packet d) := by
  cases xs with
  | nil => exact .inl ⟨_, readStart_nil hsim⟩
  | cons x xs =>
      obtain ⟨p, seqNo⟩ := x
      have hw : p.isWakeup = false := hn _ rfl
      by_cases hfits : p.Fits args
      · obtain ⟨q', hread, _⟩ := readStart_normal hsim hw hfits
        exact .inr ⟨q', _, hread⟩
      · refine .inl ⟨.EBADPARM, ?_⟩
        rw [readStart_cons args hsim]
        simp only [hw, readPacket_short (hsim.bounded _ List.mem_cons_self) hfits]
        rfl

/-- The first packet lies inside the ring. -/
theorem not_startOverruns (hsim : Simulates q xs) : ¬ StartOverruns q args := by
  rintro ⟨_, ⟨x, hstate, hleft⟩, _, h, hpeek, _, hover⟩
  cases xs with
  | nil =>
      rw [getQueueStateRead_eq hsim.length_lt hsim.positions, hsim.dataLeft_eq_zero.mpr rfl] at hstate
      obtain rfl := Except.ok.inj hstate
      omega
  | cons y ys =>
      obtain ⟨start, _, _, hfit, _, hpeek', _⟩ := hsim.first
      rw [hpeek'] at hpeek
      obtain rfl := Except.ok.inj hpeek
      have hend : q.queueLength < 8 + y.1.header.numBuffers * 24 := hover.2.2.2.2.2.1
      have hle := le_alignUp_eight y.1.len
      simp only [Packet.header] at hend
      simp only [Packet.len, packetLength] at hfit hle
      omega

theorem ownSide_of_simulates (hsim : Simulates q xs) :
    OwnSide q.queueLength q.readState.position q.writeState.position := by
  have hpos := hsim.positions
  have hlt := hsim.length_lt
  exact ⟨hsim.sixteen_le, hlt, hpos.ring_mod, hpos.read_mod, hpos.read_lt, hpos.write_lt.trans hlt⟩

/-- **Reads** of a ring without early wakeup packets keep to the ring. -/
theorem readNoblock_inBounds (env : Env) (later : List PeerView) (hsim : Simulates q xs)
    (hn : ∀ x ∈ xs.head?, x.1.isWakeup = false) :
    InBounds q.queueLength (readNoblock env q args later) := by
  have hcases := readStart_normal_cases args hsim hn
  have hsafe : ReadSafe q.queueLength (readNoblock env q args later) := by
    refine (readSafe_readNoblock env later (ownSide_of_simulates hsim)).mpr ?_
    rintro (hover | ⟨q', t, hpolling, _⟩)
    · exact not_startOverruns hsim hover
    · rcases hcases with ⟨code, herr⟩ | ⟨q'', d, hok⟩
      · cases herr.symm.trans hpolling
      · cases hok.symm.trans hpolling
  have hexact : NoSub (readNoblock env q args later) := noSub_readNoblock env later
  refine ⟨fun e he => ⟨(hsafe.events e he).inside, hexact.events e he⟩, fun x hx => ?_⟩
  have hstart := readStart_result q args
  rcases hcases with ⟨code, herr⟩ | ⟨q', d, hok⟩
  · rw [herr] at hstart
    have hresult : (readNoblock env q args later).result = .error (.error code) := by
      unfold readNoblock
      rw [result_bind, hstart]
      rfl
    cases hresult.symm.trans hx
    exact nofun
  · rw [hok] at hstart
    cases ((result_bind_ok hstart).symm.trans hx : (pure _ : Except Fault _) = _)

end Reading

/-! ### Writes -/

section Writing

variable {q : Queue} {xs : List (Packet × ℕ)}

/-- **Writes** to a ring whose size is a multiple of `8` keep to the ring. -/
theorem writeRing_inBounds (hsim : Simulates q xs) (bufferRef : BufferRef) (flags : ℕ)
    (buffers : List Buffer) (message : List UInt8) :
    InBounds q.queueLength (writeRing bufferRef q flags buffers message) := by
  have hpos := hsim.positions
  have hlt := hsim.length_lt
  have hown : OwnSide q.queueLength q.writeState.position q.readState.position :=
    ⟨hsim.sixteen_le, hlt, hpos.ring_mod, hpos.write_mod, hpos.write_lt, hpos.read_lt.trans hlt⟩
  exact (writeSafe_writeRing hown bufferRef flags buffers message).mono
    (fun e he => ⟨he.1.inside, he.2⟩) (fun x hx hassert => hx hassert hpos.read_mod)

theorem packetLength_bounds {n len : ℕ} (hn : n ≤ maxBuffers) (hlen : len ≤ maxMessageSize) :
    8 ≤ packetLength n len ∧ packetLength n len + 7 < 2 ^ 32 := by
  simp only [maxBuffers, maxMessageSize] at hn hlen
  simp only [packetLength]
  omega

/-- A ring of `8` to `15` bytes takes no packet. -/
theorem reserve_small (h8 : 8 ≤ q.queueLength) (h16 : q.queueLength < 16) {len : ℕ} (hlen : 8 ≤ len)
    (hlt : len + 7 < 2 ^ 32) : FastRpc.reserve q len = .error (.error .EBADPARM) := by
  have hle := le_alignUp_eight len
  rw [FastRpc.reserve, align8_of_lt hlt, subU32_of_le h8 (by omega)]
  rw [verifyC_neg (by omega)]
  rfl

theorem writeRing_small (h8 : 8 ≤ q.queueLength) (h16 : q.queueLength < 16) (bufferRef : BufferRef)
    (flags : ℕ) (buffers : List Buffer) (message : List UInt8) :
    FastRpc.writeRing bufferRef q flags buffers message = .error (.error .EBADPARM) := by
  unfold FastRpc.writeRing
  by_cases hb : buffers.length ≤ maxBuffers
  · rw [verifyC_pos hb, ok_bind]
    by_cases hm : message.length ≤ maxMessageSize
    · rw [verifyC_pos hm, ok_bind]
      have hlen := packetLength_bounds hb hm
      dsimp only
      rw [reserve_small h8 h16 hlen.1 hlen.2]
      rfl
    · rw [verifyC_neg hm]
      rfl
  · rw [verifyC_neg hb]
    rfl

theorem inBounds_verifyC {Q : ℕ} (c : Bool) (code : AEEResult) :
    InBounds Q (lift (verifyC c code)) := by
  refine ensures_lift.mpr fun e he => ?_
  cases c with
  | true => cases he
  | false => cases he; exact nofun

theorem inBounds_freeSub {Q a b : ℕ} (h : b ≤ a) : InBounds Q (freeSub a b) :=
  ensures_bind.mpr ⟨ensures_emit.mpr ⟨trivial, h⟩, fun _ _ => ensures_pure _⟩

theorem reserve_inBounds_small (h8 : 8 ≤ q.queueLength) (h16 : q.queueLength < 16) {len : ℕ}
    (hlen : 8 ≤ len) (hlt : len + 7 < 2 ^ 32) : InBounds q.queueLength (reserve q len) := by
  have hle := le_alignUp_eight len
  unfold reserve
  refine ensures_bind.mpr ⟨inBounds_freeSub h8, fun most hmost => ?_⟩
  refine ensures_bind.mpr ⟨inBounds_verifyC _ _, fun _ hfit => ?_⟩
  obtain rfl := Except.ok.inj ((freeSub_result _ _).symm.trans hmost)
  rw [result_lift, verifyC_eq_ok, decide_eq_true_eq, align8_of_lt hlt,
    subU32_of_le h8 (by omega)] at hfit
  omega

/-- The only subtraction of a write to such a ring is exact. -/
theorem writeRing_inBounds_small (h8 : 8 ≤ q.queueLength) (h16 : q.queueLength < 16)
    (bufferRef : BufferRef) (flags : ℕ) (buffers : List Buffer) (message : List UInt8) :
    InBounds q.queueLength (writeRing bufferRef q flags buffers message) := by
  unfold writeRing
  refine ensures_bind.mpr ⟨inBounds_verifyC _ _, fun _ hb => ?_⟩
  refine ensures_bind.mpr ⟨inBounds_verifyC _ _, fun _ hm => ?_⟩
  rw [result_lift, verifyC_eq_ok, decide_eq_true_eq] at hb hm
  have hlen := packetLength_bounds hb hm
  refine ensures_bind.mpr ⟨reserve_inBounds_small h8 h16 hlen.1 hlen.2, fun x hx => ?_⟩
  rw [reserve_result, reserve_small h8 h16 hlen.1 hlen.2] at hx
  cases hx

/-- The free space of a fresh ring is a multiple of `8` only if the size is one. -/
theorem getQueueStateWrite_fresh {Q : ℕ} (hq : Fresh Q q) (hQ : Q < 2 ^ 32) (h8 : 8 ≤ Q)
    (hmod : Q % 8 ≠ 0) : FastRpc.getQueueStateWrite q = .error .assertion := by
  have hleft : ¬ subU32 Q 8 % 8 = 0 := by
    rw [subU32_of_le h8 hQ]
    omega
  unfold FastRpc.getQueueStateWrite
  simp only [hq.read_position, hq.write_position, hq.length, if_true]
  rw [cAssert_pos (And.intro trivial trivial), ok_bind, decide_eq_false hleft]
  rfl

/-- With another size the first write underflows or fails an assertion. -/
theorem not_writeRing_inBounds {Q : ℕ} (hq : Fresh Q q) (hQ : Q < 2 ^ 32) (hsize : ¬ SizeOk Q)
    (env : Env) : ¬ InBounds q.queueLength (writeRing env.bufferRef q 0 [] []) := by
  intro h
  unfold writeRing at h
  replace h := (ensures_bind.mp h).2 () (result_lift _)
  replace h := (ensures_bind.mp h).2 () (result_lift _)
  replace h := (ensures_bind.mp h).1
  unfold reserve at h
  obtain ⟨hsub, h⟩ := ensures_bind.mp h
  have hQ8 : 8 ≤ Q := by
    rw [← hq.length]
    exact (ensures_emit.mp (ensures_bind.mp hsub).1).2
  obtain ⟨h16, hmod⟩ : 16 ≤ Q ∧ Q % 8 ≠ 0 := by
    simp only [SizeOk, not_and_or, not_or] at hsize
    omega
  have hfit : align8 8 ≤ subU32 q.queueLength 8 := by
    rw [hq.length, subU32_of_le hQ8 hQ]
    exact (show align8 8 = 8 from rfl).trans_le (by omega)
  replace h := h _ (freeSub_result _ _)
  replace h := (ensures_bind.mp h).2 () ((result_lift _).trans (verifyC_pos hfit _))
  replace h := (ensures_bind.mp h).2 () ((result_lift _).trans (verifyC_pos hq.same_count _))
  refine (ensures_bind.mp h).1.fault .assertion ?_ rfl
  rw [getQueueStateWrite_result, getQueueStateWrite_fresh hq hQ hQ8 hmod]

end Writing

/-! ### Runs -/

/-- The state of a ring that carries normal packets only, whatever its users' buffers are. -/
structure Normal (s : Sys) : Prop where
  inv : s.Inv
  normal : ∀ p ∈ s.placed, p.isWakeup = false

section Runs

variable {s t : Sys} {q : Queue} {op : Op} {Q : ℕ}

theorem Normal.not_wakeupAtEnd (h : Normal s) : ¬ s.WakeupAtEnd := by
  rintro ⟨_, p, hp, hw, _⟩
  rw [h.normal p (List.mem_of_mem_drop (List.mem_of_mem_head? hp))] at hw
  cases hw

theorem Normal.step (h : Normal s) (hop : op.NoWakeup) (ht : s.step op = some t) : Normal t := by
  cases op with
  | write env flags buffers message =>
      have hwraps : s.ReadWraps (.write env flags buffers message) := trivial
      refine ⟨h.inv.step hwraps ht, ?_⟩
      obtain rfl := Option.some.inj ht
      intro p hp
      rcases (Sys.stepWrite_cases h.inv env ⟨flags, buffers, message⟩).2.2 with hsame | ⟨hplaced, _⟩
      · rw [hsame] at hp
        exact h.normal p hp
      · rw [hplaced] at hp
        rcases List.mem_append.mp hp with hp | hp
        · exact h.normal p hp
        · rw [List.mem_singleton.mp hp]
          exact hop
  | read env args =>
      have hwraps : s.ReadWraps (.read env args) := h.not_wakeupAtEnd
      refine ⟨h.inv.step hwraps ht, ?_⟩
      simp only [Sys.step] at ht
      split_ifs at ht
      obtain rfl := Option.some.inj ht
      exact h.normal
  | earlyWakeup env wakeupDelay packetFlags => exact absurd hop id
  | poll env => exact absurd hop id
  | timeout => exact absurd hop id

theorem Normal.inBounds (h : Normal s) (hop : op.NoWakeup) : CallInBounds s.queue op := by
  obtain ⟨slots, hslots, hsim⟩ := h.inv.simulates
  cases op with
  | write env flags buffers message =>
      exact writeRing_inBounds hsim env.bufferRef flags buffers message
  | read env args =>
      refine fun later => readNoblock_inBounds env later hsim fun x hx => ?_
      have hpending : x.1 ∈ s.pending := by
        rw [← hslots]
        exact List.mem_map_of_mem (List.mem_of_mem_head? hx)
      exact h.normal x.1 (List.mem_of_mem_drop hpending)
  | earlyWakeup env wakeupDelay packetFlags => exact absurd hop id
  | poll env => exact absurd hop id
  | timeout => exact absurd hop id

theorem Fresh.unused (h : Fresh Q q) (h16 : 16 ≤ Q) (hQ : Q < 2 ^ 32) (hmod : Q % 8 = 0) :
    q.Unused :=
  ⟨h.length.symm ▸ h16, h.length.symm ▸ hQ, h.length.symm ▸ hmod, h.same_count, h.read_position,
    h.write_position⟩

/-- A fresh ring is empty. -/
theorem Fresh.getQueueStateRead (h : Fresh Q q) : FastRpc.getQueueStateRead q = .ok (0, 0) := by
  unfold FastRpc.getQueueStateRead
  simp only [h.read_position, h.write_position]
  rfl

theorem Fresh.readStart (h : Fresh Q q) (args : ReadArgs) :
    FastRpc.readStart q args = .error (.error .EWOULDBLOCK) := by
  unfold FastRpc.readStart
  simp only [h.same_count, h.getQueueStateRead]
  rfl

/-- A ring that takes no packet stays fresh. -/
theorem Fresh.step (h : Fresh Q s.queue) (h8 : 8 ≤ Q) (h16 : Q < 16) (hop : op.NoWakeup)
    (ht : s.step op = some t) : Fresh Q t.queue := by
  rw [← h.length] at h8 h16
  cases op with
  | write env flags buffers message =>
      obtain rfl := Option.some.inj ht
      have hw := writeRing_small h8 h16 env.bufferRef flags buffers message
      have hsame : (s.stepWrite env ⟨flags, buffers, message⟩).queue = s.queue := by
        simp [Sys.stepWrite, dspqueueWriteNoblock, hw]
      rwa [hsame]
  | read env args =>
      simp only [Sys.step] at ht
      split_ifs at ht
      obtain rfl := Option.some.inj ht
      have hsame : (s.stepRead env args).queue = s.queue := by
        simp [Sys.stepRead, dspqueueReadNoblock, h.readStart args]
      rwa [hsame]
  | earlyWakeup env wakeupDelay packetFlags => exact absurd hop id
  | poll env => exact absurd hop id
  | timeout => exact absurd hop id

theorem Fresh.readNoblock_inBounds (h : Fresh Q q) (env : Env) (args : ReadArgs)
    (later : List PeerView) : InBounds q.queueLength (readNoblock env q args later) := by
  refine ensures_bind.mpr ⟨?_, fun x hx => ?_⟩
  · unfold RingTrace.readStart
    refine ensures_bind.mpr ⟨inBounds_verifyC _ _, fun _ _ => ?_⟩
    refine ensures_bind.mpr ⟨ensures_lift.mpr fun e he => ?_, fun x hx => ?_⟩
    · cases h.getQueueStateRead.symm.trans he
    · obtain rfl := Except.ok.inj (h.getQueueStateRead.symm.trans hx)
      exact ensures_bind.mpr ⟨inBounds_verifyC _ _, fun _ hleft => nomatch hleft⟩
  · rw [readStart_result, h.readStart args] at hx
    cases hx

theorem Fresh.inBounds (h : Fresh Q s.queue) (h8 : 8 ≤ Q) (h16 : Q < 16) (hop : op.NoWakeup) :
    CallInBounds s.queue op := by
  rw [← h.length] at h8 h16
  cases op with
  | write env flags buffers message =>
      exact writeRing_inBounds_small h8 h16 env.bufferRef flags buffers message
  | read env args => exact h.readNoblock_inBounds env args
  | earlyWakeup env wakeupDelay packetFlags => exact absurd hop id
  | poll env => exact absurd hop id
  | timeout => exact absurd hop id

/-- What every step keeps and gives holds of every run. -/
theorem boundsHold_of_invariant (Inv : Sys → Prop) (hinit : Inv (Sys.init q))
    (hstep : ∀ s op t, Inv s → op.NoWakeup → s.step op = some t → Inv t)
    (hbounds : ∀ s op, Inv s → op.NoWakeup → CallInBounds s.queue op) : BoundsHold q := by
  intro ops hops
  have hguard : Guarded Sys.step (fun _ op => op.NoWakeup ∧ True) (Sys.init q) ops :=
    (guarded_of_forall (fun _ _ => trivial) _ ops).and_forall hops
  exact (along_and_guarded (P := fun _ => True) (fun s op t hs hop => hstep s op t hs hop.1)
    (fun _ _ => trivial) (fun s op hs hop => hbounds s op hs hop.1) hinit hguard).2

/-- A ring keeps its bounds in every run exactly when its size is one that the write path expects. -/
theorem boundsHold_iff (hq : Fresh Q q) (hQ : Q < 2 ^ 32) : BoundsHold q ↔ SizeOk Q := by
  constructor
  · intro h
    by_contra hsize
    have hfirst := h [.write Env.idle 0 [] []] fun op hop => by
      rw [List.mem_singleton.mp hop]
      exact Nat.zero_testBit flagWakeup
    exact not_writeRing_inBounds hq hQ hsize Env.idle hfirst.1
  · rintro ⟨h8, hsize⟩
    rcases Nat.lt_or_ge Q 16 with h16 | h16
    · exact boundsHold_of_invariant (fun s => Fresh Q s.queue) hq
        (fun _ _ _ hs hop ht => hs.step h8 h16 hop ht) fun _ _ hs hop => hs.inBounds h8 h16 hop
    · have hunused := hq.unused h16 hQ (hsize.resolve_left (Nat.not_lt.mpr h16))
      exact boundsHold_of_invariant Normal
        ⟨Sys.inv_init hunused, fun _ hp => absurd hp List.not_mem_nil⟩
        (fun _ _ _ hs hop ht => hs.step hop ht) fun _ _ hs hop => hs.inBounds hop

end Runs

/-- **A queue keeps its bounds in every run exactly when both its sizes are ones that the write path
expects.** -/
theorem queue_bounds {req resp : ℕ} {l : Layout} {reqQueue respQueue : Queue}
    (hcreate : (dspqueueCreate req resp).result = .ok l)
    (hreq : Fresh l.reqQueue.queueLength reqQueue)
    (hresp : Fresh l.respQueue.queueLength respQueue) :
    (BoundsHold reqQueue ∧ BoundsHold respQueue) ↔
      (SizeOk (requestSize req) ∧ SizeOk (responseSize resp)) := by
  obtain ⟨hreqMax, hrespMax⟩ := dspqueueCreate_admits hcreate
  obtain ⟨l', hl', _, _, hreqSize, hrespSize, _⟩ := queue_layout hreqMax hrespMax
  obtain rfl := Except.ok.inj (hl'.symm.trans hcreate)
  rw [hreqSize] at hreq
  rw [hrespSize] at hresp
  have hmax : dspqueueMaxQueueSize < 2 ^ 32 := by decide
  exact and_congr (boundsHold_iff hreq ((requestSize_le hreqMax).trans_lt hmax))
    (boundsHold_iff hresp ((responseSize_le hrespMax).trans_lt hmax))

/-- The default sizes. -/
theorem queue_bounds_default :
    BoundsHold (Queue.create 65536 (fun _ => 0) 1 true) ∧
      BoundsHold (Queue.create 16384 (fun _ => 0) 1 true) := by
  obtain ⟨l, hl, _, _, hreq, hresp, _⟩ := queue_layout (Nat.zero_le _) (Nat.zero_le _)
  refine (queue_bounds hl ⟨hreq.symm, rfl, rfl, rfl⟩ ⟨hresp.symm, rfl, rfl, rfl⟩).mpr ⟨?_, ?_⟩
  · exact ⟨by decide, .inr (by decide)⟩
  · exact ⟨by decide, .inr (by decide)⟩

/-- A request ring of `20` bytes is admitted, and its first write fails an assertion. -/
theorem queue_bounds_twenty :
    (∃ l, (dspqueueCreate 20 0).result = .ok l ∧ l.reqQueue.queueLength = 20) ∧
      (writeRing Env.idle.bufferRef (Queue.create 20 (fun _ => 0) 1 true) 0 [] []).result =
        .error .assertion ∧
      ¬ BoundsHold (Queue.create 20 (fun _ => 0) 1 true) := by
  obtain ⟨l, hl, _, _, hreq, _⟩ := queue_layout (show 20 ≤ dspqueueMaxQueueSize by decide)
    (Nat.zero_le dspqueueMaxQueueSize)
  refine ⟨⟨l, hl, hreq⟩, rfl, fun h => ?_⟩
  have hfresh : Fresh 20 (Queue.create 20 (fun _ => 0) 1 true) := ⟨rfl, rfl, rfl, rfl⟩
  exact absurd ((boundsHold_iff hfresh (by norm_num)).mp h).2 (by decide)

end FastRpc.RingTrace
