import HyperIoVm.Data.Steps
import HyperIoVm.Mailbox

/-!
# No lost wake-up (`wait_status` of `modules/io-bridge/hyper_io_bridge.c`)

The caller reads the generation before it arms the source, so an interrupt that masks the new arm
changes the generation after it was read. At most six interrupts are counted between the read and
the test: the counter cannot come back to the value that was read.
-/

namespace HyperIoVm

open Data

/-! ## Interrupts to come -/

namespace Mailbox

/-- The interrupts that can be counted before the source is armed again. -/
def roundsLeft (irq : IrqPhase) (mask : UInt32) (pending : Bool) : Nat :=
  (if irq = .masked then 1 else 0) +
    if mask ≠ 0 then 2 else (if irq = .entered then 1 else 0) + pending.toNat

theorem roundsLeft_le (irq : IrqPhase) (mask : UInt32) (pending : Bool) :
    roundsLeft irq mask pending ≤ 3 := by
  have hpending := pending.toNat_le
  rw [roundsLeft]
  split <;> split
  · exact Nat.le_refl 3
  · split <;> omega
  · omega
  · split <;> omega

/-- Masking the source takes no more rounds. -/
theorem roundsLeft_masked (mask : UInt32) (pending : Bool) :
    roundsLeft .masked 0 pending ≤ roundsLeft .entered mask pending := by
  have hpending := pending.toNat_le
  simp only [roundsLeft, reduceCtorEq, if_true, if_false, ne_eq, not_true]
  split <;> omega

theorem roundsLeft_counted (mask : UInt32) (pending : Bool) :
    roundsLeft .masked mask pending = roundsLeft .counted mask pending + 1 := by
  simp only [roundsLeft, reduceCtorEq, if_true, if_false]
  omega

theorem roundsLeft_deliver (mask : UInt32) :
    roundsLeft .entered mask false ≤ roundsLeft .idle mask true := by
  simp only [roundsLeft, reduceCtorEq, if_true, if_false]
  exact Nat.le_refl _

/-- `n` interrupts have been counted since the caller has read the generation. -/
def Counted (s : Mailbox) (bound n : Nat) : Prop :=
  s.generation = s.armedGeneration + .ofNat n ∧ n + roundsLeft s.irq s.mask s.pending ≤ bound

/-- The source is armed, or the handler has masked it and has not counted. -/
def Holds (s : Mailbox) : Prop := s.mask = s.wanted ||| mailboxClosed ∨ s.irq = .masked

/-- The source is armed, or a handler is between its mask write and its wake, or the caller is
woken. -/
def Covered (s : Mailbox) : Prop :=
  s.mask = s.wanted ||| mailboxClosed ∨ (s.irq = .masked ∨ s.irq = .counted) ∨ s.woken = true

theorem Holds.covered {s : Mailbox} (h : s.Holds) : s.Covered := by
  obtain h | h := h
  · exact .inl h
  · exact .inr (.inl (.inl h))

end Mailbox

/-- The source is armed and has not been masked again by the caller. -/
def WaitPc.isArmed : WaitPc → Bool
  | .testDead _ | .test _ _ _ | .prepare | .sleep => true
  | _ => false

/-- The caller is on the wait queue, or was woken since. -/
def WaitPc.isQueued : WaitPc → Bool
  | .testDead .queued | .test .queued _ _ | .sleep => true
  | _ => false

/-- The caller has found the generation unchanged, and no signal, since it put itself on the
queue. -/
def WaitPc.isUnchanged (armed : UInt64) : WaitPc → Bool
  | .test .queued _ (some found) => found == armed
  | .sleep => true
  | _ => false

theorem WaitPc.isArmed_of_isQueued {pc : WaitPc} (h : pc.isQueued = true) :
    pc.isArmed = true := by
  cases pc with
  | testDead => rfl
  | test => rfl
  | sleep => rfl
  | _ => cases h

theorem WaitPc.isQueued_of_isUnchanged {pc : WaitPc} {armed : UInt64}
    (h : pc.isUnchanged armed = true) : pc.isQueued = true := by
  cases pc with
  | test round status generation =>
    cases round with
    | queued => rfl
    | _ => cases h
  | sleep => rfl
  | _ => cases h

/-- What holds between the steps. -/
structure Mailbox.Inv (s : Mailbox) : Prop where
  arming : s.pc = .arm → ∃ n, s.Counted 3 n
  armed : s.pc.isArmed = true → ∃ n, s.Counted 6 n ∧ (n = 0 → s.Holds)
  queued : s.pc.isQueued = true → s.queued = true ∨ s.woken = true
  covered : WaitPc.isUnchanged s.armedGeneration s.pc = true → s.Covered

/-! ## Steps around the caller -/

namespace Mailbox

variable {s s' : Mailbox} {e : MailboxEvent}

theorem Inv.of_idle (harm : s.pc ≠ .arm) (harmed : s.pc.isArmed = false) : s.Inv := by
  have hnot {P : Prop} (h : s.pc.isArmed = true) : P :=
    absurd (harmed.symm.trans h) Bool.false_ne_true
  exact ⟨fun h => absurd h harm, hnot, fun h => hnot (WaitPc.isArmed_of_isQueued h),
    fun h => hnot (WaitPc.isArmed_of_isQueued (WaitPc.isQueued_of_isUnchanged h))⟩

/-- A step of the device, of the handler or of a signal, while the caller is anywhere. -/
structure Around (s s' : Mailbox) : Prop where
  pc : s'.pc = s.pc
  armedGeneration : s'.armedGeneration = s.armedGeneration
  counted : ∀ {bound n}, s.Counted bound n →
    ∃ n', s'.Counted bound n' ∧ (n' = 0 → n = 0 ∧ (s.Holds → s'.Holds))
  queued : s.queued = true ∨ s.woken = true → s'.queued = true ∨ s'.woken = true
  covered : s.queued = true ∨ s.woken = true → s.Covered → s'.Covered

theorem Around.inv (h : Around s s') (hs : s.Inv) : s'.Inv where
  arming hpc := by
    obtain ⟨n, hn⟩ := hs.arming (h.pc.symm.trans hpc)
    obtain ⟨n', hn', -⟩ := h.counted hn
    exact ⟨n', hn'⟩
  armed hpc := by
    rw [h.pc] at hpc
    obtain ⟨n, hn, hholds⟩ := hs.armed hpc
    obtain ⟨n', hn', hzero⟩ := h.counted hn
    refine ⟨n', hn', fun hnone => ?_⟩
    obtain ⟨hnone, hkeep⟩ := hzero hnone
    exact hkeep (hholds hnone)
  queued hpc := by
    rw [h.pc] at hpc
    exact h.queued (hs.queued hpc)
  covered hpc := by
    rw [h.pc, h.armedGeneration] at hpc
    exact h.covered (hs.queued (WaitPc.isQueued_of_isUnchanged hpc)) (hs.covered hpc)

/-- A step that leaves the handler and the registers alone. -/
theorem Around.of_eq (hpc : s'.pc = s.pc) (harmed : s'.armedGeneration = s.armedGeneration)
    (hgeneration : s'.generation = s.generation)
    (hrounds : roundsLeft s'.irq s'.mask s'.pending ≤ roundsLeft s.irq s.mask s.pending)
    (hmask : s'.mask = s.mask) (hwanted : s'.wanted = s.wanted)
    (hmasked : s.irq = .masked → s'.irq = .masked) (hcounted : s.irq = .counted → s'.irq = .counted)
    (hqueued : s.queued = true → s'.queued = true ∨ s'.woken = true)
    (hwoken : s.woken = true → s'.woken = true) : Around s s' where
  pc := hpc
  armedGeneration := harmed
  counted {bound n} hn := by
    refine ⟨n, ⟨?_, ?_⟩, fun hzero => ⟨hzero, fun hholds => ?_⟩⟩
    · rw [hgeneration, harmed]
      exact hn.1
    · exact Nat.le_trans (Nat.add_le_add_left hrounds n) hn.2
    · obtain hholds | hholds := hholds
      · exact .inl (hmask.trans (hwanted ▸ hholds))
      · exact .inr (hmasked hholds)
  queued h := by
    obtain h | h := h
    · exact hqueued h
    · exact .inr (hwoken h)
  covered _ h := by
    obtain h | h | h := h
    · exact .inl (hmask.trans (hwanted ▸ h))
    · exact .inr (.inl (h.imp hmasked hcounted))
    · exact .inr (.inr (hwoken h))

theorem wake_queued (h : s.queued = true ∨ s.woken = true) : s.wake.woken = true := by
  rw [wake]
  split
  next => rfl
  next hqueued =>
    exact h.resolve_left hqueued

end Mailbox

namespace Mailbox

variable {s s' : Mailbox} {e : MailboxEvent}

theorem around_raise (h : s.status &&& s.mask ≠ 0) : Around s { s with pending := true } := by
  have hmask : s.mask ≠ 0 := by
    intro hzero
    apply h
    rw [hzero, UInt32.and_zero]
  refine .of_eq rfl rfl rfl ?_ rfl rfl id id .inl id
  show roundsLeft s.irq s.mask true ≤ roundsLeft s.irq s.mask s.pending
  have heq : roundsLeft s.irq s.mask true = roundsLeft s.irq s.mask s.pending := by
    rw [roundsLeft, roundsLeft, if_pos hmask, if_pos hmask]
  exact Nat.le_of_eq heq

theorem around_deliver (hpending : s.pending = true) (hidle : s.irq = .idle) :
    Around s { s with pending := false, irq := .entered } := by
  refine .of_eq rfl rfl rfl ?_ rfl rfl ?_ ?_ .inl id
  · rw [hpending, hidle]
    exact roundsLeft_deliver s.mask
  · rw [hidle]
    exact fun h => IrqPhase.noConfusion h
  · rw [hidle]
    exact fun h => IrqPhase.noConfusion h

theorem around_wake (s : Mailbox) : Around s s.wake := by
  rw [wake]
  split
  · exact .of_eq rfl rfl rfl (Nat.le_refl _) rfl rfl id id (fun _ => .inr rfl) (fun _ => rfl)
  · exact .of_eq rfl rfl rfl (Nat.le_refl _) rfl rfl id id .inl id

/-- The handler is done: whoever was on the queue is woken. -/
theorem around_done (h : s.irq = .counted) : Around s { s.wake with irq := .idle } := by
  have hwake := around_wake s
  have hcounted : s.wake.irq = .counted := by
    rw [wake]
    split
    · exact h
    · exact h
  refine ⟨hwake.pc, hwake.armedGeneration, fun {bound n} hn => ?_, fun hqueued =>
    .inr (wake_queued hqueued), fun hqueued _ => .inr (.inr (wake_queued hqueued))⟩
  obtain ⟨n', hn', hzero⟩ := hwake.counted hn
  refine ⟨n', ⟨hn'.1, ?_⟩, fun hnone => ?_⟩
  · have hbound := hn'.2
    rw [hcounted] at hbound
    exact hbound
  · obtain ⟨hnone, hholds⟩ := hzero hnone
    refine ⟨hnone, fun hs => .inl ?_⟩
    obtain hmask | hmasked := hholds hs
    · exact hmask
    · exact absurd (hcounted.symm.trans hmasked) IrqPhase.noConfusion

/-- The steps of the handler. -/
theorem around_bridgeIrq (h : s.bridgeIrq = some s') : Around s s' := by
  unfold bridgeIrq at h
  cases hirq : s.irq with
  | idle =>
    rw [hirq] at h
    cases h
  | entered =>
    -- the source is masked
    rw [hirq] at h
    obtain rfl := Option.some_inj.mp h
    refine ⟨rfl, rfl, fun {bound n} hn => ⟨n, ⟨hn.1, ?_⟩, fun hzero =>
      ⟨hzero, fun _ => .inr rfl⟩⟩, fun hqueued => hqueued, fun _ _ => .inr (.inl (.inl rfl))⟩
    have hbound := hn.2
    rw [hirq] at hbound
    exact Nat.le_trans (Nat.add_le_add_left (roundsLeft_masked s.mask s.pending) n) hbound
  | masked =>
    -- the interrupt is counted
    rw [hirq] at h
    obtain rfl := Option.some_inj.mp h
    refine ⟨rfl, rfl, fun {bound n} hn => ⟨n + 1, ⟨?_, ?_⟩, fun hzero =>
      absurd hzero (Nat.succ_ne_zero n)⟩, fun hqueued => hqueued, fun _ _ => .inr (.inl (.inr rfl))⟩
    · show s.generation + 1 = s.armedGeneration + .ofNat (n + 1)
      rw [hn.1, UInt64.ofNat_add, UInt64.add_assoc]
      rfl
    · have hbound := hn.2
      rw [hirq, roundsLeft_counted] at hbound
      show n + 1 + roundsLeft .counted s.mask s.pending ≤ bound
      omega
  | counted =>
    rw [hirq] at h
    obtain rfl := Option.some_inj.mp h
    exact around_done hirq

theorem around_removal (s : Mailbox) (removal : Removal) : Around s { s with removal } :=
  .of_eq rfl rfl rfl (Nat.le_refl _) rfl rfl id id .inl id

/-- The steps of the removal: it masks the source when nobody waits. -/
theorem inv_bridgeRemove (hs : s.Inv) (h : s.bridgeRemove = some s') : s'.Inv := by
  unfold bridgeRemove at h
  cases hremoval : s.removal with
  | bound =>
    rw [hremoval] at h
    obtain rfl := Option.some_inj.mp h
    exact (around_removal s .dead).inv hs
  | dead =>
    rw [hremoval] at h
    obtain rfl := Option.some_inj.mp h
    exact (around_removal s.wake .woken).inv ((around_wake s).inv hs)
  | woken =>
    rw [hremoval] at h
    dsimp only at h
    split at h
    next houtside =>
      obtain rfl := Option.some_inj.mp h
      -- removal goes on only when the caller is outside the wait
      refine .of_idle (fun harm => ?_) ?_
      · have harm : s.pc = .arm := harm
        rw [harm] at houtside
        cases houtside
      · show s.pc.isArmed = false
        revert houtside
        cases s.pc with
        | idle | returned => exact fun _ => rfl
        | _ => exact fun h => Bool.noConfusion h
    next => cases h
  | removed =>
    rw [hremoval] at h
    cases h

/-! ## Steps of the caller -/

/-- The generation has not come back to where it was. -/
theorem Counted.eq_zero {n : Nat} (h : s.Counted 6 n) (heq : s.generation = s.armedGeneration) :
    n = 0 := by
  have hn : n ≤ 6 := Nat.le_trans (Nat.le_add_right _ _) h.2
  have hzero : s.armedGeneration + .ofNat n = s.armedGeneration + 0 := by
    rw [← h.1, heq, UInt64.add_zero]
  have hofNat := congrArg UInt64.toNat (UInt64.add_right_inj _ |>.mp hzero)
  rw [UInt64.toNat_ofNat_of_lt' (Nat.lt_of_le_of_lt hn (by decide))] at hofNat
  exact hofNat

/-- The condition is false only if the generation is what it was. -/
theorem eq_of_not_ready {status wanted : UInt32} {armed found : UInt64}
    (h : hyperIoWaitReady status wanted armed found = false) : found = armed := by
  rw [hyperIoWaitReady, Bool.or_eq_false_iff] at h
  exact (bne_eq_false_iff_eq.mp h.2).symm

/-- A test of the condition. -/
theorem inv_tested {round : WaitRound} {status : Option UInt32} {generation : Option UInt64}
    (harmed : ∃ n, s.Counted 6 n ∧ (n = 0 → s.Holds))
    (hqueued : round = .queued → s.queued = true ∨ s.woken = true)
    (hcovered : round = .queued → generation = some s.armedGeneration → s.Covered) :
    (s.tested round status generation).Inv := by
  have htest : ({ s with pc := .test round status generation } : Mailbox).Inv := by
    refine ⟨fun h => WaitPc.noConfusion h, fun _ => harmed, fun h => hqueued ?_, fun h => ?_⟩
    · cases round with
      | queued => rfl
      | _ => cases h
    · cases round with
      | queued =>
        cases generation with
        | none => cases h
        | some found => exact hcovered rfl (congrArg some (beq_iff_eq.mp h))
      | _ => cases h
  cases status with
  | none => exact htest
  -- both reads are there: the round is concluded
  | some status =>
    cases generation with
    | none => exact htest
    | some found =>
      show ({ s with pc := conclude round _ } : Mailbox).Inv
      cases hready : hyperIoWaitReady status s.wanted s.armedGeneration found with
      | true =>
        -- the condition holds, and nothing is waited for
        refine .of_idle ?_ ?_
        · cases round <;> exact WaitPc.noConfusion
        · cases round <;> rfl
      | false =>
        -- the condition does not hold: no interrupt has been counted since the caller armed
        obtain rfl := eq_of_not_ready hready
        cases round with
        | unqueued =>
          exact ⟨WaitPc.noConfusion, fun _ => harmed, fun h => Bool.noConfusion h,
            fun h => Bool.noConfusion h⟩
        | queued =>
          exact ⟨WaitPc.noConfusion, fun _ => harmed, fun _ => hqueued rfl,
            fun _ => hcovered rfl rfl⟩
        | interrupted => exact .of_idle WaitPc.noConfusion rfl

/-- The caller reads the generation, and arms the source next. -/
theorem inv_generation (s : Mailbox) :
    ({ s with armedGeneration := s.generation, pc := .arm } : Mailbox).Inv := by
  refine ⟨fun _ => ⟨0, ?_, ?_⟩, fun h => Bool.noConfusion h, fun h => Bool.noConfusion h,
    fun h => Bool.noConfusion h⟩
  · exact (UInt64.add_zero s.generation).symm
  · rw [Nat.zero_add]
    exact roundsLeft_le _ _ _

/-- It arms the source. -/
theorem inv_arm (hs : s.Inv) (hpc : s.pc = .arm) :
    ({ s with mask := s.wanted ||| mailboxClosed, pc := .testDead .unqueued } : Mailbox).Inv := by
  obtain ⟨n, hn⟩ := hs.arming hpc
  refine ⟨WaitPc.noConfusion, fun _ => ⟨n, ⟨hn.1, ?_⟩, fun _ => .inl rfl⟩,
    fun h => Bool.noConfusion h, fun h => Bool.noConfusion h⟩
  have hbound := Nat.le_trans (Nat.le_add_right _ _) hn.2
  exact Nat.add_le_add hbound (roundsLeft_le _ _ _)

/-- It looks at `dead`, and tests the condition next. -/
theorem inv_testDead {round : WaitRound} (hs : s.Inv) (hpc : s.pc = .testDead round) :
    ({ s with pc := if s.dead then conclude round true else .test round none none } :
      Mailbox).Inv := by
  have harmed := hs.armed (by rw [hpc]; rfl)
  have hqueued := hs.queued
  rw [hpc] at hqueued
  split
  next =>
    refine .of_idle ?_ ?_
    · cases round <;> exact WaitPc.noConfusion
    · cases round <;> rfl
  next =>
    refine ⟨WaitPc.noConfusion, fun _ => harmed, fun h => hqueued ?_, fun h => ?_⟩
    · cases round with
      | queued => rfl
      | _ => cases h
    · cases round <;> cases h

/-- The steps of `wait_status` that read nothing of the condition. -/
theorem inv_waitStatus (hs : s.Inv) (h : s.waitStatus = some s') : s'.Inv := by
  unfold waitStatus at h
  cases hpc : s.pc with
  | idle | returned | test =>
    rw [hpc] at h
    cases h
  | dead =>
    rw [hpc] at h
    obtain rfl := Option.some_inj.mp h
    -- the device is dead, or the status is read
    refine .of_idle ?_ ?_
    · dsimp only
      split <;> exact WaitPc.noConfusion
    · dsimp only
      split <;> rfl
  | status =>
    rw [hpc] at h
    obtain rfl := Option.some_inj.mp h
    -- closed, ready, or not ready
    refine .of_idle ?_ ?_
    · dsimp only
      split
      · exact WaitPc.noConfusion
      · split <;> exact WaitPc.noConfusion
    · dsimp only
      split
      · rfl
      · split <;> rfl
  | generation =>
    rw [hpc] at h
    obtain rfl := Option.some_inj.mp h
    exact inv_generation s
  | arm =>
    rw [hpc] at h
    obtain rfl := Option.some_inj.mp h
    exact inv_arm hs hpc
  | testDead round =>
    rw [hpc] at h
    obtain rfl := Option.some_inj.mp h
    exact inv_testDead hs hpc
  | prepare =>
    rw [hpc] at h
    dsimp only at h
    have harmed := hs.armed (by rw [hpc]; rfl)
    split at h
    next =>
      -- a signal has come
      obtain rfl := Option.some_inj.mp h
      exact ⟨WaitPc.noConfusion, fun _ => harmed, fun h => Bool.noConfusion h,
        fun h => Bool.noConfusion h⟩
    next =>
      obtain rfl := Option.some_inj.mp h
      exact ⟨WaitPc.noConfusion, fun _ => harmed, fun _ => .inl rfl, fun h => Bool.noConfusion h⟩
  | sleep =>
    rw [hpc] at h
    dsimp only at h
    have harmed := hs.armed (by rw [hpc]; rfl)
    split at h
    next =>
      -- it was woken: the condition is tested again
      obtain rfl := Option.some_inj.mp h
      exact ⟨WaitPc.noConfusion, fun _ => harmed, fun h => Bool.noConfusion h,
        fun h => Bool.noConfusion h⟩
    next => cases h
  | finish =>
    rw [hpc] at h
    obtain rfl := Option.some_inj.mp h
    exact .of_idle WaitPc.noConfusion rfl
  | disarm interrupted =>
    rw [hpc] at h
    obtain rfl := Option.some_inj.mp h
    -- interrupted, or tested from the start
    refine .of_idle ?_ ?_
    · dsimp only
      split <;> exact WaitPc.noConfusion
    · dsimp only
      split <;> rfl

/-- Every step keeps the invariant. -/
theorem inv_step (hs : s.Inv) (h : s.step e = some s') : s'.Inv := by
  cases e with
  | device status =>
    obtain rfl := Option.some_inj.mp h
    have haround : Around s { s with status } :=
      .of_eq rfl rfl rfl (Nat.le_refl _) rfl rfl id id .inl id
    exact haround.inv hs
  | raise =>
    rw [step] at h
    split at h
    next hintersect =>
      obtain rfl := Option.some_inj.mp h
      exact (around_raise hintersect).inv hs
    next => cases h
  | deliver =>
    rw [step] at h
    split at h
    next hdeliver =>
      obtain rfl := Option.some_inj.mp h
      exact (around_deliver hdeliver.1 hdeliver.2).inv hs
    next => cases h
  | irq => exact (around_bridgeIrq h).inv hs
  | signal =>
    obtain rfl := Option.some_inj.mp h
    have haround : Around s { s with signal := true, woken := true } :=
      .of_eq rfl rfl rfl (Nat.le_refl _) rfl rfl id id .inl (fun _ => rfl)
    exact haround.inv hs
  | remove => exact inv_bridgeRemove hs h
  | start wanted =>
    rw [step] at h
    split at h
    · obtain rfl := Option.some_inj.mp h
      exact .of_idle WaitPc.noConfusion rfl
    · cases h
  | next => exact inv_waitStatus hs h
  | readStatus =>
    rw [step] at h
    split at h
    next round generation hpc =>
      obtain rfl := Option.some_inj.mp h
      have hqueued := hs.queued
      have hcovered := hs.covered
      rw [hpc] at hqueued hcovered
      -- the condition is tested when the other read is there too
      refine inv_tested (hs.armed (by rw [hpc]; rfl)) (fun hround => hqueued ?_)
        fun hround hgeneration => hcovered ?_
      · rw [hround]
        rfl
      · rw [hround, hgeneration]
        exact beq_self_eq_true _
    next => cases h
  | readGeneration =>
    rw [step] at h
    split at h
    next round status hpc =>
      obtain rfl := Option.some_inj.mp h
      have harmed := hs.armed (by rw [hpc]; rfl)
      have hqueued := hs.queued
      rw [hpc] at hqueued
      refine inv_tested harmed (fun hround => hqueued ?_) fun _ hgeneration => ?_
      · rw [hround]
        rfl
      · -- Nothing has been counted since the read, so the source is not masked for good.
        obtain ⟨n, hn, hholds⟩ := harmed
        exact (hholds (hn.eq_zero (Option.some_inj.mp hgeneration))).covered
    next => cases h

/-! ## Results -/

/-- What a step that returns has read. -/
structure Returns (s s' : Mailbox) : Prop where
  ready : s'.pc = .returned .ready → s.status &&& s.wanted ≠ 0
  closed : s'.pc = .returned .closed → s.status &&& mailboxClosed ≠ 0

theorem Returns.of_ne (h : ∀ result, s'.pc ≠ .returned result) : Returns s s' :=
  ⟨fun hpc => absurd hpc (h _), fun hpc => absurd hpc (h _)⟩

theorem conclude_ne_returned (round : WaitRound) (ready : Bool) (result : WaitResult) :
    conclude round ready ≠ .returned result := by
  cases round <;> cases ready <;> exact WaitPc.noConfusion

theorem tested_ne_returned (s : Mailbox) (round : WaitRound) (status : Option UInt32)
    (generation : Option UInt64) (result : WaitResult) :
    (s.tested round status generation).pc ≠ .returned result := by
  cases status with
  | none => exact WaitPc.noConfusion
  | some status =>
    cases generation with
    | none => exact WaitPc.noConfusion
    | some found => exact conclude_ne_returned _ _ _

theorem returns_waitStatus (h : s.waitStatus = some s') : Returns s s' := by
  unfold waitStatus at h
  cases hpc : s.pc with
  | idle | returned | test =>
    rw [hpc] at h
    cases h
  | dead =>
    rw [hpc] at h
    obtain rfl := Option.some_inj.mp h
    constructor
    · dsimp only
      split
      · exact fun h => WaitResult.noConfusion (WaitPc.returned.inj h)
      · exact fun h => WaitPc.noConfusion h
    · dsimp only
      split
      · exact fun h => WaitResult.noConfusion (WaitPc.returned.inj h)
      · exact fun h => WaitPc.noConfusion h
  | status =>
    rw [hpc] at h
    obtain rfl := Option.some_inj.mp h
    constructor
    case ready =>
      dsimp only
      split
      next => exact fun h => WaitResult.noConfusion (WaitPc.returned.inj h)
      next =>
        split
        next hwanted => exact fun _ => hwanted
        next => exact fun h => WaitPc.noConfusion h
    case closed =>
      dsimp only
      split
      next hclosed => exact fun _ => hclosed
      next =>
        split
        next => exact fun h => WaitResult.noConfusion (WaitPc.returned.inj h)
        next => exact fun h => WaitPc.noConfusion h
  | generation | arm | finish =>
    rw [hpc] at h
    obtain rfl := Option.some_inj.mp h
    exact .of_ne fun _ => WaitPc.noConfusion
  | testDead round =>
    rw [hpc] at h
    obtain rfl := Option.some_inj.mp h
    refine .of_ne fun result => ?_
    dsimp only
    split
    · exact conclude_ne_returned _ _ _
    · exact WaitPc.noConfusion
  | prepare =>
    rw [hpc] at h
    dsimp only at h
    split at h
    · obtain rfl := Option.some_inj.mp h
      exact .of_ne fun _ => WaitPc.noConfusion
    · obtain rfl := Option.some_inj.mp h
      exact .of_ne fun _ => WaitPc.noConfusion
  | sleep =>
    rw [hpc] at h
    dsimp only at h
    split at h
    · obtain rfl := Option.some_inj.mp h
      exact .of_ne fun _ => WaitPc.noConfusion
    · cases h
  | disarm interrupted =>
    rw [hpc] at h
    obtain rfl := Option.some_inj.mp h
    constructor
    · dsimp only
      split
      · exact fun h => WaitResult.noConfusion (WaitPc.returned.inj h)
      · exact fun h => WaitPc.noConfusion h
    · dsimp only
      split
      · exact fun h => WaitResult.noConfusion (WaitPc.returned.inj h)
      · exact fun h => WaitPc.noConfusion h

/-- The steps of the device, of the handler and of the removal do not move the caller. -/
theorem pc_bridgeIrq (h : s.bridgeIrq = some s') : s'.pc = s.pc := (around_bridgeIrq h).pc

theorem pc_bridgeRemove (h : s.bridgeRemove = some s') : s'.pc = s.pc := by
  unfold bridgeRemove at h
  cases hremoval : s.removal with
  | bound =>
    rw [hremoval] at h
    obtain rfl := Option.some_inj.mp h
    rfl
  | dead =>
    rw [hremoval] at h
    obtain rfl := Option.some_inj.mp h
    exact (around_wake s).pc
  | woken =>
    rw [hremoval] at h
    dsimp only at h
    split at h
    · obtain rfl := Option.some_inj.mp h
      rfl
    · cases h
  | removed =>
    rw [hremoval] at h
    cases h

theorem returns_step (h : s.step e = some s') (hpc : s'.pc ≠ s.pc) : Returns s s' := by
  cases e with
  | device status =>
    obtain rfl := Option.some_inj.mp h
    exact absurd rfl hpc
  | raise =>
    rw [step] at h
    split at h
    · obtain rfl := Option.some_inj.mp h
      exact absurd rfl hpc
    · cases h
  | deliver =>
    rw [step] at h
    split at h
    · obtain rfl := Option.some_inj.mp h
      exact absurd rfl hpc
    · cases h
  | irq => exact absurd (pc_bridgeIrq h) hpc
  | signal =>
    obtain rfl := Option.some_inj.mp h
    exact absurd rfl hpc
  | remove => exact absurd (pc_bridgeRemove h) hpc
  | start wanted =>
    rw [step] at h
    split at h
    · obtain rfl := Option.some_inj.mp h
      exact .of_ne fun _ => WaitPc.noConfusion
    · cases h
  | next => exact returns_waitStatus h
  | readStatus =>
    rw [step] at h
    split at h
    · obtain rfl := Option.some_inj.mp h
      exact .of_ne (tested_ne_returned s _ _ _)
    · cases h
  | readGeneration =>
    rw [step] at h
    split at h
    · obtain rfl := Option.some_inj.mp h
      exact .of_ne (tested_ne_returned s _ _ _)
    · cases h

end Mailbox

/-! ## Runs -/

/-- No wake-up is lost. In every run, from any registers and interrupts left over, a caller that
sleeps has its source armed, or a handler is between its mask write and its wake, or it is woken. A
step that returns 0 reads a wanted bit, and one that returns `-EPIPE` reads that the mailbox is
closed. -/
theorem no_lost_wakeup {status mask : UInt32} {pending : Bool} {irq : IrqPhase}
    {generation : UInt64} {removal : Removal} {events : List MailboxEvent} {s : Mailbox}
    (h : runSteps Mailbox.step { status, mask, pending, irq, generation, removal } events =
      some s) :
    (s.pc = .sleep → s.mask = s.wanted ||| mailboxClosed ∨
      (s.irq = .masked ∨ s.irq = .counted) ∨ s.woken = true) ∧
    (s.pc = .sleep → s.mask = 0 → s.woken = false → s.irq = .masked ∨ s.irq = .counted) ∧
    ∀ e s', s.step e = some s' → s'.pc ≠ s.pc →
      (s'.pc = .returned .ready → s.status &&& s.wanted ≠ 0) ∧
      (s'.pc = .returned .closed → s.status &&& mailboxClosed ≠ 0) := by
  have hinv : s.Inv := runSteps_invariant (fun _ _ _ hs h => Mailbox.inv_step hs h)
    (.of_idle WaitPc.noConfusion rfl) h
  have hcovered (hpc : s.pc = .sleep) : s.Covered := hinv.covered (by rw [hpc]; rfl)
  refine ⟨hcovered, fun hpc hmask hwoken => ?_, fun e s' hstep hpc => ?_⟩
  · obtain harmed | hirq | hwake := hcovered hpc
    · -- `CLOSED` is always among the bits that are armed.
      rw [hmask] at harmed
      exact absurd (UInt32.or_eq_zero_iff.mp harmed.symm).2 (by decide)
    · exact hirq
    · exact absurd (hwoken.symm.trans hwake) Bool.false_ne_true
  · have hreturns := Mailbox.returns_step hstep hpc
    exact ⟨hreturns.ready, hreturns.closed⟩

/-- An interrupt that is left over masks the source of a caller that has armed it, before the caller
sleeps; it is not counted yet. -/
theorem no_lost_wakeup_late : ∃ s,
    runSteps Mailbox.step ⟨2, 5, true, .idle, 7, .bound, false, false, false, .idle, 0, 0, 0⟩
      [.start 1, .next, .next, .next, .deliver, .next, .next, .readStatus, .readGeneration, .next,
        .irq, .next, .readGeneration, .readStatus] = some s ∧
      s.pc = .sleep ∧ s.mask = 0 ∧ s.irq = .masked := by
  have hrun : (runSteps Mailbox.step
      ⟨2, 5, true, .idle, 7, .bound, false, false, false, .idle, 0, 0, 0⟩
      [.start 1, .next, .next, .next, .deliver, .next, .next, .readStatus, .readGeneration, .next,
        .irq, .next, .readGeneration, .readStatus]).map
          (fun s => (s.pc, s.mask, s.woken, s.irq == .counted)) =
        some (.sleep, 0, false, false) := by decide +kernel
  obtain ⟨s, hs, hstate⟩ := Option.map_eq_some_iff.mp hrun
  obtain ⟨hpc, hstate⟩ := Prod.mk.inj hstate
  obtain ⟨hmask, hstate⟩ := Prod.mk.inj hstate
  obtain ⟨hwoken, hcounted⟩ := Prod.mk.inj hstate
  obtain hmasked | hirq := (no_lost_wakeup hs).2.1 hpc hmask hwoken
  · exact ⟨s, hs, hpc, hmask, hmasked⟩
  · rw [hirq] at hcounted
    cases hcounted

end HyperIoVm
