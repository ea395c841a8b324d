import HyperIoVm.GranuleRuns

/-!
# The retirement queue (`modules/guest-memory/granules.c`)

The queue runs the callbacks that its workers have taken up, at most `HYPER_GRANULE_RETIRE_BATCH` of
them at a time. What a caller does leaves the callbacks that run alone.
-/

namespace HyperIoVm

open Data GranuleRegistry

variable {ι : Type} [DecidableEq ι] {s s' s'' : GranuleRegistry ι} {c : ι}
  {put : GranulesPut} {granule other : GranulePtr} {g : Granule} {w : RetireWork}

namespace GranuleRegistry

omit [DecidableEq ι] in
/-- The work of the granule, when it is allocated. -/
def work (s : GranuleRegistry ι) (granule : GranulePtr) : Option RetireWork :=
  (s.heap granule).map (·.work)

/-- The callback of the granule runs. -/
def Running (s : GranuleRegistry ι) (granule : GranulePtr) : Prop :=
  ∃ w, s.work granule = some w ∧ (w.callback = .unmapping ∨ w.callback = .releasing)

/-- The queue runs what its workers have taken up, and not too much of it. -/
structure Working (s : GranuleRegistry ι) : Prop where
  nodup : s.active.Nodup
  running : ∀ granule, granule ∈ s.active ↔ s.Running granule
  bound : s.active.length ≤ hyperGranuleRetireBatch

/-! ## Work -/

section Work

omit [DecidableEq ι]

theorem work_of_heap (hg : s.heap granule = some g) : s.work granule = some g.work :=
  congrArg (Option.map Granule.work) hg

theorem work_setGranule (s : GranuleRegistry ι) (granule other : GranulePtr) (g : Option Granule) :
    (s.setGranule granule g).work other =
      if other = granule then g.map (·.work) else s.work other := by
  unfold work setGranule
  dsimp only
  rw [Function.update_apply]
  split
  · rfl
  · rfl

/-- The number of users has nothing to do with the work. -/
theorem work_modifyGranule (f : Granule → Granule) (hf : ∀ g, (f g).work = g.work)
    (s : GranuleRegistry ι) (granule other : GranulePtr) :
    (s.modifyGranule granule f).work other = s.work other := by
  unfold modifyGranule
  cases hg : s.heap granule with
  | none => rfl
  | some g =>
    dsimp only
    rw [work_setGranule]
    split
    next heq =>
      rw [heq, work_of_heap hg]
      exact congrArg some (hf g)
    next => rfl

theorem Working.of_same (h : s.Working) (hactive : s'.active = s.active)
    (hwork : ∀ granule, s'.Running granule ↔ s.Running granule) : s'.Working := by
  refine ⟨by rw [hactive]; exact h.nodup, fun granule => ?_, by rw [hactive]; exact h.bound⟩
  rw [hactive, hwork, h.running]

theorem running_congr (h : s'.work granule = s.work granule) :
    s'.Running granule ↔ s.Running granule := by
  unfold Running
  rw [h]

end Work

/-! ## What a caller leaves alone -/

/-- Only the caller has changed, and no work. -/
structure Beside (c : ι) (s s' : GranuleRegistry ι) : Prop where
  callers : ∀ c' ≠ c, s'.callers c' = s.callers c'
  work : ∀ granule, s'.work granule = s.work granule
  active : s'.active = s.active

section Beside

omit [DecidableEq ι]

theorem Beside.refl (s : GranuleRegistry ι) : Beside c s s :=
  ⟨fun _ _ => rfl, fun _ => rfl, rfl⟩

theorem Beside.trans (h : Beside c s s') (h' : Beside c s' s'') : Beside c s s'' :=
  ⟨fun c' hc' => (h'.callers c' hc').trans (h.callers c' hc'),
    fun granule => (h'.work granule).trans (h.work granule), h'.active.trans h.active⟩

end Beside

theorem beside_setCaller (s : GranuleRegistry ι) (c : ι) (caller : GranuleCaller) :
    Beside c s (s.setCaller c caller) :=
  ⟨fun _ hc' => Function.update_of_ne hc' _ _, fun _ => rfl, rfl⟩

theorem beside_setPut (s : GranuleRegistry ι) (c : ι) (put : GranulesPut) :
    Beside c s (s.setPut c put) := beside_setCaller s c _

theorem beside_detachGranule (s : GranuleRegistry ι) (c : ι) (put : GranulesPut)
    (granule : GranulePtr) (entries : List (Option GranulePtr)) :
    Beside c s (s.detachGranule c put granule entries) := by
  unfold GranuleRegistry.detachGranule
  cases hg : s.heap granule with
  | none => exact ⟨fun _ _ => rfl, fun _ => rfl, rfl⟩
  | some g =>
    dsimp only
    have husers (users : Nat) (other : GranulePtr) :
        (s.setGranule granule (some { g with users })).work other = s.work other := by
      rw [work_setGranule]
      split
      next heq =>
        rw [heq, work_of_heap hg]
        rfl
      next => rfl
    split
    next => exact ⟨fun _ _ => rfl, fun _ => rfl, rfl⟩
    next =>
      split
      next => exact ⟨fun _ hc' => Function.update_of_ne hc' _ _, husers _, rfl⟩
      next => exact ⟨fun _ hc' => Function.update_of_ne hc' _ _, husers _, rfl⟩

theorem beside_detachGranules (c : ι) (rounds : Nat) (s : GranuleRegistry ι) :
    Beside c s (detachGranules c rounds s) := by
  induction rounds generalizing s with
  | zero => exact Beside.refl s
  | succ rounds ih =>
    unfold detachGranules
    split
    next put hput =>
      split
      next => exact (beside_detachGranule s c _ _ _).trans (ih _)
      next => exact Beside.refl s
    next => exact Beside.refl s

theorem beside_detachBatch (s : GranuleRegistry ι) (c : ι) (put : GranulesPut) :
    Beside c s (s.detachBatch c put) := by
  unfold GranuleRegistry.detachBatch
  dsimp only
  split
  next => exact (beside_detachGranules c _ s).trans (beside_setPut _ c _)
  next => exact beside_detachGranules c _ s

/-! ## The invariant -/

omit [DecidableEq ι] in
theorem Working.beside (h : s.Working) (hs' : Beside c s s') : s'.Working :=
  h.of_same hs'.active fun granule => running_congr (hs'.work granule)

omit [DecidableEq ι] in
/-- Work that does not run is replaced by other work that does not run. -/
theorem Working.idle (h : s.Working) (granule : GranulePtr) (hactive : s'.active = s.active)
    (hothers : ∀ other ≠ granule, s'.work other = s.work other)
    (hold : ∀ w, s.work granule = some w → w.callback = .notRun ∨ w.callback = .ran)
    (hnew : ∀ w, s'.work granule = some w → w.callback = .notRun ∨ w.callback = .ran) :
    s'.Working := by
  have hidle {t : GranuleRegistry ι}
      (ht : ∀ w, t.work granule = some w → w.callback = .notRun ∨ w.callback = .ran) :
      ¬ t.Running granule := by
    rintro ⟨w, hw, hcallback⟩
    rcases ht w hw with heq | heq <;> rw [heq] at hcallback <;> simp at hcallback
  refine h.of_same hactive fun other => ?_
  by_cases hne : other = granule
  · rw [hne]
    exact iff_of_false (hidle hnew) (hidle hold)
  · exact running_congr (hothers other hne)

omit [DecidableEq ι] in
theorem callback_of_idle (hidle : w.idle = true) : w.callback = .notRun ∨ w.callback = .ran := by
  simp only [RetireWork.idle, Bool.and_eq_true, Bool.or_eq_true, decide_eq_true_iff] at hidle
  exact hidle.2

omit [DecidableEq ι] in
theorem work_kfree (hg : s.heap granule = some g) (hidle : g.work.idle = true) :
    (s.kfree granule).work other = if other = granule then none else s.work other := by
  unfold kfree
  rw [hg]
  dsimp only
  rw [if_pos hidle, work_setGranule]
  rfl

omit [DecidableEq ι] in
theorem active_kfree : (s.kfree granule).active = s.active := by
  unfold kfree
  split
  next => rfl
  next => split <;> rfl

omit [DecidableEq ι] in
theorem callers_kfree : (s.kfree granule).callers = s.callers := by
  unfold kfree
  split
  next => rfl
  next => split <;> rfl

omit [DecidableEq ι] in
theorem work_queueWork (hg : s.heap granule = some g) : (s.queueWork granule).work other =
    if other = granule then some { g.work with pending := true } else s.work other := by
  unfold GranuleRegistry.queueWork modifyGranule
  rw [hg]
  exact work_setGranule ..

omit [DecidableEq ι] in
theorem active_queueWork : (s.queueWork granule).active = s.active := by
  unfold GranuleRegistry.queueWork modifyGranule
  split <;> rfl

omit [DecidableEq ι] in
theorem callers_queueWork : (s.queueWork granule).callers = s.callers := by
  unfold GranuleRegistry.queueWork modifyGranule
  split <;> rfl

section Invariant

variable [Fintype ι]

omit [DecidableEq ι] in
/-- What a round queues has not been queued before. -/
theorem Consistent.unqueued (h : s.Consistent) (hput : (s.callers c).put = some put)
    {queued unqueued : List (Option GranulePtr)}
    (hstage : put.stage = .queueWork queued (some granule :: unqueued)) :
    ∃ g, s.heap granule = some g ∧ g.work = {} := by
  have hunqueued : granule ∈ (s.callers c).stage.unqueued := by
    rw [stage_of_put hput, hstage]
    exact List.reduceOption_mem_iff.mpr List.mem_cons_self
  obtain ⟨-, g, hg, hmatches⟩ :=
    h.detached c granule (PutStage.mem_detached.mpr (Or.inl hunqueued))
  exact ⟨g, hg, hmatches.unqueued hunqueued⟩

omit [DecidableEq ι] in
/-- What a round frees has run. -/
theorem Consistent.flushed (h : s.Consistent) (hput : (s.callers c).put = some put)
    {unflushed : List (Option GranulePtr)} (hstage : put.stage = .free granule unflushed) :
    ∃ g, s.heap granule = some g ∧ g.work.pending = false ∧ g.work.callback = .ran := by
  have hflushed : granule ∈ (s.callers c).stage.flushed := by
    rw [stage_of_put hput, hstage]
    exact List.mem_singleton_self _
  obtain ⟨-, g, hg, hmatches⟩ :=
    h.detached c granule (PutStage.mem_detached.mpr (Or.inr (Or.inr hflushed)))
  exact ⟨g, hg, hmatches.flushed hflushed⟩

/-- A caller touches the work of its own granules only, and none that runs. -/
theorem Working.advance (h : s.Working) (hconsistent : s.Consistent)
    (hput : (s.callers c).put = some put) (hs' : s.advance c put = some s') : s'.Working := by
  cases hconsistent.advances hput hs' with
  | returned => exact h.beside (beside_setCaller s c _)
  | batch => exact h.beside (beside_detachBatch s c put)
  | allQueued | skipQueue | allFlushed | skipFlush | flush => exact h.beside (beside_setPut s c _)
  | @queue granule queued unqueued hstage =>
    obtain ⟨g, hg, hfresh⟩ := hconsistent.unqueued hput hstage
    have hqueue : (s.queueWork granule).Working := by
      refine h.idle granule active_queueWork (fun other hne => ?_) (fun w hw => ?_)
        fun w hw => ?_
      · rw [work_queueWork hg, if_neg hne]
      · rw [work_of_heap hg, hfresh] at hw
        exact Or.inl (congrArg RetireWork.callback (Option.some_inj.mp hw).symm)
      · rw [work_queueWork hg, if_pos rfl, hfresh] at hw
        exact Or.inl (congrArg RetireWork.callback (Option.some_inj.mp hw).symm)
    exact hqueue.beside (beside_setPut _ c _)
  | @free granule unflushed hstage =>
    obtain ⟨g, hg, hpending, hran⟩ := hconsistent.flushed hput hstage
    have hidle : g.work.idle = true := by simp [RetireWork.idle, hpending, hran]
    have hfree : (s.kfree granule).Working := by
      refine h.idle granule active_kfree (fun other hne => ?_) (fun w hw => ?_)
        fun w hw => ?_
      · rw [work_kfree hg hidle, if_neg hne]
      · rw [work_of_heap hg] at hw
        rw [← Option.some_inj.mp hw]
        exact callback_of_idle hidle
      · rw [work_kfree hg hidle, if_pos rfl] at hw
        cases hw
    exact hfree.beside (beside_setPut _ c _)

omit [DecidableEq ι] [Fintype ι] in
/-- A worker takes up work when there is a place for it. -/
theorem Working.startWork (h : s.Working) (hs' : s.startWork granule = some s') : s'.Working := by
  obtain ⟨g, hg, hroom, -, hcallback, rfl⟩ := startWork_eq_some hs'
  have hnotActive : granule ∉ s.active := by
    intro hmem
    obtain ⟨w, hw, hrunning⟩ := (h.running granule).mp hmem
    rw [work_of_heap hg] at hw
    rw [← Option.some_inj.mp hw] at hrunning
    rcases hcallback with heq | heq <;> rw [heq] at hrunning <;> simp at hrunning
  refine ⟨?_, fun other => ?_, ?_⟩
  · exact List.Nodup.append h.nodup (List.nodup_singleton granule)
      (List.disjoint_singleton.mpr hnotActive)
  · rw [List.mem_append, List.mem_singleton, h.running]
    by_cases hne : other = granule
    · rw [hne]
      refine iff_of_true (Or.inr rfl) ⟨{ pending := false, callback := .unmapping }, ?_, Or.inl rfl⟩
      exact (work_setGranule s granule granule _).trans (if_pos rfl)
    · rw [or_iff_left hne]
      refine (running_congr ?_).symm
      exact (work_setGranule s granule other _).trans (if_neg hne)
  · rw [List.length_append]
    exact hroom

omit [DecidableEq ι] [Fintype ι] in
/-- The queue runs the callback until its last call is made. -/
theorem Working.granuleRetire (h : s.Working) (hs' : s.granuleRetire granule = some s') :
    s'.Working := by
  obtain ⟨g, hg, ⟨hcallback, rfl⟩ | ⟨hcallback, rfl⟩⟩ := granuleRetire_eq_some hs'
  · have hold : s.Running granule := ⟨g.work, work_of_heap hg, Or.inl hcallback⟩
    refine h.of_same rfl fun other => ?_
    by_cases hne : other = granule
    · rw [hne]
      refine iff_of_true ⟨{ g.work with callback := .releasing }, ?_, Or.inr rfl⟩ hold
      exact (work_setGranule _ granule granule _).trans (if_pos rfl)
    · exact running_congr ((work_setGranule _ granule other _).trans (if_neg hne))
  · refine ⟨h.nodup.erase granule, fun other => ?_, ?_⟩
    · rw [h.nodup.mem_erase_iff, h.running]
      by_cases hne : other = granule
      · rw [hne]
        refine iff_of_false (fun hboth => hboth.1 rfl) ?_
        rintro ⟨w, hw, hrunning⟩
        have hran : w = { g.work with callback := .ran } :=
          Option.some_inj.mp (hw.symm.trans ((work_setGranule _ granule granule _).trans
            (if_pos rfl)))
        rw [hran] at hrunning
        simp at hrunning
      · rw [and_iff_right hne]
        refine (running_congr ?_).symm
        exact (work_setGranule _ granule other _).trans (if_neg hne)
    · exact Nat.le_trans List.length_erase_le h.bound

omit [Fintype ι] [DecidableEq ι] in
/-- A get that succeeds joins a granule, or imports one whose work has not been queued. -/
theorem Working.hyperGranuleGet (h : s.Working) {index : UInt64} {answers : GetAnswers}
    (hanswers : s.Answers index answers)
    (hs' : s.hyperGranuleGet index answers = (.ok granule, s')) : s'.Working := by
  unfold GranuleRegistry.hyperGranuleGet at hs'
  split at hs'
  next granule' hindex =>
    cases hs'
    refine h.of_same ?_ fun other => running_congr (work_modifyGranule
      (fun g => { g with users := g.users + 1 }) (fun _ => rfl) s granule other)
    unfold modifyGranule
    split <;> rfl
  next =>
    split at hs'
    next => cases hs'
    next granule' hkzalloc =>
      dsimp only at hs'
      split at hs'
      next => cases hs'
      next =>
        split at hs'
        next => cases hs'
        next =>
          split at hs'
          next => cases hs'
          next =>
            cases hs'
            have hnone := hanswers.1 granule hkzalloc
            refine h.idle granule rfl (fun other hne => ?_) (fun w hw => ?_)
              fun w hw => ?_
            · exact (work_setGranule _ granule other _).trans (if_neg hne)
            · unfold work at hw
              rw [hnone] at hw
              cases hw
            · have hfresh := hw.symm.trans ((work_setGranule _ granule granule _).trans
                (if_pos rfl))
              rw [Option.some_inj.mp hfresh]
              exact Or.inl rfl

omit [Fintype ι] in
/-- A get queues nothing: the work of a new granule has not been queued. -/
theorem Working.get (h : s.Working) {address : UInt64} {answers : GetAnswers}
    (hs' : s.get c address answers = some s') : s'.Working := by
  unfold GranuleRegistry.get at hs'
  split at hs'
  next hcond =>
    split at hs'
    next e s₁ hget =>
      obtain rfl := Option.some_inj.mp hs'
      obtain ⟨m, rfl, -⟩ := hyperGranuleGet_error hcond.2 hget
      exact h.of_same rfl fun _ => Iff.rfl
    next granule s₁ hget =>
      obtain rfl := Option.some_inj.mp hs'
      exact Working.beside (h.hyperGranuleGet hcond.2 hget) (beside_setCaller s₁ c _)
  next => cases hs'

omit [Fintype ι] in
theorem Working.beginPut (h : s.Working) {owned : List GranulePtr}
    (hs' : s.beginPut c owned = some s') : s'.Working := by
  unfold GranuleRegistry.beginPut at hs'
  split at hs'
  next =>
    obtain rfl := Option.some_inj.mp hs'
    exact h.beside (beside_setCaller s c _)
  next => cases hs'

theorem Working.step (h : s.Working) (hconsistent : s.Consistent) {a : GranuleAction ι}
    (hs' : s.step a = some s') : s'.Working := by
  cases a with
  | get c address answers => exact h.get hs'
  | put c owned => exact h.beginPut hs'
  | advance c =>
    obtain ⟨put, hput, hs'⟩ := Option.bind_eq_some_iff.mp hs'
    exact h.advance hconsistent hput hs'
  | startWork granule => exact h.startWork hs'
  | granuleRetire granule => exact h.granuleRetire hs'

omit [DecidableEq ι] [Fintype ι] in
theorem Working.initial : ({} : GranuleRegistry ι).Working := by
  refine ⟨List.nodup_nil, fun granule => iff_of_false List.not_mem_nil ?_, Nat.zero_le _⟩
  rintro ⟨w, hw, -⟩
  cases hw

/-- The queue is as its limit has it in every state a run reaches. -/
theorem reachable_working {as : List (GranuleAction ι)}
    (hs : runSteps GranuleRegistry.step {} as = some s) : s.Consistent ∧ s.Working :=
  runSteps_invariant (J := fun s => s.Consistent ∧ s.Working)
    (fun _ _ _ h hs' => ⟨h.1.step hs', h.2.step h.1 hs'⟩)
    ⟨Consistent.initial, Working.initial⟩ hs

end Invariant

end GranuleRegistry

end HyperIoVm
