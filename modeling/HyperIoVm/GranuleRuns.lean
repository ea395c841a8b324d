import HyperIoVm.Data.Steps
import HyperIoVm.GranulePuts

/-!
# The granule registry over any run (`modules/guest-memory/granules.c`)

Every step of a caller and of a worker keeps the registry consistent, whatever order they come in
and whatever the kernel refuses.
-/

namespace HyperIoVm

open Data GranuleRegistry

variable {ι : Type} [DecidableEq ι] [Fintype ι] {s s' : GranuleRegistry ι} {c : ι}
  {caller : GranuleCaller} {put put' : GranulesPut} {granule : GranulePtr} {g : Granule}
  {w : RetireWork} {m : List RegionCall}

namespace GranuleRegistry

/-! ## Every step -/

/-- The index of a range gives back its start. -/
theorem index_of_start (address : UInt64) : address / sz2M * sz2M / sz2M = address / sz2M := by
  have hle : address.toNat / 2097152 * 2097152 ≤ address.toNat := Nat.div_mul_le_self _ _
  have hlt := address.toNat_lt
  have hmul : (address / sz2M * sz2M).toNat = address.toNat / 2097152 * 2097152 := by
    rw [UInt64.toNat_mul, UInt64.toNat_div]
    exact Nat.mod_eq_of_lt (Nat.lt_of_le_of_lt hle hlt)
  apply UInt64.toNat_inj.mp
  rw [UInt64.toNat_div, hmul, UInt64.toNat_div]
  exact Nat.mul_div_cancel _ (by decide)

/-- Calls that are undone. -/
theorem Consistent.calls (h : s.Consistent) (c : ι) (hundone : Undone s.calls m) :
    { s with calls := s.calls ++ m }.Consistent := by
  refine h.rework (c := c) ⟨(Function.update_eq_self c s.callers).symm, rfl, rfl, rfl,
    hundone.legal h.legal, rfl, rfl, ?_, fun _ _ => rfl, ?_,
    fun start => Or.inl (hundone.region start)⟩
  · exact fun put hput => (h.puts c put hput).stay rfl fun _ _ => rfl
  · intro granule hmem g hg
    obtain ⟨-, g', hg', hold⟩ := h.detached c granule hmem
    obtain rfl := Option.some_inj.mp (hg'.symm.trans hg)
    refine ⟨g'.work, hg, hold, id, fun hran => ?_, fun hran hran' => absurd hran' hran⟩
    exact (hundone.region g'.start).trans (h.region granule g' hg hran)

omit [DecidableEq ι] [Fintype ι] in
/-- A get that fails undoes what it has done. -/
theorem hyperGranuleGet_error {index : UInt64} {answers : GetAnswers} {e : KernelError}
    (hanswers : s.Answers index answers)
    (hs' : s.hyperGranuleGet index answers = (.error e, s')) :
    ∃ m, s' = { s with calls := s.calls ++ m } ∧ Undone s.calls m := by
  have hnothing : s = { s with calls := s.calls ++ [] } := by rw [List.append_nil]
  unfold hyperGranuleGet at hs'
  split at hs'
  -- the granule is there already
  next => cases hs'
  next =>
    split at hs'
    -- no memory for it
    next =>
      cases hs'
      exact ⟨[], hnothing, Undone.nil _⟩
    next =>
      dsimp only at hs'
      split at hs'
      -- its range is not free
      next =>
        cases hs'
        exact ⟨[], hnothing, Undone.nil _⟩
      next hgranted =>
        have hfree := hanswers.2 (by simpa using hgranted)
        split at hs'
        -- it could not be imported, so the claim is released
        next =>
          cases hs'
          refine ⟨_, ?_, Undone.claim hfree⟩
          simp [kernel]
        next =>
          split at hs'
          -- it could not be stored, so the import is undone
          next =>
            cases hs'
            refine ⟨_, ?_, Undone.importPages hfree⟩
            simp [kernel]
          next => cases hs'

/-- The caller has one acquisition more. -/
theorem outstanding_snoc (hcallers : s'.callers = Function.update s.callers c caller)
    (hacquired : caller.acquired = granule ::ₘ (s.callers c).acquired) :
    s'.outstanding granule = s.outstanding granule + 1 := by
  have hcount := outstanding_update hcallers granule
  rw [hacquired, Multiset.count_cons_self] at hcount
  omega

omit [DecidableEq ι] [Fintype ι] in
theorem acquired_held (caller : GranuleCaller) (granule : GranulePtr) :
    ({ caller with held := granule ::ₘ caller.held } : GranuleCaller).acquired =
      granule ::ₘ caller.acquired := Multiset.cons_add _ _ _

/-- A get that joins a granule of the registry. -/
theorem Consistent.join (h : s.Consistent) {index : UInt64}
    (hindex : s.granules index = some granule) (c : ι) :
    ((s.modifyGranule granule fun g => { g with users := g.users + 1 }).setCaller c
      { s.callers c with held := granule ::ₘ (s.callers c).held }).Consistent := by
  obtain ⟨g, hg, -, -, husers, -, -⟩ := h.registered index granule hindex
  unfold modifyGranule
  rw [hg]
  refine h.setUsers (g.users + 1) (c := c) hindex hg rfl rfl rfl rfl rfl ?_
    (Nat.succ_pos _) ?_ rfl (fun _ _ hmatches => hmatches) ?_
  · rw [husers]
    exact (outstanding_snoc rfl (acquired_held _ _)).symm
  · intro other hne
    rw [acquired_held, Multiset.count_cons_of_ne hne]
  · intro put hput
    refine (h.puts c put hput).stay (List.append_nil s.calls).symm fun other hother => ?_
    refine Function.update_of_ne ?_ _ _
    rintro rfl
    refine (h.detached c other ?_).1 ⟨index, hindex⟩
    rw [stage_of_put hput]
    exact hother

/-- A caller has imported the range at `start` with a new granule. -/
structure Imported (s s' : GranuleRegistry ι) (c : ι) (granule : GranulePtr)
    (address start : UInt64) : Prop where
  callers : s'.callers = Function.update s.callers c
    { s.callers c with held := granule ::ₘ (s.callers c).held }
  granules : s'.granules = Function.update s.granules (address / sz2M) (some granule)
  heap : s'.heap = Function.update s.heap granule (some { start, users := 1 })
  calls : s'.calls = s.calls ++ [.requestMemRegion start, .memremapPages start]
  fault : s'.fault = s.fault

section Import

variable {address start : UInt64}

omit [Fintype ι] in
theorem Imported.heap_self (hs' : Imported s s' c granule address start) :
    s'.heap granule = some { start, users := 1 } := by rw [hs'.heap, Function.update_self]

omit [Fintype ι] in
theorem Imported.heap_of_ne (hs' : Imported s s' c granule address start) {other : GranulePtr}
    (hne : other ≠ granule) : s'.heap other = s.heap other := by
  rw [hs'.heap, Function.update_of_ne hne]

omit [Fintype ι] in
theorem Imported.registered (hs' : Imported s s' c granule address start) :
    s'.Registered granule := ⟨address / sz2M, by rw [hs'.granules, Function.update_self]⟩

omit [Fintype ι] in
/-- The range is imported, and the others are as they were. -/
theorem Imported.region (hs' : Imported s s' c granule address start) (other : UInt64) :
    regionAfter s'.calls other =
      if start = other then .imported else regionAfter s.calls other := by
  rw [hs'.calls, List.append_cons, regionAfter_snoc, regionAfter_snoc]
  by_cases hother : start = other
  · rw [if_pos hother]
    exact if_pos hother
  · rw [if_neg hother]
    exact (if_neg hother).trans (if_neg hother)

theorem Imported.legal (hs' : Imported s s' c granule address start) (h : s.Consistent)
    (hfree : regionAfter s.calls start = .free) : LegalCalls s'.calls := by
  rw [hs'.calls, List.append_cons]
  refine legalCalls_snoc.mpr ⟨legalCalls_snoc.mpr ⟨h.legal, hfree⟩, ?_⟩
  exact regionAfter_snoc_self (.requestMemRegion start) _

omit [DecidableEq ι] in
/-- What is not allocated is not in the registry, and nobody has detached it. -/
theorem Consistent.unallocated (h : s.Consistent) (hheap : s.heap granule = none) :
    ¬ s.Registered granule ∧ ∀ c, granule ∉ (s.callers c).stage.detached := by
  constructor
  · rintro ⟨index, hindex⟩
    obtain ⟨g, hg, -⟩ := h.registered index granule hindex
    rw [hheap] at hg
    cases hg
  · intro c hmem
    obtain ⟨-, g, hg, -⟩ := h.detached c granule hmem
    rw [hheap] at hg
    cases hg

omit [DecidableEq ι] in
/-- No granule that is not retired has a range that is free. -/
theorem Consistent.start_ne_of_free (h : s.Consistent) (hfree : regionAfter s.calls start = .free)
    (hg : s.heap granule = some g) (hran : g.work.callback ≠ .ran) : g.start ≠ start := by
  intro heq
  have hold := h.region granule g hg hran
  rw [heq, hfree] at hold
  cases hcallback : g.work.callback <;> rw [hcallback] at hold hran
  case ran => exact hran rfl
  all_goals cases hold

/-- The new granule fits in. -/
theorem Imported.fits (hs' : Imported s s' c granule address start) (h : s.Consistent)
    (hstart : start = address / sz2M * sz2M) (hheap : s.heap granule = none)
    (hfree : regionAfter s.calls start = .free) : s'.Fits granule c := by
  obtain ⟨hnew, hnot⟩ := h.unallocated hheap
  have hself := hs'.heap_self
  constructor
  case registered =>
    intro index hindex
    -- the caller is its first user
    have hcount := outstanding_snoc hs'.callers (acquired_held (s.callers c) granule)
    have hzero : s.outstanding granule = 0 := by
      refine Nat.eq_zero_of_not_pos fun hpos => ?_
      obtain ⟨c', -, hc'⟩ := Finset.exists_ne_zero_of_sum_ne_zero (Nat.ne_of_gt hpos)
      exact hnew (h.acquired c' granule (Multiset.count_pos.mp (Nat.pos_of_ne_zero hc')))
    have heq : index = address / sz2M := by
      by_contra hne
      rw [hs'.granules, Function.update_of_ne hne] at hindex
      exact hnew ⟨index, hindex⟩
    refine ⟨_, hself, ?_, ?_, ?_, Nat.one_pos, rfl⟩
    · rw [heq, hstart]
      exact index_of_start address
    · rw [heq]
      exact hstart
    · rw [hcount, hzero]
  case acquired => exact fun _ _ => hs'.registered
  case detached =>
    intro hmem
    rw [hs'.callers, Function.update_self] at hmem
    exact absurd hmem (hnot c)
  case placed => exact fun _ _ => Or.inl hs'.registered
  case region =>
    intro g hg _
    obtain rfl := Option.some_inj.mp (hself.symm.trans hg)
    rw [hs'.region, if_pos rfl]
    rfl
  -- a range that was free is that of no other granule
  case sole =>
    intro g hg _ other hne g' hg' hran'
    obtain rfl := Option.some_inj.mp (hself.symm.trans hg)
    rw [hs'.heap_of_ne hne] at hg'
    exact (h.start_ne_of_free hfree hg' hran').symm

/-- A get that imports a range, which is free. -/
theorem Consistent.imported (h : s.Consistent) (hs' : Imported s s' c granule address start)
    (hstart : start = address / sz2M * sz2M) (hindex : s.granules (address / sz2M) = none)
    (hheap : s.heap granule = none) (hfree : regionAfter s.calls start = .free) :
    s'.Consistent := by
  obtain ⟨-, hnot⟩ := h.unallocated hheap
  refine h.change granule ⟨hs'.callers, hs'.fault, hs'.calls, hs'.legal h hfree,
    fun other hne => hs'.heap_of_ne hne, ?_, ?_, fun _ _ => Iff.rfl, fun _ _ _ hmatches => hmatches,
    h.nodup c, ?_, ?_, ?_, fun c' _ => hnot c', hs'.fits h hstart hheap hfree⟩
  · -- the table has one entry more
    intro other hne index
    rw [hs'.granules]
    by_cases heq : index = address / sz2M
    · rw [heq, Function.update_self, hindex]
      constructor
      · exact fun hsome => absurd (Option.some_inj.mp hsome).symm hne
      · exact fun hsome => absurd hsome.symm (Option.some_ne_none _)
    · rw [Function.update_of_ne heq]
  · -- the others are acquired as before
    intro other hne
    rw [acquired_held, Multiset.count_cons_of_ne hne]
  · -- a put that is under way has not detached it
    intro put hput
    refine (h.puts c put hput).stay hs'.calls fun other hother => hs'.heap_of_ne ?_
    rintro rfl
    refine hnot c ?_
    rw [stage_of_put hput]
    exact hother
  · intro other _ g hg hran
    rw [hs'.region, if_neg (h.start_ne_of_free hfree hg hran).symm]
  · -- a claimed range has its granule
    intro other hbusy
    rw [hs'.region] at hbusy
    by_cases heq : start = other
    · exact Or.inl ⟨_, hs'.heap_self, heq, RetireCallback.noConfusion⟩
    · rw [if_neg heq] at hbusy
      obtain ⟨granule', g, hg, hrest⟩ := h.occupied other hbusy
      refine Or.inr ⟨granule', ?_, g, hg, hrest⟩
      rintro rfl
      rw [hheap] at hg
      cases hg

end Import

/-- A caller gets a granule, or an error. -/
theorem Consistent.get (h : s.Consistent) {address : UInt64} {answers : GetAnswers}
    (hs' : s.get c address answers = some s') : s'.Consistent := by
  unfold GranuleRegistry.get at hs'
  split at hs'
  next hcond =>
    split at hs'
    -- the get has failed, and what it had done is undone
    next e s₁ hget =>
      obtain rfl := Option.some_inj.mp hs'
      obtain ⟨m, rfl, hundone⟩ := hyperGranuleGet_error hcond.2 hget
      exact h.calls c hundone
    next granule s₁ hget =>
      obtain rfl := Option.some_inj.mp hs'
      unfold hyperGranuleGet at hget
      split at hget
      -- the granule is there, and gets one user more
      next granule' hindex =>
        cases hget
        have hjoin := h.join hindex c
        unfold modifyGranule at hjoin ⊢
        obtain ⟨g, hg, -⟩ := h.registered _ granule hindex
        rw [hg] at hjoin ⊢
        exact hjoin
      next hindex =>
        split at hget
        next => cases hget
        next granule' hkzalloc =>
          dsimp only at hget
          split at hget
          next => cases hget
          next hgranted =>
            split at hget
            next => cases hget
            next =>
              split at hget
              next => cases hget
              -- it is new
              next =>
                cases hget
                have hfree := hcond.2.2 (by simpa using hgranted)
                have hcalls (start : UInt64) : s.calls ++ [.requestMemRegion start] ++
                    [.memremapPages start] = s.calls ++ [.requestMemRegion start,
                      .memremapPages start] := List.append_assoc ..
                exact h.imported (c := c) ⟨rfl, rfl, rfl, hcalls _, rfl⟩ rfl hindex
                  (hcond.2.1 granule hkzalloc) hfree
  next => cases hs'

/-- A caller begins to put what it holds. -/
theorem Consistent.beginPut (h : s.Consistent) {owned : List GranulePtr}
    (hs' : s.beginPut c owned = some s') : s'.Consistent := by
  unfold GranuleRegistry.beginPut at hs'
  split at hs'
  next hcond =>
    obtain rfl := Option.some_inj.mp hs'
    refine h.move ?_ ?_ ?_ ?_
    · unfold GranuleCaller.acquired
      rw [hcond.1]
      show (s.callers c).held - owned + (owned : Multiset GranulePtr) = (s.callers c).held + 0
      rw [Multiset.sub_add_cancel hcond.2, add_zero]
    · unfold GranuleCaller.stage
      rw [hcond.1]
      rfl
    · intro put hput
      obtain rfl := Option.some_inj.mp hput
      refine ⟨?_, fun entry hentry => absurd hentry List.not_mem_nil,
        fun start n hmark => absurd hmark List.not_mem_nil⟩
      simp [GranulesPut.owned, PutStage.entries]
    · intro granule hmem
      unfold GranuleCaller.stage at hmem
      rw [hcond.1] at hmem
      exact absurd hmem List.not_mem_nil
  next => cases hs'

/-- The invariant of the step function. -/
theorem Consistent.step (h : s.Consistent) {a : GranuleAction ι} (hs' : s.step a = some s') :
    s'.Consistent := by
  cases a with
  | get c address answers => exact h.get hs'
  | put c owned => exact h.beginPut hs'
  | advance c =>
    obtain ⟨put, hput, hs'⟩ := Option.bind_eq_some_iff.mp hs'
    exact h.advance hput hs'
  | startWork granule => exact h.startWork hs'
  | granuleRetire granule => exact h.granuleRetire hs'

omit [DecidableEq ι] in
theorem Consistent.initial : ({} : GranuleRegistry ι).Consistent := by
  refine ⟨rfl, legalCalls_nil, ?_, ?_, ?_, ?_, ?_, ?_, ?_, ?_, ?_, ?_⟩
  · exact fun _ _ hindex => by cases hindex
  · exact fun _ granule hmem => absurd hmem (Multiset.notMem_zero granule)
  · exact fun _ _ hmem => absurd hmem List.not_mem_nil
  · exact fun _ => List.nodup_nil
  · exact fun _ _ _ hmem => absurd hmem List.not_mem_nil
  · exact fun _ _ hg => by cases hg
  · exact fun _ _ hg => by cases hg
  · exact fun _ _ _ _ hg => by cases hg
  · exact fun _ hfree => absurd rfl hfree
  · exact fun _ _ hput => by cases hput

/-- The registry is consistent in every state a run reaches. -/
theorem reachable_consistent {as : List (GranuleAction ι)}
    (hs : runSteps GranuleRegistry.step {} as = some s) : s.Consistent :=
  runSteps_invariant (fun _ _ _ h hs' => h.step hs') Consistent.initial hs

end GranuleRegistry

end HyperIoVm
