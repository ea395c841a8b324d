import HyperIoVm.GranuleRuns

/-!
# What the granule registry guarantees (`modules/guest-memory/granules.c`)

A granule in use is imported and in the registry, a put returns when all that it took out is
retired, and a get that fails leaves nothing behind.
-/

namespace HyperIoVm

open Data GranuleRegistry

variable {ι : Type} [DecidableEq ι] [Fintype ι] {s s' : GranuleRegistry ι} {c : ι}
  {put : GranulesPut} {granule : GranulePtr} {g : Granule}

namespace GranuleRegistry

/-! ## Users -/

omit [DecidableEq ι] in
/-- A granule of the registry is imported, and its count is the number of its acquisitions. -/
theorem Consistent.users (h : s.Consistent) {index : UInt64}
    (hindex : s.granules index = some granule) : ∃ g, s.heap granule = some g ∧
      g.start = index * sz2M ∧ g.users = s.outstanding granule ∧ 0 < g.users ∧
        regionAfter s.calls g.start = .imported := by
  obtain ⟨g, hg, -, hstart, husers, hpos, hfresh⟩ := h.registered index granule hindex
  refine ⟨g, hg, hstart, husers, hpos, ?_⟩
  have hregion := h.region granule g hg
  rw [hfresh] at hregion
  exact hregion RetireCallback.noConfusion

omit [DecidableEq ι] in
/-- Nobody has acquired a granule that is not in the registry. -/
theorem Consistent.outstanding_eq_zero (h : s.Consistent) (hnot : ¬ s.Registered granule) :
    s.outstanding granule = 0 := by
  refine Nat.eq_zero_of_not_pos fun hpos => ?_
  obtain ⟨c, -, hc⟩ := Finset.exists_ne_zero_of_sum_ne_zero (Nat.ne_of_gt hpos)
  exact hnot (h.acquired c granule (Multiset.count_pos.mp (Nat.pos_of_ne_zero hc)))

omit [DecidableEq ι] in
/-- The callback runs for granules that are not registered any more. -/
theorem Consistent.retired_unregistered (h : s.Consistent)
    (hs' : s.granuleRetire granule = some s') : ¬ s.Registered granule := by
  rintro ⟨index, hindex⟩
  obtain ⟨g, hg, -, -, -, -, hfresh⟩ := h.registered index granule hindex
  unfold GranuleRegistry.granuleRetire at hs'
  rw [hg] at hs'
  dsimp only at hs'
  rw [hfresh] at hs'
  cases hs'

/-! ## Puts -/

/-- A put returns with an array of null pointers, and what it has taken out is retired. -/
theorem Consistent.put_returns (h : s.Consistent) (hput : (s.callers c).put = some put)
    (hs' : s.advance c put = some s') (hreturns : (s'.callers c).put = none) :
    put.owned = List.replicate put.count none ∧
      ∀ start n, (start, n) ∈ put.detached → Retired start (s.calls.drop n) := by
  have haccounts := h.puts c put hput
  -- every other step of the put has a next one
  have hgoes : ∀ (s₁ : GranuleRegistry ι) (put₁ : GranulesPut), s₁.setPut c put₁ = s' → False := by
    intro s₁ put₁ heq
    rw [← heq, setPut_callers_self] at hreturns
    cases hreturns
  -- so it was at the end of its last round
  have hdone : put.stage = .detach [] ∧ put.rest = [] := by
    unfold GranuleRegistry.advance at hs'
    split at hs'
    next entries hstage =>
      split at hs'
      next hdone => exact ⟨by rw [hstage, hdone.2], hdone.1⟩
      next =>
        obtain ⟨-, put₁, entries₁, hput₁, -⟩ :=
          h.detachGranules (min put.rest.length hyperGranuleRetireBatch) hput hstage
        have hs₁ := Option.some_inj.mp hs'
        unfold GranuleRegistry.detachBatch at hs₁
        dsimp only at hs₁
        rw [hput₁] at hs₁
        exact absurd hs₁ (hgoes _ _)
    next => exact absurd (Option.some_inj.mp hs') (hgoes _ _)
    next => exact absurd (Option.some_inj.mp hs') (hgoes _ _)
    next => exact absurd (Option.some_inj.mp hs') (hgoes _ _)
    next => exact absurd (Option.some_inj.mp hs') (hgoes _ _)
    next => exact absurd (Option.some_inj.mp hs') (hgoes _ _)
    next =>
      obtain ⟨s₁, -, hs₁⟩ := Option.map_eq_some_iff.mp hs'
      exact absurd hs₁ (hgoes _ _)
    next => exact absurd (Option.some_inj.mp hs') (hgoes _ _)
  obtain ⟨hstage, hrest⟩ := hdone
  have howned : put.owned = put.passed := by
    simp [GranulesPut.owned, hstage, hrest, PutStage.entries]
  constructor
  · -- all entries are passed, and none of them is left
    refine List.eq_replicate_iff.mpr ⟨haccounts.length, fun entry hentry => ?_⟩
    rw [howned] at hentry
    exact haccounts.passed entry hentry
  · -- what was detached has retired: nothing is detached now
    intro start n hmark
    rcases (haccounts.detached start n hmark).2 with hretired | ⟨granule, hmem, -⟩
    · exact hretired
    · rw [hstage] at hmem
      exact absurd hmem List.not_mem_nil

/-! ## Gets that fail -/

/-- The result of a get. -/
def getResult (s : GranuleRegistry ι) (address : UInt64) (answers : GetAnswers) :
    Except KernelError GranulePtr :=
  (s.hyperGranuleGet (address / sz2M) answers).1

omit [Fintype ι] in
/-- A get that fails changes no granule, no caller and no range. -/
theorem get_error_unchanged {address : UInt64} {answers : GetAnswers} {e : KernelError}
    (hs' : s.get c address answers = some s') (herror : s.getResult address answers = .error e) :
    s'.granules = s.granules ∧ s'.heap = s.heap ∧ s'.callers = s.callers ∧
      ∀ start, regionAfter s'.calls start = regionAfter s.calls start := by
  unfold GranuleRegistry.get at hs'
  unfold getResult at herror
  split at hs'
  next hcond =>
    split at hs'
    next e' s₁ hget =>
      obtain rfl := Option.some_inj.mp hs'
      obtain ⟨m, rfl, hundone⟩ := hyperGranuleGet_error hcond.2 hget
      exact ⟨rfl, rfl, rfl, hundone.region⟩
    next granule s₁ hget =>
      rw [hget] at herror
      cases herror
  next => cases hs'

/-- While a granule retires, a get of its range fails and does nothing. -/
theorem Consistent.get_retiring (h : s.Consistent) {c' : ι}
    (hmem : granule ∈ (s.callers c').stage.detached) (hg : s.heap granule = some g)
    (hran : g.work.callback ≠ .ran) {address : UInt64} (hstart : address / sz2M * sz2M = g.start)
    {answers : GetAnswers} (hs' : s.get c address answers = some s') :
    s' = s ∧ ∃ e, s.getResult address answers = .error e := by
  -- a granule that is still registered would own the same range
  have hnone : s.granules (address / sz2M) = none := by
    cases hindex : s.granules (address / sz2M) with
    | none => rfl
    | some other =>
      obtain ⟨g', hg', -, hstart', -, -, hfresh⟩ := h.registered _ other hindex
      have hran' : g'.work.callback ≠ .ran := by
        rw [hfresh]
        exact RetireCallback.noConfusion
      have hsame := h.sole granule g other g' hg hg' hran hran' (hstart.symm.trans hstart'.symm)
      exact absurd ⟨_, hsame ▸ hindex⟩ (h.detached c' granule hmem).1
  -- its range is claimed until it has retired
  have hbusy : regionAfter s.calls (address / sz2M * sz2M) ≠ .free := by
    rw [hstart, h.region granule g hg hran]
    cases hcallback : g.work.callback
    case ran => exact absurd hcallback hran
    all_goals exact RegionState.noConfusion
  unfold GranuleRegistry.get at hs'
  unfold getResult
  split at hs'
  next hcond =>
    have hrefused : answers.requestMemRegion = false := by
      rw [← Bool.not_eq_true]
      exact fun hgranted => hbusy (hcond.2.2 hgranted)
    -- the get fails for want of memory
    cases hkzalloc : answers.kzalloc with
    | none =>
      have hget : s.hyperGranuleGet (address / sz2M) answers = (.error .enomem, s) := by
        simp only [hyperGranuleGet, hnone, hkzalloc]
      rw [hget] at hs' ⊢
      exact ⟨(Option.some_inj.mp hs').symm, _, rfl⟩
    -- or since the range is claimed
    | some new =>
      have hget : s.hyperGranuleGet (address / sz2M) answers = (.error .ebusy, s) := by
        simp [hyperGranuleGet, hnone, hkzalloc, hrefused]
      rw [hget] at hs' ⊢
      exact ⟨(Option.some_inj.mp hs').symm, _, rfl⟩
  next => cases hs'

/-! ## Any run -/

/-- What holds in a state, and of every step from it. -/
structure Safe (s : GranuleRegistry ι) : Prop where
  /-- Nothing is used that is not allocated, and nothing freed that is in use. -/
  sound : s.fault = false
  /-- A registered granule counts the acquisitions that are not put, and there is one. -/
  users : ∀ index granule, s.granules index = some granule → ∃ g, s.heap granule = some g ∧
    g.start = index * sz2M ∧ g.users = s.outstanding granule ∧ 0 < g.users
  /-- Every call finds its range as it needs it: no range is imported twice, and the claim is held
  from before the import until after the unmap. -/
  legal : LegalCalls s.calls
  /-- Imports and unmaps go in pairs, and so do claims and releases. -/
  once : ∀ start, s.calls.count (.memremapPages start) = s.calls.count (.memunmapPages start) +
      (if regionAfter s.calls start = .imported then 1 else 0) ∧
    s.calls.count (.requestMemRegion start) = s.calls.count (.releaseMemRegion start) +
      if regionAfter s.calls start ≠ .free then 1 else 0
  /-- What somebody has acquired is registered and imported. -/
  shared : ∀ c, ∀ granule ∈ (s.callers c).acquired, ∃ index g, s.granules index = some granule ∧
    s.heap granule = some g ∧ regionAfter s.calls g.start = .imported
  /-- A granule is unmapped and released when its last user has put it. -/
  last : ∀ granule s', s.step (.granuleRetire granule) = some s' →
    s.outstanding granule = 0 ∧ ¬ s.Registered granule
  /-- A put returns with null pointers only, when every range that it has detached was unmapped and
  then released since. -/
  returns : ∀ c put s', (s.callers c).put = some put → s.step (.advance c) = some s' →
    (s'.callers c).put = none → put.owned = List.replicate put.count none ∧
      ∀ start n, (start, n) ∈ put.detached → Retired start (s.calls.drop n)
  /-- A get during the retirement of its range fails and does nothing. -/
  retiring : ∀ c, ∀ granule ∈ (s.callers c).stage.detached, ∀ g, s.heap granule = some g →
    g.work.callback ≠ .ran → ∀ c' address answers s', address / sz2M * sz2M = g.start →
      s.step (.get c' address answers) = some s' →
        s' = s ∧ ∃ e, s.getResult address answers = .error e
  /-- A get that fails changes nothing. -/
  failed : ∀ c address answers s' e, s.step (.get c address answers) = some s' →
    s.getResult address answers = .error e → s'.granules = s.granules ∧ s'.heap = s.heap ∧
      s'.callers = s.callers ∧ ∀ start, regionAfter s'.calls start = regionAfter s.calls start

theorem Consistent.safe (h : s.Consistent) : s.Safe where
  sound := h.sound
  users index granule hindex := by
    obtain ⟨g, hg, hstart, husers, hpos, -⟩ := h.users hindex
    exact ⟨g, hg, hstart, husers, hpos⟩
  legal := h.legal
  once start := ⟨h.legal.count_memunmapPages start, h.legal.count_releaseMemRegion start⟩
  shared c granule hmem := by
    obtain ⟨index, hindex⟩ := h.acquired c granule hmem
    obtain ⟨g, hg, -, -, -, hregion⟩ := h.users hindex
    exact ⟨index, g, hindex, hg, hregion⟩
  last granule s' hs' :=
    ⟨h.outstanding_eq_zero (h.retired_unregistered hs'), h.retired_unregistered hs'⟩
  returns c put s' hput hs' := by
    obtain ⟨put', hput', hs'⟩ := Option.bind_eq_some_iff.mp hs'
    obtain rfl := Option.some_inj.mp (hput.symm.trans hput')
    exact h.put_returns hput hs'
  retiring c granule hmem g hg hran c' address answers s' hstart hs' :=
    h.get_retiring hmem hg hran hstart hs'
  failed c address answers s' e hs' herror := get_error_unchanged hs' herror

/-- Whatever the callers and the workers do, in any order, and whatever the kernel refuses. -/
theorem granules_safe {as : List (GranuleAction ι)}
    (hs : runSteps GranuleRegistry.step {} as = some s) : s.Safe :=
  (reachable_consistent hs).safe

/-- The kernel allocates this, and refuses nothing. -/
def grants (granule : GranulePtr) : GetAnswers := ⟨some granule, true, .ok (), .ok ()⟩

/-- The range is busy. -/
def busy (granule : GranulePtr) : GetAnswers := ⟨some granule, false, .ok (), .ok ()⟩

/-- Two callers share a granule; the second one to put it retires it. -/
def sharedRun : List (GranuleAction Bool) :=
  [.get false 0x201000 (grants 7), .get true 0x3ff000 (busy 8), .put false [7], .advance false,
    .advance false, .advance false, .advance false, .advance false, .advance false, .put true [7],
    .advance true, .advance true, .advance true, .startWork 7, .granuleRetire 7,
    .get false 0x200000 (busy 9), .granuleRetire 7, .advance true,
    .advance true, .advance true, .advance true]

/-- Every part of it can happen. -/
theorem sharedRun_runs (n : Nat) (hn : n < 22) :
    (runSteps GranuleRegistry.step ({} : GranuleRegistry Bool)
      (sharedRun.take n)).isSome = true := by
  decide +kernel +revert

theorem granules_safe_shared : ∃ s : GranuleRegistry Bool,
    runSteps GranuleRegistry.step {} (sharedRun.take 21) = some s ∧ s.Safe :=
  ⟨_, (Option.some_get (sharedRun_runs 21 (by decide))).symm,
    granules_safe (Option.some_get (sharedRun_runs 21 (by decide))).symm⟩

end GranuleRegistry

end HyperIoVm
