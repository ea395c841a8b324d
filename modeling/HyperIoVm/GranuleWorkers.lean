import HyperIoVm.GranuleOwners

/-!
# Callers and workers (`modules/guest-memory/granules.c`)

A caller goes on by itself, and leaves the granules alone; a worker goes on with the work of one
granule, which one caller has detached. Both keep the registry consistent.
-/

namespace HyperIoVm

open GranuleRegistry

variable {ι : Type} [DecidableEq ι] [Fintype ι] {s s' : GranuleRegistry ι} {c : ι}
  {caller : GranuleCaller} {put put' : GranulesPut} {granule : GranulePtr} {g : Granule}
  {w : RetireWork} {m : List RegionCall}

namespace GranuleRegistry

/-! ## Steps of one caller -/

section Caller

omit [Fintype ι]

theorem setPut_callers_self (s : GranuleRegistry ι) (c : ι) (put : GranulesPut) :
    (s.setPut c put).callers c = { s.callers c with put := some put } := Function.update_self ..

theorem setPut_callers_of_ne {c' : ι} (hne : c' ≠ c) (s : GranuleRegistry ι) (put : GranulesPut) :
    (s.setPut c put).callers c' = s.callers c' := Function.update_of_ne hne ..

omit [DecidableEq ι] in
theorem stage_of_put (hput : (s.callers c).put = some put) : (s.callers c).stage = put.stage := by
  rw [GranuleCaller.stage, hput]
  rfl

omit [DecidableEq ι] in
theorem acquired_with_put (hput : (s.callers c).put = some put) (hrest : put'.rest = put.rest) :
    ({ s.callers c with put := some put' } : GranuleCaller).acquired =
      (s.callers c).acquired := by
  unfold GranuleCaller.acquired
  rw [hput]
  show _ + (put'.rest : Multiset GranulePtr) = _ + (put.rest : Multiset GranulePtr)
  rw [hrest]

/-- The acquisitions are the same after a caller only has another stage. -/
theorem acquired_setPut (hput : (s.callers c).put = some put) (put' : GranulesPut)
    (hrest : put'.rest = put.rest) (c' : ι) :
    ((s.setPut c put').callers c').acquired = (s.callers c').acquired := by
  by_cases hc' : c' = c
  · rw [hc', setPut_callers_self, acquired_with_put hput hrest]
  · rw [setPut_callers_of_ne hc']

end Caller

/-- A caller moves on by itself. -/
theorem Consistent.move (h : s.Consistent)
    (hacquired : caller.acquired = (s.callers c).acquired)
    (hdetached : caller.stage.detached = (s.callers c).stage.detached)
    (hput : ∀ put, caller.put = some put → put.Accounts s)
    (hmatches : ∀ granule ∈ (s.callers c).stage.detached, ∀ g, s.heap granule = some g →
      (s.callers c).stage.Matches granule g.work → caller.stage.Matches granule g.work) :
    (s.setCaller c caller).Consistent := by
  refine h.rework (c := c) ⟨rfl, rfl, rfl, (List.append_nil s.calls).symm, h.legal, hacquired,
    hdetached, fun put hc => ?_, fun _ _ => rfl, fun granule hmem g hg => ⟨g.work, ?_⟩,
    fun _ => Or.inl rfl⟩
  · exact (hput put hc).stay (List.append_nil s.calls).symm fun _ _ => rfl
  · obtain ⟨-, g', hg', hold⟩ := h.detached c granule hmem
    obtain rfl := Option.some_inj.mp (hg'.symm.trans hg)
    refine ⟨hg, hmatches granule hmem g' hg hold, id, h.region granule g' hg, ?_⟩
    exact fun hran hran' => absurd hran' hran

/-- The next stage of a put has the entries of the last one, and none of them is passed. -/
theorem Consistent.stage (h : s.Consistent) (hput : (s.callers c).put = some put)
    (hmarks : put'.detached = put.detached) (hcount : put'.count = put.count)
    (hlength : put'.owned.length = put.owned.length) (hrest : put'.rest = put.rest)
    (hpassed : ∀ entry ∈ put'.passed, entry ∈ put.passed ∨ entry = none)
    (hdetached : put'.stage.detached = put.stage.detached)
    (hmatches : ∀ granule ∈ put.stage.detached, ∀ g, s.heap granule = some g →
      put.stage.Matches granule g.work → put'.stage.Matches granule g.work) :
    (s.setPut c put').Consistent := by
  have hstage := stage_of_put hput
  have haccounts := h.puts c put hput
  refine h.move (acquired_with_put hput hrest) ?_ ?_ ?_
  · rw [hstage]
    exact hdetached
  · intro put₁ hput₁
    obtain rfl := Option.some_inj.mp hput₁
    refine haccounts.follow ?_ ?_ hmarks (List.append_nil s.calls).symm ?_
    · rw [hlength, hcount, haccounts.length]
    · intro entry hentry
      rcases hpassed entry hentry with hold | hnone
      · exact haccounts.passed entry hold
      · exact hnone
    · intro granule hmem g hg n hn hprogress
      exact Or.inr ⟨granule, hdetached ▸ hmem, g, hg, rfl, hprogress⟩
  · rw [hstage]
    exact hmatches

/-! ## The work of a detached granule -/

/-- The work of one detached granule goes on, and its range with it. -/
theorem Consistent.setWork (h : s.Consistent) (hmem : granule ∈ (s.callers c).stage.detached)
    (hg : s.heap granule = some g) (hran : g.work.callback ≠ .ran)
    (hcallers : s'.callers = Function.update s.callers c caller)
    (hgranules : s'.granules = s.granules) (hfault : s'.fault = s.fault)
    (hheap : s'.heap = Function.update s.heap granule (some { g with work := w }))
    (hcalls : s'.calls = s.calls ++ m) (hlegal : LegalCalls s'.calls)
    (hacquired : caller.acquired = (s.callers c).acquired)
    (hdetached : caller.stage.detached = (s.callers c).stage.detached)
    (hput : ∀ put, caller.put = some put → put.Accounts s')
    (hfits : caller.stage.Matches granule w)
    (hothers : ∀ other ≠ granule, ∀ w', (s.callers c).stage.Matches other w' →
      caller.stage.Matches other w')
    (hregion : regionAfter s'.calls g.start = w.callback.region)
    (hregions : ∀ start ≠ g.start, regionAfter s'.calls start = regionAfter s.calls start) :
    s'.Consistent := by
  refine h.rework ⟨hcallers, hgranules, hfault, hcalls, hlegal, hacquired, hdetached, hput, ?_, ?_,
    ?_⟩
  · intro other hother
    have hne : other ≠ granule := fun heq => hother (by rw [heq]; exact hmem)
    rw [hheap, Function.update_of_ne hne]
  · intro other hother g' hg'
    by_cases heq : other = granule
    · subst heq
      obtain rfl := Option.some_inj.mp (hg.symm.trans hg')
      refine ⟨w, ?_, hfits, fun _ => hran, fun _ => hregion, fun _ hw => ?_⟩
      · rw [hheap, Function.update_self]
      · rw [hregion, hw]
        rfl
    · obtain ⟨-, g₁, hg₁, hold⟩ := h.detached c other hother
      obtain rfl := Option.some_inj.mp (hg₁.symm.trans hg')
      have hsame : g₁.work.callback ≠ .ran →
          regionAfter s'.calls g₁.start = regionAfter s.calls g₁.start := fun hran₁ =>
        hregions _ fun hstart => heq (h.sole other g₁ granule g hg' hg hran₁ hran hstart)
      refine ⟨g₁.work, ?_, hothers other heq _ hold, id, fun hran₁ => ?_, ?_⟩
      · rw [hheap, Function.update_of_ne heq, hg']
      · rw [hsame hran₁, h.region other g₁ hg' hran₁]
      · exact fun hran₁ hw => absurd hw hran₁
  · intro start
    by_cases hstart : start = g.start
    · exact Or.inr ⟨granule, hmem, g, hg, hran, hstart.symm⟩
    · exact Or.inl (hregions start hstart)

omit [DecidableEq ι] [Fintype ι] in
/-- The accounts while the work of one granule goes on. -/
theorem accounts_setWork (haccounts : put.Accounts s) (hg : s.heap granule = some g)
    (hheap : s'.heap = Function.update s.heap granule (some { g with work := w }))
    (hcalls : s'.calls = s.calls ++ m) (hlength : put'.owned.length = put'.count)
    (hpassed : ∀ entry ∈ put'.passed, entry = none) (hmarks : put'.detached = put.detached)
    (hdetached : put'.stage.detached = put.stage.detached)
    (hprogress : ∀ n ≤ s.calls.length, g.work.callback.Progress g.start (s.calls.drop n) →
      w.callback.Progress g.start (s'.calls.drop n)) : put'.Accounts s' := by
  refine haccounts.follow hlength hpassed hmarks hcalls ?_
  intro other hother g' hg' n hn hprogress'
  right
  refine ⟨other, hdetached ▸ hother, ?_⟩
  by_cases heq : other = granule
  · subst heq
    obtain rfl := Option.some_inj.mp (hg.symm.trans hg')
    refine ⟨{ g with work := w }, ?_, rfl, hprogress n hn hprogress'⟩
    rw [hheap, Function.update_self]
  · refine ⟨g', by rw [hheap, Function.update_of_ne heq, hg'], rfl, ?_⟩
    rw [hcalls, drop_append_of_le hn]
    exact hprogress'.append m

/-- A worker goes on with work that has been queued. -/
theorem Consistent.worker (h : s.Consistent) (hg : s.heap granule = some g) (hwork : g.work ≠ {})
    (hran : g.work.callback ≠ .ran) (hw : w.pending = false) (hw' : w.callback ≠ .notRun)
    (hlegal : LegalCalls (s.calls ++ m))
    (hregion : regionAfter (s.calls ++ m) g.start = w.callback.region)
    (hregions : ∀ start ≠ g.start, regionAfter (s.calls ++ m) start = regionAfter s.calls start)
    (hprogress : ∀ n ≤ s.calls.length, g.work.callback.Progress g.start (s.calls.drop n) →
      w.callback.Progress g.start ((s.calls ++ m).drop n)) (active : List GranulePtr) :
    { s.setGranule granule (some { g with work := w }) with
      calls := s.calls ++ m, active }.Consistent := by
  rcases h.placed granule g hg with ⟨index, hindex⟩ | ⟨c, hmem⟩
  · obtain ⟨g', hg', -, -, -, -, hfresh⟩ := h.registered index granule hindex
    obtain rfl := Option.some_inj.mp (hg'.symm.trans hg)
    exact absurd hfresh hwork
  obtain ⟨-, g', hg', hmatches⟩ := h.detached c granule hmem
  obtain rfl := Option.some_inj.mp (hg'.symm.trans hg)
  refine h.setWork hmem hg hran (Function.update_eq_self c s.callers).symm rfl rfl rfl rfl hlegal
    rfl rfl ?_ ?_ (fun _ _ _ hold => hold) hregion hregions
  · intro put hput
    have haccounts := h.puts c put hput
    exact accounts_setWork haccounts hg rfl rfl haccounts.length haccounts.passed rfl rfl hprogress
  · refine ⟨fun hunqueued => ?_, fun _ => ?_, fun hflushed => ?_⟩
    · exact absurd (hmatches.unqueued hunqueued) hwork
    · rw [hw]
      exact ⟨fun hfalse => absurd hfalse Bool.false_ne_true, fun hnot => absurd hnot hw'⟩
    · exact absurd (hmatches.flushed hflushed).2 hran

omit [DecidableEq ι] in
/-- Work that is pending has been queued, and has not run. -/
theorem Consistent.pending (h : s.Consistent) (hg : s.heap granule = some g)
    (hpending : g.work.pending = true) : g.work.callback = .notRun := by
  rcases h.placed granule g hg with ⟨index, hindex⟩ | ⟨c, hmem⟩
  · obtain ⟨g', hg', -, -, -, -, hfresh⟩ := h.registered index granule hindex
    obtain rfl := Option.some_inj.mp (hg'.symm.trans hg)
    rw [hfresh]
  obtain ⟨-, g', hg', hmatches⟩ := h.detached c granule hmem
  obtain rfl := Option.some_inj.mp (hg'.symm.trans hg)
  rcases PutStage.mem_detached.mp hmem with hunqueued | hqueued | hflushed
  · rw [hmatches.unqueued hunqueued]
  · exact (hmatches.queued hqueued).mp hpending
  · rw [(hmatches.flushed hflushed).1] at hpending
    exact absurd hpending Bool.false_ne_true

omit [DecidableEq ι] in
/-- Work that runs is not pending. -/
theorem Consistent.running (h : s.Consistent) (hg : s.heap granule = some g)
    (hcallback : g.work.callback ≠ .notRun) : g.work.pending = false := by
  rw [← Bool.not_eq_true]
  exact fun hpending => hcallback (h.pending hg hpending)

omit [DecidableEq ι] [Fintype ι] in
/-- What a worker does when it takes up work. -/
theorem startWork_eq_some (hs' : s.startWork granule = some s') : ∃ g, s.heap granule = some g ∧
    s.active.length < hyperGranuleRetireBatch ∧ g.work.pending = true ∧
      (g.work.callback = .notRun ∨ g.work.callback = .ran) ∧
        s' = { s.setGranule granule
            (some { g with work := { pending := false, callback := .unmapping } }) with
          active := s.active ++ [granule] } := by
  unfold GranuleRegistry.startWork at hs'
  split at hs'
  next => cases hs'
  next g hg =>
    split at hs'
    next hcond =>
      exact ⟨g, hg, hcond.1, hcond.2.1, hcond.2.2, (Option.some_inj.mp hs').symm⟩
    next => cases hs'

omit [DecidableEq ι] [Fintype ι] in
/-- What it does while the callback runs. -/
theorem granuleRetire_eq_some (hs' : s.granuleRetire granule = some s') :
    ∃ g, s.heap granule = some g ∧
      (g.work.callback = .unmapping ∧ s' = (s.kernel (.memunmapPages g.start)).setGranule granule
          (some { g with work := { g.work with callback := .releasing } }) ∨
        g.work.callback = .releasing ∧
          s' = { (s.kernel (.releaseMemRegion g.start)).setGranule granule
              (some { g with work := { g.work with callback := .ran } }) with
            active := s.active.erase granule }) := by
  unfold GranuleRegistry.granuleRetire at hs'
  split at hs'
  next => cases hs'
  next g hg =>
    split at hs'
    next hcallback => exact ⟨g, hg, .inl ⟨hcallback, (Option.some_inj.mp hs').symm⟩⟩
    next hcallback => exact ⟨g, hg, .inr ⟨hcallback, (Option.some_inj.mp hs').symm⟩⟩
    next => cases hs'
    next => cases hs'

theorem Consistent.startWork (h : s.Consistent) (hs' : s.startWork granule = some s') :
    s'.Consistent := by
  obtain ⟨g, hg, -, hpending, -, rfl⟩ := startWork_eq_some hs'
  have hnotRun := h.pending hg hpending
  have hne : g.work ≠ {} := by
    intro heq
    rw [heq] at hpending
    exact Bool.false_ne_true hpending
  have hran : g.work.callback ≠ .ran := by
    rw [hnotRun]
    exact RetireCallback.noConfusion
  have hregion := h.region granule g hg hran
  rw [hnotRun] at hregion
  have hnil := List.append_nil s.calls
  have hworker := h.worker (w := { pending := false, callback := .unmapping }) (m := []) hg
    hne hran rfl RetireCallback.noConfusion (by rw [hnil]; exact h.legal)
    (by rw [hnil]; exact hregion) (fun start _ => by rw [hnil]) (fun _ _ _ => trivial)
    (s.active ++ [granule])
  rw [hnil] at hworker
  exact hworker

/-- The callback makes its next call. -/
theorem Consistent.call (h : s.Consistent) (hg : s.heap granule = some g) (call : RegionCall)
    (callback : RetireCallback) (hnotRun : g.work.callback ≠ .notRun)
    (hran : g.work.callback ≠ .ran) (hcallback : callback ≠ .notRun) (hstart : call.start = g.start)
    (hneeds : g.work.callback.region = call.needs) (hleaves : call.leaves = callback.region)
    (hprogress : ∀ calls, g.work.callback.Progress g.start calls →
      callback.Progress g.start (calls ++ [call])) (active : List GranulePtr) :
    { s.setGranule granule (some { g with work := { g.work with callback } }) with
      calls := s.calls ++ [call], active }.Consistent := by
  have hne : g.work ≠ {} := fun heq => hnotRun (by rw [heq])
  have hregion := (h.region granule g hg hran).trans hneeds
  rw [← hstart] at hregion
  refine h.worker (w := { g.work with callback }) (m := [call]) hg hne hran (h.running hg hnotRun)
    hcallback (legalCalls_snoc.mpr ⟨h.legal, hregion⟩) ?_ (fun start hother => ?_) ?_ active
  · rw [← hstart, ← hleaves]
    exact regionAfter_snoc_self _ _
  · exact regionAfter_snoc_of_ne fun heq => hother (heq.symm.trans hstart)
  · intro n hn hold
    rw [drop_append_of_le hn]
    exact hprogress _ hold

theorem Consistent.granuleRetire (h : s.Consistent) (hs' : s.granuleRetire granule = some s') :
    s'.Consistent := by
  obtain ⟨g, hg, ⟨hcallback, rfl⟩ | ⟨hcallback, rfl⟩⟩ := granuleRetire_eq_some hs'
  · have hne {callback : RetireCallback} (hother : callback ≠ .unmapping) :
        g.work.callback ≠ callback := fun heq => hother (heq.symm.trans hcallback)
    refine h.call hg (.memunmapPages g.start) .releasing
      (hne RetireCallback.noConfusion) (hne RetireCallback.noConfusion) RetireCallback.noConfusion
      rfl (by rw [hcallback]; rfl) rfl (fun calls _ => ?_) s.active
    exact List.mem_append_right _ List.mem_cons_self
  · have hne {callback : RetireCallback} (hother : callback ≠ .releasing) :
        g.work.callback ≠ callback := fun heq => hother (heq.symm.trans hcallback)
    refine h.call hg (.releaseMemRegion g.start) .ran
      (hne RetireCallback.noConfusion) (hne RetireCallback.noConfusion) RetireCallback.noConfusion
      rfl (by rw [hcallback]; rfl) rfl (fun calls hold => ?_) (s.active.erase granule)
    rw [hcallback] at hold
    exact retired_snoc hold

end GranuleRegistry

end HyperIoVm
