import Mathlib.Algebra.BigOperators.Group.Finset.Basic
import Mathlib.Data.List.ReduceOption
import HyperIoVm.GranuleCalls

/-!
# Who has a granule (`modules/guest-memory/granules.c`)

A granule is in the registry while somebody has acquired it and not put it; then it is in the array
of exactly one `hyper_granules_put`, which has its work queued, waits for it and frees it. A range
belongs to one granule as long as its callback has not run, so nobody imports it in between.
-/

namespace HyperIoVm

/-! ## Acquisitions and detached granules -/

/-- The acquisitions of a caller that are not put yet. -/
def GranuleCaller.acquired (caller : GranuleCaller) : Multiset GranulePtr :=
  caller.held + (caller.put.elim [] (·.rest) : List GranulePtr)

/-- Where the caller stands; who puts nothing has nothing detached. -/
def GranuleCaller.stage (caller : GranuleCaller) : PutStage :=
  caller.put.elim (.detach []) (·.stage)

/-- The granules that the round has detached and not freed. -/
def PutStage.detached (stage : PutStage) : List GranulePtr := stage.entries.reduceOption

def PutStage.unqueued : PutStage → List GranulePtr
  | .detach entries => entries.reduceOption
  | .queueWork _ unqueued => unqueued.reduceOption
  | .flushWork _ | .free _ _ => []

def PutStage.queued : PutStage → List GranulePtr
  | .detach _ => []
  | .queueWork queued _ => queued.reduceOption
  | .flushWork unflushed | .free _ unflushed => unflushed.reduceOption

def PutStage.flushed : PutStage → List GranulePtr
  | .free granule _ => [granule]
  | .detach _ | .queueWork _ _ | .flushWork _ => []

/-- The work of a detached granule is as the stage has it: it is queued once. -/
structure PutStage.Matches (stage : PutStage) (granule : GranulePtr) (w : RetireWork) : Prop where
  unqueued : granule ∈ stage.unqueued → w = {}
  queued : granule ∈ stage.queued → (w.pending = true ↔ w.callback = .notRun)
  flushed : granule ∈ stage.flushed → w.pending = false ∧ w.callback = .ran

namespace GranuleRegistry

variable {ι : Type}

/-- How many acquisitions of a granule are not put yet. -/
def outstanding [Fintype ι] (s : GranuleRegistry ι) (granule : GranulePtr) : Nat :=
  ∑ c, (s.callers c).acquired.count granule

/-- The granule is in the registry. -/
def Registered (s : GranuleRegistry ι) (granule : GranulePtr) : Prop :=
  ∃ index, s.granules index = some granule

end GranuleRegistry

/-- What a `hyper_granules_put` has done so far: the array keeps its length, what is passed is
null, and what is not in the round any more is retired. -/
structure GranulesPut.Accounts {ι : Type} (put : GranulesPut) (s : GranuleRegistry ι) : Prop where
  length : put.owned.length = put.count
  passed : ∀ entry ∈ put.passed, entry = none
  detached : ∀ start n, (start, n) ∈ put.detached → n ≤ s.calls.length ∧
    (Retired start (s.calls.drop n) ∨ ∃ granule ∈ put.stage.detached, ∃ g,
      s.heap granule = some g ∧ g.start = start ∧
        g.work.callback.Progress start (s.calls.drop n))

/-! ## The invariant -/

/-- The registry, the callers and the workers agree. -/
structure GranuleRegistry.Consistent {ι : Type} [Fintype ι] (s : GranuleRegistry ι) : Prop where
  sound : s.fault = false
  legal : LegalCalls s.calls
  registered : ∀ index granule, s.granules index = some granule → ∃ g,
    s.heap granule = some g ∧ g.start / sz2M = index ∧ g.start = index * sz2M ∧
      g.users = s.outstanding granule ∧ 0 < g.users ∧ g.work = {}
  acquired : ∀ c, ∀ granule ∈ (s.callers c).acquired, s.Registered granule
  detached : ∀ c, ∀ granule ∈ (s.callers c).stage.detached, ¬ s.Registered granule ∧
    ∃ g, s.heap granule = some g ∧ (s.callers c).stage.Matches granule g.work
  nodup : ∀ c, (s.callers c).stage.detached.Nodup
  apart : ∀ c c', ∀ granule ∈ (s.callers c).stage.detached,
    granule ∈ (s.callers c').stage.detached → c = c'
  placed : ∀ granule g, s.heap granule = some g →
    s.Registered granule ∨ ∃ c, granule ∈ (s.callers c).stage.detached
  region : ∀ granule g, s.heap granule = some g → g.work.callback ≠ .ran →
    regionAfter s.calls g.start = g.work.callback.region
  sole : ∀ granule g granule' g', s.heap granule = some g → s.heap granule' = some g' →
    g.work.callback ≠ .ran → g'.work.callback ≠ .ran → g.start = g'.start → granule = granule'
  occupied : ∀ start, regionAfter s.calls start ≠ .free → ∃ granule g,
    s.heap granule = some g ∧ g.start = start ∧ g.work.callback ≠ .ran
  puts : ∀ c put, (s.callers c).put = some put → put.Accounts s

/-! ## Counting -/

namespace GranuleRegistry

variable {ι : Type} [DecidableEq ι] {s : GranuleRegistry ι} {c : ι} {caller : GranuleCaller}
  {granule : GranulePtr}

theorem outstanding_update [Fintype ι] {s s' : GranuleRegistry ι}
    (h : s'.callers = Function.update s.callers c caller) (granule : GranulePtr) :
    s'.outstanding granule + (s.callers c).acquired.count granule =
      s.outstanding granule + caller.acquired.count granule := by
  unfold outstanding
  rw [← Finset.add_sum_erase Finset.univ _ (Finset.mem_univ c),
    ← Finset.add_sum_erase Finset.univ (fun c => (s.callers c).acquired.count granule)
      (Finset.mem_univ c)]
  have hself : s'.callers c = caller := by rw [h, Function.update_self]
  have hrest : ∑ c' ∈ Finset.univ.erase c, (s'.callers c').acquired.count granule =
      ∑ c' ∈ Finset.univ.erase c, (s.callers c').acquired.count granule := by
    refine Finset.sum_congr rfl fun c' hc' => ?_
    rw [h, Function.update_of_ne (Finset.ne_of_mem_erase hc')]
  rw [hself, hrest]
  omega

/-- A caller that moves its acquisitions about leaves the counts as they are. -/
theorem outstanding_eq [Fintype ι] {s s' : GranuleRegistry ι}
    (h : s'.callers = Function.update s.callers c caller)
    (hacquired : caller.acquired = (s.callers c).acquired) (granule : GranulePtr) :
    s'.outstanding granule = s.outstanding granule := by
  have hcount := outstanding_update h granule
  rw [hacquired] at hcount
  omega

theorem outstanding_pos [Fintype ι] (h : granule ∈ (s.callers c).acquired) :
    0 < s.outstanding granule := by
  have hpos := Multiset.count_pos.mpr h
  rw [outstanding, ← Finset.add_sum_erase Finset.univ _ (Finset.mem_univ c)]
  omega

end GranuleRegistry

/-! ## The stages -/

theorem PutStage.mem_detached {stage : PutStage} {granule : GranulePtr} :
    granule ∈ stage.detached ↔
      granule ∈ stage.unqueued ∨ granule ∈ stage.queued ∨ granule ∈ stage.flushed := by
  cases stage <;>
    simp [PutStage.detached, PutStage.entries, PutStage.unqueued, PutStage.queued,
      PutStage.flushed, List.reduceOption_append, or_comm]

/-! ## Moving on -/

section Rework

variable {ι : Type} {s s' : GranuleRegistry ι} {c : ι} {caller : GranuleCaller}
  {put put' : GranulesPut} {more : List RegionCall}

theorem drop_append_of_le {n : Nat} {calls : List RegionCall} (h : n ≤ calls.length) :
    (calls ++ more).drop n = calls.drop n ++ more := List.drop_append_of_le_length h

/-- The accounts go on: what was detached is retired, or still in the round and no further back. -/
theorem GranulesPut.Accounts.follow (h : put.Accounts s) (hlength : put'.owned.length = put'.count)
    (hpassed : ∀ entry ∈ put'.passed, entry = none) (hmarks : put'.detached = put.detached)
    (hcalls : s'.calls = s.calls ++ more)
    (hgranules : ∀ granule ∈ put.stage.detached, ∀ g, s.heap granule = some g →
      ∀ n ≤ s.calls.length, g.work.callback.Progress g.start (s.calls.drop n) →
      Retired g.start (s'.calls.drop n) ∨ ∃ granule' ∈ put'.stage.detached, ∃ g',
        s'.heap granule' = some g' ∧ g'.start = g.start ∧
          g'.work.callback.Progress g.start (s'.calls.drop n)) : put'.Accounts s' := by
  refine ⟨hlength, hpassed, fun start n hmark => ?_⟩
  rw [hmarks] at hmark
  obtain ⟨hn, hold⟩ := h.detached start n hmark
  constructor
  · rw [hcalls, List.length_append]
    omega
  rcases hold with hretired | ⟨granule, hmem, g, hg, rfl, hprogress⟩
  · left
    rw [hcalls, drop_append_of_le hn]
    exact hretired.append more
  · exact hgranules granule hmem g hg n hn hprogress

/-- A put that does nothing has the same accounts while its granules stay as they are. -/
theorem GranulesPut.Accounts.stay (h : put.Accounts s) (hcalls : s'.calls = s.calls ++ more)
    (hheap : ∀ granule ∈ put.stage.detached, s'.heap granule = s.heap granule) :
    put.Accounts s' := by
  refine h.follow h.length h.passed rfl hcalls fun granule hmem g hg n hn hprogress => ?_
  right
  refine ⟨granule, hmem, g, (hheap granule hmem).trans hg, rfl, ?_⟩
  rw [hcalls, drop_append_of_le hn]
  exact hprogress.append more

variable [DecidableEq ι] [Fintype ι]

/-- What becomes of the work of a detached granule. -/
structure Reworked (s' : GranuleRegistry ι) (stage : PutStage) (granule : GranulePtr) (g : Granule)
    (w : RetireWork) : Prop where
  heap : s'.heap granule = some { g with work := w }
  fits : stage.Matches granule w
  back : w.callback ≠ .ran → g.work.callback ≠ .ran
  region : w.callback ≠ .ran → regionAfter s'.calls g.start = w.callback.region
  free : g.work.callback ≠ .ran → w.callback = .ran → regionAfter s'.calls g.start = .free

/-- One caller moves on, with the work of the granules that it has detached. -/
structure Reworks (s s' : GranuleRegistry ι) (c : ι) (caller : GranuleCaller)
    (more : List RegionCall) : Prop where
  callers : s'.callers = Function.update s.callers c caller
  granules : s'.granules = s.granules
  fault : s'.fault = s.fault
  calls : s'.calls = s.calls ++ more
  legal : LegalCalls s'.calls
  acquired : caller.acquired = (s.callers c).acquired
  detached : caller.stage.detached = (s.callers c).stage.detached
  put : ∀ put, caller.put = some put → put.Accounts s'
  heap : ∀ granule, granule ∉ (s.callers c).stage.detached → s'.heap granule = s.heap granule
  work : ∀ granule ∈ (s.callers c).stage.detached, ∀ g, s.heap granule = some g →
    ∃ w, Reworked s' caller.stage granule g w
  region : ∀ start, regionAfter s'.calls start = regionAfter s.calls start ∨
    ∃ granule ∈ (s.callers c).stage.detached, ∃ g, s.heap granule = some g ∧
      g.work.callback ≠ .ran ∧ g.start = start

namespace Reworks

omit [Fintype ι] in
theorem caller_self (hr : Reworks s s' c caller more) : s'.callers c = caller := by
  rw [hr.callers, Function.update_self]

omit [Fintype ι] in
theorem caller_of_ne (hr : Reworks s s' c caller more) {c' : ι} (hc' : c' ≠ c) :
    s'.callers c' = s.callers c' := by rw [hr.callers, Function.update_of_ne hc']

omit [Fintype ι] in
theorem stages (hr : Reworks s s' c caller more) (c' : ι) :
    (s'.callers c').stage.detached = (s.callers c').stage.detached := by
  by_cases hc' : c' = c
  · rw [hc', hr.caller_self, hr.detached]
  · rw [hr.caller_of_ne hc']

omit [Fintype ι] in
theorem registered (hr : Reworks s s' c caller more) (granule : GranulePtr) :
    s'.Registered granule ↔ s.Registered granule := by
  unfold GranuleRegistry.Registered
  rw [hr.granules]

/-- The granules of the other callers are not touched. -/
theorem apart (hr : Reworks s s' c caller more) (h : s.Consistent) {c' : ι} (hc' : c' ≠ c)
    {granule : GranulePtr} (hmem : granule ∈ (s.callers c').stage.detached) :
    s'.heap granule = s.heap granule :=
  hr.heap granule fun hmem' => hc' (h.apart c' c granule hmem hmem')

/-- Where a granule of the new heap comes from. -/
theorem back (hr : Reworks s s' c caller more) (h : s.Consistent) {granule : GranulePtr}
    {g' : Granule} (hg' : s'.heap granule = some g') : ∃ g, s.heap granule = some g ∧
      g.start = g'.start ∧ (g'.work.callback ≠ .ran → g.work.callback ≠ .ran) := by
  by_cases hmem : granule ∈ (s.callers c).stage.detached
  · obtain ⟨-, g, hg, -⟩ := h.detached c granule hmem
    obtain ⟨w, hw⟩ := hr.work granule hmem g hg
    obtain rfl := Option.some_inj.mp (hw.heap.symm.trans hg')
    exact ⟨g, hg, rfl, hw.back⟩
  · exact ⟨g', (hr.heap granule hmem).symm.trans hg', rfl, id⟩

omit [Fintype ι] in
/-- A range keeps its occupant until it is free. -/
theorem forth (hr : Reworks s s' c caller more) {granule : GranulePtr} {g : Granule}
    (hg : s.heap granule = some g) (hran : g.work.callback ≠ .ran)
    (hbusy : regionAfter s'.calls g.start ≠ .free) : ∃ granule' g',
      s'.heap granule' = some g' ∧ g'.start = g.start ∧ g'.work.callback ≠ .ran := by
  by_cases hmem : granule ∈ (s.callers c).stage.detached
  · obtain ⟨w, hw⟩ := hr.work granule hmem g hg
    exact ⟨granule, _, hw.heap, rfl, fun hw' => hbusy (hw.free hran hw')⟩
  · exact ⟨granule, g, (hr.heap granule hmem).trans hg, rfl, hran⟩

/-- A detached granule fits the stage of its caller. -/
theorem matched (hr : Reworks s s' c caller more) (h : s.Consistent) {c' : ι}
    {granule : GranulePtr} (hmem : granule ∈ (s'.callers c').stage.detached) :
    ¬ s'.Registered granule ∧
      ∃ g, s'.heap granule = some g ∧ (s'.callers c').stage.Matches granule g.work := by
  rw [hr.stages] at hmem
  obtain ⟨hnot, g, hg, hmatches⟩ := h.detached c' granule hmem
  refine ⟨fun hreg => hnot ((hr.registered granule).mp hreg), ?_⟩
  by_cases hc' : c' = c
  · subst hc'
    obtain ⟨w, hw⟩ := hr.work granule hmem g hg
    rw [hr.caller_self]
    exact ⟨_, hw.heap, hw.fits⟩
  · rw [hr.caller_of_ne hc']
    exact ⟨g, (hr.apart h hc' hmem).trans hg, hmatches⟩

/-- A range is as far as the callback of its granule. -/
theorem region_of_heap (hr : Reworks s s' c caller more) (h : s.Consistent) {granule : GranulePtr}
    {g' : Granule} (hg' : s'.heap granule = some g') (hran : g'.work.callback ≠ .ran) :
    regionAfter s'.calls g'.start = g'.work.callback.region := by
  by_cases hmem : granule ∈ (s.callers c).stage.detached
  · obtain ⟨-, g, hg, -⟩ := h.detached c granule hmem
    obtain ⟨w, hw⟩ := hr.work granule hmem g hg
    obtain rfl := Option.some_inj.mp (hw.heap.symm.trans hg')
    exact hw.region hran
  · have hg := (hr.heap granule hmem).symm.trans hg'
    rcases hr.region g'.start with heq | ⟨granule', hmem', g, hg₂, hran₂, hstart⟩
    · rw [heq]
      exact h.region granule g' hg hran
    · have hsame := h.sole granule' g granule g' hg₂ hg hran₂ hran hstart
      exact absurd (hsame ▸ hmem') hmem

end Reworks

namespace GranuleRegistry

theorem Consistent.rework (h : s.Consistent) (hr : Reworks s s' c caller more) :
    s'.Consistent := by
  constructor
  case sound => exact hr.fault.trans h.sound
  case legal => exact hr.legal
  case registered =>
    intro index granule hindex
    rw [hr.granules] at hindex
    obtain ⟨g, hg, hrest⟩ := h.registered index granule hindex
    -- what is registered is detached by nobody, so its granule is as before
    have hmem : granule ∉ (s.callers c).stage.detached := fun hmem =>
      (h.detached c granule hmem).1 ⟨index, hindex⟩
    rw [outstanding_eq hr.callers hr.acquired]
    exact ⟨g, (hr.heap granule hmem).trans hg, hrest⟩
  case acquired =>
    intro c' granule hmem
    rw [hr.registered]
    by_cases hc' : c' = c
    · rw [hc', hr.caller_self, hr.acquired] at hmem
      exact h.acquired c granule hmem
    · rw [hr.caller_of_ne hc'] at hmem
      exact h.acquired c' granule hmem
  case detached => exact fun _ _ hmem => hr.matched h hmem
  case nodup =>
    intro c'
    rw [hr.stages]
    exact h.nodup c'
  case apart =>
    intro c₁ c₂ granule h₁ h₂
    rw [hr.stages] at h₁ h₂
    exact h.apart c₁ c₂ granule h₁ h₂
  case placed =>
    intro granule g' hg'
    obtain ⟨g, hg, -⟩ := hr.back h hg'
    rw [hr.registered]
    rcases h.placed granule g hg with hreg | ⟨c', hc'⟩
    · exact Or.inl hreg
    · exact Or.inr ⟨c', by rw [hr.stages]; exact hc'⟩
  case region => exact fun _ _ hg' hran => hr.region_of_heap h hg' hran
  case sole =>
    intro granule g granule' g' hg hg' hran hran' hstart
    obtain ⟨g₁, hg₁, hstart₁, hback₁⟩ := hr.back h hg
    obtain ⟨g₂, hg₂, hstart₂, hback₂⟩ := hr.back h hg'
    exact h.sole granule g₁ granule' g₂ hg₁ hg₂ (hback₁ hran) (hback₂ hran')
      (hstart₁.trans (hstart.trans hstart₂.symm))
  case occupied =>
    intro start hbusy
    rcases hr.region start with heq | ⟨granule, hmem, g, hg, hran, rfl⟩
    · -- the range is claimed as before, or newly for this granule
      obtain ⟨granule, g, hg, rfl, hran⟩ := h.occupied start (heq ▸ hbusy)
      exact hr.forth hg hran hbusy
    · exact hr.forth hg hran hbusy
  case puts =>
    intro c' put hc'
    by_cases heq : c' = c
    · -- the accounts of this caller are given, and the others see the same granules
      rw [heq, hr.caller_self] at hc'
      exact hr.put put hc'
    · rw [hr.caller_of_ne heq] at hc'
      refine (h.puts c' put hc').stay hr.calls fun granule hmem => hr.apart h heq ?_
      rw [GranuleCaller.stage, hc']
      exact hmem

/-- What the invariant says about one granule, that only the caller `c` can have detached. -/
structure Fits (s : GranuleRegistry ι) (granule : GranulePtr) (c : ι) : Prop where
  registered : ∀ index, s.granules index = some granule → ∃ g, s.heap granule = some g ∧
    g.start / sz2M = index ∧ g.start = index * sz2M ∧ g.users = s.outstanding granule ∧
      0 < g.users ∧ g.work = {}
  acquired : ∀ c, granule ∈ (s.callers c).acquired → s.Registered granule
  detached : granule ∈ (s.callers c).stage.detached → ¬ s.Registered granule ∧
    ∃ g, s.heap granule = some g ∧ (s.callers c).stage.Matches granule g.work
  placed : ∀ g, s.heap granule = some g →
    s.Registered granule ∨ granule ∈ (s.callers c).stage.detached
  region : ∀ g, s.heap granule = some g → g.work.callback ≠ .ran →
    regionAfter s.calls g.start = g.work.callback.region
  sole : ∀ g, s.heap granule = some g → g.work.callback ≠ .ran → ∀ other ≠ granule, ∀ g',
    s.heap other = some g' → g'.work.callback ≠ .ran → g.start ≠ g'.start

end GranuleRegistry

/-- One granule changes, and the caller that has it or gets it; all others stay as they are. -/
structure Changes (s s' : GranuleRegistry ι) (granule : GranulePtr) (c : ι)
    (caller : GranuleCaller) (more : List RegionCall) : Prop where
  callers : s'.callers = Function.update s.callers c caller
  fault : s'.fault = s.fault
  calls : s'.calls = s.calls ++ more
  legal : LegalCalls s'.calls
  heap : ∀ other ≠ granule, s'.heap other = s.heap other
  granules : ∀ other ≠ granule, ∀ index,
    s'.granules index = some other ↔ s.granules index = some other
  count : ∀ other ≠ granule, caller.acquired.count other = (s.callers c).acquired.count other
  detached : ∀ other ≠ granule,
    other ∈ caller.stage.detached ↔ other ∈ (s.callers c).stage.detached
  matched : ∀ other ≠ granule, ∀ w, (s.callers c).stage.Matches other w →
    caller.stage.Matches other w
  nodup : caller.stage.detached.Nodup
  put : ∀ put, caller.put = some put → put.Accounts s'
  region : ∀ other ≠ granule, ∀ g, s.heap other = some g → g.work.callback ≠ .ran →
    regionAfter s'.calls g.start = regionAfter s.calls g.start
  occupied : ∀ start, regionAfter s'.calls start ≠ .free →
    (∃ g, s'.heap granule = some g ∧ g.start = start ∧ g.work.callback ≠ .ran) ∨
      ∃ other, other ≠ granule ∧ ∃ g, s.heap other = some g ∧ g.start = start ∧
        g.work.callback ≠ .ran
  alone : ∀ c' ≠ c, granule ∉ (s.callers c').stage.detached
  fits : s'.Fits granule c

namespace Changes

variable {granule other : GranulePtr} {c' : ι}

theorem caller_self (hc : Changes s s' granule c caller more) : s'.callers c = caller := by
  rw [hc.callers, Function.update_self]

theorem caller_of_ne (hc : Changes s s' granule c caller more) (hne : c' ≠ c) :
    s'.callers c' = s.callers c' := by rw [hc.callers, Function.update_of_ne hne]

theorem registered (hc : Changes s s' granule c caller more) (hne : other ≠ granule) :
    s'.Registered other ↔ s.Registered other := exists_congr (hc.granules other hne)

theorem outstanding (hc : Changes s s' granule c caller more) (hne : other ≠ granule) :
    s'.outstanding other = s.outstanding other := by
  have hupdate := GranuleRegistry.outstanding_update hc.callers other
  rw [hc.count other hne] at hupdate
  omega

theorem acquired (hc : Changes s s' granule c caller more) (hne : other ≠ granule)
    (hmem : other ∈ (s'.callers c').acquired) : other ∈ (s.callers c').acquired := by
  by_cases hc' : c' = c
  · rw [hc', hc.caller_self] at hmem
    rw [hc', ← Multiset.count_pos, ← hc.count other hne]
    exact Multiset.count_pos.mpr hmem
  · rwa [hc.caller_of_ne hc'] at hmem

theorem stages (hc : Changes s s' granule c caller more) (hne : other ≠ granule) :
    other ∈ (s'.callers c').stage.detached ↔ other ∈ (s.callers c').stage.detached := by
  by_cases hc' : c' = c
  · rw [hc', hc.caller_self]
    exact hc.detached other hne
  · rw [hc.caller_of_ne hc']

/-- Only this caller can have the granule. -/
theorem owner (hc : Changes s s' granule c caller more)
    (hmem : granule ∈ (s'.callers c').stage.detached) : c' = c := by
  by_contra hc'
  rw [hc.caller_of_ne hc'] at hmem
  exact hc.alone c' hc' hmem

/-- Another granule that is detached fits the stage of its caller. -/
theorem matched_other (hc : Changes s s' granule c caller more) (h : s.Consistent)
    (hne : other ≠ granule) (hmem : other ∈ (s'.callers c').stage.detached) :
    ¬ s'.Registered other ∧
      ∃ g, s'.heap other = some g ∧ (s'.callers c').stage.Matches other g.work := by
  obtain ⟨hnot, g, hg, hold⟩ := h.detached c' other ((hc.stages hne).mp hmem)
  refine ⟨fun hreg => hnot ((hc.registered hne).mp hreg), g, ?_, ?_⟩
  · rw [hc.heap other hne, hg]
  · by_cases hc' : c' = c
    · subst hc'
      rw [hc.caller_self]
      exact hc.matched other hne _ hold
    · rw [hc.caller_of_ne hc']
      exact hold

/-- No two granules that are not retired have the same range. -/
theorem sole (hc : Changes s s' granule c caller more) (h : s.Consistent) {granule' : GranulePtr}
    {g g' : Granule} (hg : s'.heap other = some g) (hg' : s'.heap granule' = some g')
    (hran : g.work.callback ≠ .ran) (hran' : g'.work.callback ≠ .ran)
    (hstart : g.start = g'.start) : other = granule' := by
  by_cases hne : other = granule
  · by_contra hdiff
    subst hne
    exact hc.fits.sole g hg hran granule' (Ne.symm hdiff) g' hg' hran' hstart
  · by_cases hne' : granule' = granule
    · subst hne'
      exact absurd hstart.symm (hc.fits.sole g' hg' hran' other hne g hg hran)
    · rw [hc.heap other hne] at hg
      rw [hc.heap granule' hne'] at hg'
      exact h.sole other g granule' g' hg hg' hran hran' hstart

end Changes

namespace GranuleRegistry

theorem Consistent.change (h : s.Consistent) (granule : GranulePtr)
    (hc : Changes s s' granule c caller more) : s'.Consistent := by
  constructor
  case sound => exact hc.fault.trans h.sound
  case legal => exact hc.legal
  case registered =>
    intro index other hindex
    by_cases hne : other = granule
    · subst hne
      exact hc.fits.registered index hindex
    · rw [hc.heap other hne, hc.outstanding hne]
      exact h.registered index other ((hc.granules other hne index).mp hindex)
  case acquired =>
    intro c' other hmem
    by_cases hne : other = granule
    · subst hne
      exact hc.fits.acquired c' hmem
    · exact (hc.registered hne).mpr (h.acquired c' other (hc.acquired hne hmem))
  case detached =>
    intro c' other hmem
    by_cases hne : other = granule
    · subst hne
      obtain rfl := hc.owner hmem
      exact hc.fits.detached hmem
    · exact hc.matched_other h hne hmem
  case nodup =>
    intro c'
    by_cases hc' : c' = c
    · rw [hc', hc.caller_self]
      exact hc.nodup
    · rw [hc.caller_of_ne hc']
      exact h.nodup c'
  case apart =>
    intro c₁ c₂ other h₁ h₂
    by_cases hne : other = granule
    · subst hne
      rw [hc.owner h₁, hc.owner h₂]
    · exact h.apart c₁ c₂ other ((hc.stages hne).mp h₁) ((hc.stages hne).mp h₂)
  case placed =>
    intro other g hg
    by_cases hne : other = granule
    · subst hne
      exact (hc.fits.placed g hg).imp id fun hmem => ⟨c, hmem⟩
    · rw [hc.heap other hne] at hg
      rw [hc.registered hne]
      rcases h.placed other g hg with hreg | ⟨c', hc'⟩
      · exact Or.inl hreg
      · exact Or.inr ⟨c', (hc.stages hne).mpr hc'⟩
  case region =>
    intro other g hg hran
    by_cases hne : other = granule
    · subst hne
      exact hc.fits.region g hg hran
    · rw [hc.heap other hne] at hg
      rw [hc.region other hne g hg hran, h.region other g hg hran]
  case sole => exact fun _ _ _ _ hg hg' hran hran' hstart => hc.sole h hg hg' hran hran' hstart
  case occupied =>
    intro start hbusy
    rcases hc.occupied start hbusy with ⟨g, hg, hrest⟩ | ⟨other, hne, g, hg, hrest⟩
    · exact ⟨granule, g, hg, hrest⟩
    · exact ⟨other, g, (hc.heap other hne).trans hg, hrest⟩
  case puts =>
    intro c' put hput
    by_cases heq : c' = c
    · rw [heq, hc.caller_self] at hput
      exact hc.put put hput
    · rw [hc.caller_of_ne heq] at hput
      refine (h.puts c' put hput).stay hc.calls fun other hmem => hc.heap other fun hne => ?_
      subst hne
      refine hc.alone c' heq ?_
      rw [GranuleCaller.stage, hput]
      exact hmem

end GranuleRegistry

end Rework

end HyperIoVm
