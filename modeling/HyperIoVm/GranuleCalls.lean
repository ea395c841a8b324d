import HyperIoVm.Granules

/-!
# Calls for a range (`modules/guest-memory/granules.c`)

A range is claimed, imported, unmapped and released again. A list of calls is legal when every one
of them finds the range as it needs it; then no range is imported twice, and the claim is held
around every import.
-/

namespace HyperIoVm

variable {calls : List RegionCall} {c : RegionCall} {start : UInt64}

/-! ## Ranges -/

@[simp] theorem regionAfter_snoc (calls : List RegionCall) (c : RegionCall) (start : UInt64) :
    regionAfter (calls ++ [c]) start =
      if c.start = start then c.leaves else regionAfter calls start := by
  unfold regionAfter
  rw [List.foldl_append]
  rfl

theorem regionAfter_snoc_self (c : RegionCall) (calls : List RegionCall) :
    regionAfter (calls ++ [c]) c.start = c.leaves := by
  rw [regionAfter_snoc, if_pos rfl]

theorem regionAfter_snoc_of_ne (h : c.start ≠ start) :
    regionAfter (calls ++ [c]) start = regionAfter calls start := by
  rw [regionAfter_snoc, if_neg h]

/-! ## Legal calls -/

/-- Every call is made in the state that it needs. -/
def LegalCalls (calls : List RegionCall) : Prop :=
  ∀ before c, before ++ [c] <+: calls → regionAfter before c.start = c.needs

theorem legalCalls_nil : LegalCalls [] := by
  intro before c h
  exact absurd (List.prefix_nil.mp h) (by simp)

theorem legalCalls_snoc : LegalCalls (calls ++ [c]) ↔
    LegalCalls calls ∧ regionAfter calls c.start = c.needs := by
  constructor
  · intro h
    refine ⟨fun before c' hc' => h before c' ?_, h calls c (List.prefix_refl _)⟩
    exact hc'.trans (List.prefix_append _ _)
  · intro h before c' hc'
    rcases List.prefix_concat_iff.mp hc' with heq | hprefix
    · obtain ⟨rfl, hcc⟩ := List.append_inj' heq rfl
      obtain rfl := List.singleton_injective hcc
      exact h.2
    · exact h.1 before c' hprefix

/-- The call takes the range into the states `P`. -/
def RegionCall.Enters (P : RegionState → Bool) (start : UInt64) (c : RegionCall) : Bool :=
  c.start == start && !P c.needs && P c.leaves

/-- The call takes the range out of the states `P`. -/
def RegionCall.Exits (P : RegionState → Bool) (start : UInt64) (c : RegionCall) : Bool :=
  c.start == start && P c.needs && !P c.leaves

/-- A range is taken out of `P` once for every time it is taken in, but for the last time if it is
still there. -/
theorem LegalCalls.countP_enters (h : LegalCalls calls) (P : RegionState → Bool)
    (hfree : P .free = false) (start : UInt64) :
    calls.countP (RegionCall.Enters P start) =
      calls.countP (RegionCall.Exits P start) + if P (regionAfter calls start) then 1 else 0 := by
  induction calls using List.reverseRecOn with
  | nil =>
    show 0 = 0 + if P .free then 1 else 0
    rw [hfree]
    rfl
  | append_singleton calls c ih =>
    obtain ⟨hcalls, hneeds⟩ := legalCalls_snoc.mp h
    rw [List.countP_append, List.countP_append, List.countP_singleton, List.countP_singleton,
      ih hcalls]
    unfold RegionCall.Enters RegionCall.Exits
    by_cases hstart : c.start = start
    · subst hstart
      rw [regionAfter_snoc_self, hneeds]
      cases P c.needs <;> cases P c.leaves <;> simp
    · rw [regionAfter_snoc_of_ne hstart]
      simp [hstart]

/-- Every import is undone by one unmap, except for the one that a range has now. -/
theorem LegalCalls.count_memunmapPages (h : LegalCalls calls) (start : UInt64) :
    calls.count (.memremapPages start) = calls.count (.memunmapPages start) +
      if regionAfter calls start = .imported then 1 else 0 := by
  have henters : ∀ c, (c == RegionCall.memremapPages start) = true ↔
      RegionCall.Enters (· = .imported) start c = true := by
    intro c
    cases c <;> simp [RegionCall.Enters, RegionCall.start, RegionCall.needs, RegionCall.leaves]
  have hexits : ∀ c, (c == RegionCall.memunmapPages start) = true ↔
      RegionCall.Exits (· = .imported) start c = true := by
    intro c
    cases c <;> simp [RegionCall.Exits, RegionCall.start, RegionCall.needs, RegionCall.leaves]
  rw [List.count, List.count, List.countP_congr fun c _ => henters c,
    List.countP_congr fun c _ => hexits c, h.countP_enters _ rfl]
  simp only [decide_eq_true_eq]

/-- Every claim is released once, except for the one that a range has now. -/
theorem LegalCalls.count_releaseMemRegion (h : LegalCalls calls) (start : UInt64) :
    calls.count (.requestMemRegion start) = calls.count (.releaseMemRegion start) +
      if regionAfter calls start ≠ .free then 1 else 0 := by
  have henters : ∀ c, (c == RegionCall.requestMemRegion start) = true ↔
      RegionCall.Enters (· ≠ .free) start c = true := by
    intro c
    cases c <;> simp [RegionCall.Enters, RegionCall.start, RegionCall.needs, RegionCall.leaves]
  have hexits : ∀ c, (c == RegionCall.releaseMemRegion start) = true ↔
      RegionCall.Exits (· ≠ .free) start c = true := by
    intro c
    cases c <;> simp [RegionCall.Exits, RegionCall.start, RegionCall.needs, RegionCall.leaves]
  rw [List.count, List.count, List.countP_congr fun c _ => henters c,
    List.countP_congr fun c _ => hexits c, h.countP_enters _ rfl]
  simp only [decide_eq_true_eq]

/-! ## Calls that are undone -/

/-- These further calls are legal, and leave every range as it was. -/
structure Undone (calls further : List RegionCall) : Prop where
  legal : LegalCalls calls → LegalCalls (calls ++ further)
  region : ∀ start, regionAfter (calls ++ further) start = regionAfter calls start

theorem Undone.nil (calls : List RegionCall) : Undone calls [] := by
  refine ⟨?_, ?_⟩
  · rw [List.append_nil]
    exact id
  · rw [List.append_nil]
    exact fun _ => rfl

/-- A claim, and its release. -/
theorem Undone.claim (hfree : regionAfter calls start = .free) :
    Undone calls [.requestMemRegion start, .releaseMemRegion start] := by
  refine ⟨fun h => ?_, fun other => ?_⟩
  · rw [List.append_cons]
    refine legalCalls_snoc.mpr ⟨legalCalls_snoc.mpr ⟨h, hfree⟩, ?_⟩
    exact regionAfter_snoc_self (.requestMemRegion start) calls
  · rw [List.append_cons, regionAfter_snoc, regionAfter_snoc]
    by_cases hother : start = other
    · subst hother
      rw [hfree]
      exact if_pos rfl
    · exact (if_neg hother).trans (if_neg hother)

/-- A claim with an import, both undone. -/
theorem Undone.importPages (hfree : regionAfter calls start = .free) :
    Undone calls [.requestMemRegion start, .memremapPages start, .memunmapPages start,
      .releaseMemRegion start] := by
  refine ⟨fun h => ?_, fun other => ?_⟩
  · rw [List.append_cons, List.append_cons, List.append_cons]
    refine legalCalls_snoc.mpr ⟨legalCalls_snoc.mpr ⟨legalCalls_snoc.mpr
      ⟨legalCalls_snoc.mpr ⟨h, hfree⟩, ?_⟩, ?_⟩, ?_⟩
    · exact regionAfter_snoc_self (.requestMemRegion start) calls
    · exact regionAfter_snoc_self (.memremapPages start) _
    · exact regionAfter_snoc_self (.memunmapPages start) _
  · rw [List.append_cons, List.append_cons, List.append_cons, regionAfter_snoc, regionAfter_snoc,
      regionAfter_snoc, regionAfter_snoc]
    by_cases hother : start = other
    · subst hother
      rw [hfree]
      exact if_pos rfl
    · exact (if_neg hother).trans ((if_neg hother).trans ((if_neg hother).trans (if_neg hother)))

/-! ## The retirement of a range -/

/-- The range is unmapped and then released in these calls. -/
def Retired (start : UInt64) (calls : List RegionCall) : Prop :=
  List.Sublist [.memunmapPages start, .releaseMemRegion start] calls

/-- What these calls have of the retirement of a granule, when its callback is here. -/
def RetireCallback.Progress (start : UInt64) (calls : List RegionCall) : RetireCallback → Prop
  | .notRun | .unmapping => True
  | .releasing => .memunmapPages start ∈ calls
  | .ran => Retired start calls

/-- What the module has of the range of a granule, until the callback has run. -/
def RetireCallback.region : RetireCallback → RegionState
  | .notRun | .unmapping => .imported
  | .releasing => .claimed
  | .ran => .free

theorem Retired.append (h : Retired start calls) (calls' : List RegionCall) :
    Retired start (calls ++ calls') := h.trans (List.sublist_append_left _ _)

theorem RetireCallback.Progress.append {callback : RetireCallback}
    (h : callback.Progress start calls) (calls' : List RegionCall) :
    callback.Progress start (calls ++ calls') := by
  cases callback with
  | notRun => trivial
  | unmapping => trivial
  | releasing => exact List.mem_append_left _ h
  | ran => exact Retired.append h calls'

theorem retired_snoc (h : .memunmapPages start ∈ calls) :
    Retired start (calls ++ [.releaseMemRegion start]) :=
  List.Sublist.append (List.singleton_sublist.mpr h) (List.Sublist.refl _)

end HyperIoVm
