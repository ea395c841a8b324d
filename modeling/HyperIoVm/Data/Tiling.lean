import Mathlib.Data.List.Basic
import Mathlib.Order.Interval.Set.Basic

/-!
# Tilings

A list of segments tiles `[lo, hi)` when each one starts where the one before it ends. The
segments are of any type that has a start and a length. An array that is filled segment by
segment is stored to at consecutive indices, and ends up as the list of what was stored.
-/

namespace HyperIoVm.Data

variable {α : Type} {start length : α → Nat}

/-- `xs` tiles `[lo, hi)` in order, without gap or overlap, and no segment is empty. -/
def Tiles (start length : α → Nat) : Nat → List α → Nat → Prop
  | lo, [], hi => lo = hi
  | lo, x :: xs, hi => start x = lo ∧ 0 < length x ∧ Tiles start length (lo + length x) xs hi

/-- `k` lies in the segment `x`. -/
def Covers (start length : α → Nat) (x : α) (k : Nat) : Prop := start x ≤ k ∧ k < start x + length x

namespace Tiles

variable {lo mid hi k : Nat} {x : α} {xs ys : List α}

theorem le (h : Tiles start length lo xs hi) : lo ≤ hi := by
  induction xs generalizing lo with
  | nil => exact Nat.le_of_eq h
  | cons x xs ih => exact (Nat.le_add_right lo (length x)).trans (ih h.2.2)

/-- One more segment at the end. -/
theorem concat (h : Tiles start length lo xs mid) (hx : start x = mid) (hpos : 0 < length x) :
    Tiles start length lo (xs ++ [x]) (mid + length x) := by
  induction xs generalizing lo with
  | nil =>
    obtain rfl : lo = mid := h
    exact ⟨hx, hpos, rfl⟩
  | cons y ys ih => exact ⟨h.1, h.2.1, ih h.2.2⟩

/-- Every segment lies inside the tiled range. -/
theorem bounds (h : Tiles start length lo xs hi) (hx : x ∈ xs) :
    lo ≤ start x ∧ start x + length x ≤ hi := by
  induction xs generalizing lo with
  | nil => cases hx
  | cons y ys ih =>
    obtain ⟨hy, -, hys⟩ := h
    rcases List.mem_cons.mp hx with rfl | hx
    · exact ⟨hy.ge, hy ▸ hys.le⟩
    · obtain ⟨hlo, hhi⟩ := ih hys hx
      exact ⟨(Nat.le_add_right lo (length y)).trans hlo, hhi⟩

/-- Every point of the range lies in exactly one segment. -/
theorem existsUnique (h : Tiles start length lo xs hi) (hlo : lo ≤ k) (hhi : k < hi) :
    ∃! x, x ∈ xs ∧ Covers start length x k := by
  induction xs generalizing lo with
  | nil => exact absurd hhi (Nat.not_lt.mpr (h ▸ hlo))
  | cons y ys ih =>
    obtain ⟨hy, -, hys⟩ := h
    by_cases hk : k < lo + length y
    · refine ⟨y, ⟨List.mem_cons_self, hy ▸ hlo, hy ▸ hk⟩, ?_⟩
      rintro x ⟨hx, hcovers⟩
      rcases List.mem_cons.mp hx with rfl | hx
      · rfl
      · exact absurd (hcovers.1.trans_lt hk) (Nat.not_lt.mpr (hys.bounds hx).1)
    · obtain ⟨x, ⟨hx, hcovers⟩, hunique⟩ := ih hys (Nat.not_lt.mp hk)
      refine ⟨x, ⟨List.mem_cons_of_mem y hx, hcovers⟩, ?_⟩
      rintro z ⟨hz, hz'⟩
      rcases List.mem_cons.mp hz with rfl | hz
      · exact absurd (hy ▸ hz'.2) hk
      · exact hunique z ⟨hz, hz'⟩

end Tiles

/-! ## Arrays stored to in order -/

/-- Stores to consecutive indices replace what was there, and nothing else. -/
theorem foldl_set_range' {done old : List α} {stores : List (Nat × α)}
    (h : stores.map Prod.fst = List.range' done.length old.length) :
    stores.foldl (fun array store => array.set store.1 store.2) (done ++ old) =
      done ++ stores.map Prod.snd := by
  induction stores generalizing done old with
  | nil =>
    have hold : old = [] := List.length_eq_zero_iff.mp (by simpa using h.symm)
    simp [hold]
  | cons store stores ih =>
    cases old with
    | nil => simp at h
    | cons x old =>
      obtain ⟨hindex, hrest⟩ := List.cons.inj (h : store.1 :: _ = _ :: _)
      have hset : (done ++ x :: old).set store.1 store.2 = (done ++ [store.2]) ++ old := by
        rw [hindex, List.set_append_right _ _ (Nat.le_refl _)]
        simp
      rw [List.foldl_cons, hset, ih (by simpa using hrest)]
      simp

/-- Stores to every index once, in order, leave the list of what was stored. -/
theorem foldl_set_range {array : List α} {stores : List (Nat × α)}
    (h : stores.map Prod.fst = List.range array.length) :
    stores.foldl (fun array store => array.set store.1 store.2) array = stores.map Prod.snd :=
  foldl_set_range'
    (show _ = List.range' ([] : List α).length _ by rw [h, List.range_eq_range']; rfl)

end HyperIoVm.Data
