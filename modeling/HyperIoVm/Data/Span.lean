import Mathlib.Order.Interval.Set.Basic
import Mathlib.Data.List.Pairwise
import Mathlib.Data.List.ReduceOption

/-!
# Spans

A span is a run of consecutive addresses, given by its start and its length. Spans lie within
one another or apart; what lies within a span stays within it when the address space is moved.
`Placed` is a list of slots, some of them empty, whose spans all lie within one region and
pairwise apart.
-/

namespace HyperIoVm.Data

/-- The addresses from `start` on, `length` of them. -/
structure Span where
  start : Nat
  length : Nat
  deriving DecidableEq, Repr

namespace Span

variable {s t u : Span} {k : Nat}

/-- The first address after the span. -/
def stop (s : Span) : Nat := s.start + s.length

/-- The addresses of the span. -/
def addresses (s : Span) : Set Nat := Set.Ico s.start s.stop

/-- `s` lies wholly inside `t`. -/
def Within (s t : Span) : Prop := t.start ≤ s.start ∧ s.stop ≤ t.stop

/-- One span ends before the other starts. -/
def Apart (s t : Span) : Prop := s.stop ≤ t.start ∨ t.stop ≤ s.start

instance : Decidable (s.Within t) := inferInstanceAs (Decidable (_ ∧ _))

instance : Decidable (s.Apart t) := inferInstanceAs (Decidable (_ ∨ _))

/-! ## Moving a span -/

/-- The span in an address space where `source` has become `target`. -/
def move (s : Span) (source target : Nat) : Span := ⟨target + (s.start - source), s.length⟩

variable {source target : Nat}

theorem Within.move (h : s.Within ⟨source, k⟩) (target : Nat) :
    (s.move source target).Within ⟨target, k⟩ := by
  simp only [Within, stop, Span.move] at h ⊢
  omega

/-! ## Lists of slots -/

/-- The spans in the slots that are not empty lie within `region`, pairwise apart. -/
def Placed (region : Span) (slots : List (Option Span)) : Prop :=
  (∀ s ∈ slots.reduceOption, s.Within region) ∧ slots.reduceOption.Pairwise Apart

variable {region : Span} {slots slots' : List (Option Span)}

theorem Placed.nil : Placed region [] := ⟨fun _ hs => absurd hs List.not_mem_nil, .nil⟩

theorem Placed.within (h : Placed region slots) (hs : some s ∈ slots) : s.Within region :=
  h.1 s (List.reduceOption_mem_iff.mpr hs)

/-- The slots before a point are placed when all of them are. -/
theorem Placed.left (h : Placed region (slots ++ slots')) : Placed region slots := by
  rw [Placed, List.reduceOption_append] at h
  exact ⟨fun s hs => h.1 s (List.mem_append_left _ hs), (List.pairwise_append.mp h.2).1⟩

/-- Empty slots take no room. -/
theorem placed_append_none (n : Nat) :
    Placed region (slots ++ List.replicate n none) ↔ Placed region slots := by
  rw [Placed, List.reduceOption_append, List.reduceOption_replicate_none, List.append_nil, Placed]

/-- One more span fits when it lies within the region and apart from those before it. -/
theorem placed_concat :
    Placed region (slots ++ [some s]) ↔
      Placed region slots ∧ s.Within region ∧ ∀ t, some t ∈ slots → t.Apart s := by
  simp only [Placed, List.reduceOption_append, List.reduceOption_singleton, Option.toList_some,
    List.mem_append, List.mem_singleton, List.pairwise_append, List.pairwise_singleton, true_and,
    forall_eq, List.reduceOption_mem_iff, or_imp, forall_and]
  tauto

end Span

end HyperIoVm.Data
