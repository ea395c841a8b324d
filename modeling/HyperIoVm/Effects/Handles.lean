import Mathlib.Logic.Function.Basic

/-!
# Handles and the slots that record them

A program keeps the handles it was given in *slots* (fields, array entries); the
environment keeps a *table* of the live handles and of what each one stands for. `Tracks`
says that the two agree: every slot records a live handle, every live handle is recorded
in some slot, and no handle is recorded twice. Acquiring, changing and releasing a handle
keep the agreement, whatever the slots, handles and objects are.
-/

namespace HyperIoVm.Effects

variable {S H O : Type}

/-- The slots record exactly the live handles of the table, each one once. -/
structure Tracks (slots : S → Option (H × O)) (table : H → Option O) : Prop where
  live : ∀ s h o, slots s = some (h, o) → table h = some o
  owned : ∀ h o, table h = some o → ∃ s, slots s = some (h, o)
  unique : ∀ s s' h o o', slots s = some (h, o) → slots s' = some (h, o') → s = s'

namespace Tracks

variable {slots : S → Option (H × O)} {table : H → Option O}

/-- A handle that is not in the table is in no slot. -/
theorem not_recorded (t : Tracks slots table) {h : H} (hh : table h = none) (s : S) (o : O) :
    slots s ≠ some (h, o) := by
  intro hs
  rw [t.live s h o hs] at hh
  cases hh

/-- An empty program tracks an empty table. -/
theorem empty (hs : ∀ s, slots s = none) (ht : ∀ h, table h = none) : Tracks slots table where
  live s h o h' := by rw [hs s] at h'; cases h'
  owned h o h' := by rw [ht h] at h'; cases h'
  unique s s' h o o' h' := by rw [hs s] at h'; cases h'

/-- Nothing in the table is of a kind that no slot records. -/
theorem table_ne (t : Tracks slots table) {o : O} (h : ∀ s h, slots s ≠ some (h, o)) (x : H) :
    table x ≠ some o := by
  intro hx
  obtain ⟨s, hs⟩ := t.owned x o hx
  exact h s x hs

section Update

variable [DecidableEq S] [DecidableEq H]

/-- A new handle goes into a free slot. -/
theorem acquire (t : Tracks slots table) {s : S} {h : H} (o : O) (hs : slots s = none)
    (hh : table h = none) :
    Tracks (Function.update slots s (some (h, o))) (Function.update table h (some o)) where
  live s' h' o' hs' := by
    by_cases hss : s' = s
    · subst hss
      simp only [Function.update_self, Option.some.injEq, Prod.mk.injEq] at hs'
      obtain ⟨rfl, rfl⟩ := hs'
      simp
    · rw [Function.update_of_ne hss] at hs'
      have hne : h' ≠ h := fun he => t.not_recorded hh s' o' (he ▸ hs')
      rw [Function.update_of_ne hne]
      exact t.live s' h' o' hs'
  owned h' o' hh' := by
    by_cases hhh : h' = h
    · subst hhh
      simp only [Function.update_self, Option.some.injEq] at hh'
      exact ⟨s, by simp [hh']⟩
    · rw [Function.update_of_ne hhh] at hh'
      obtain ⟨s', hs'⟩ := t.owned h' o' hh'
      have hne : s' ≠ s := by rintro rfl; rw [hs] at hs'; cases hs'
      exact ⟨s', by rw [Function.update_of_ne hne]; exact hs'⟩
  unique s₁ s₂ h' o₁ o₂ h₁ h₂ := by
    by_cases e₁ : s₁ = s <;> by_cases e₂ : s₂ = s
    · rw [e₁, e₂]
    · subst e₁
      simp only [Function.update_self, Option.some.injEq, Prod.mk.injEq] at h₁
      rw [Function.update_of_ne e₂, ← h₁.1] at h₂
      exact absurd h₂ (t.not_recorded hh _ _)
    · subst e₂
      simp only [Function.update_self, Option.some.injEq, Prod.mk.injEq] at h₂
      rw [Function.update_of_ne e₁, ← h₂.1] at h₁
      exact absurd h₁ (t.not_recorded hh _ _)
    · rw [Function.update_of_ne e₁] at h₁
      rw [Function.update_of_ne e₂] at h₂
      exact t.unique s₁ s₂ h' o₁ o₂ h₁ h₂

/-- A slot that is emptied gives its handle up. -/
theorem release (t : Tracks slots table) {s : S} {h : H} {o : O} (hs : slots s = some (h, o)) :
    Tracks (Function.update slots s none) (Function.update table h none) where
  live s' h' o' hs' := by
    by_cases hss : s' = s
    · subst hss; simp at hs'
    · rw [Function.update_of_ne hss] at hs'
      have hne : h' ≠ h := fun he => hss (t.unique s' s h o' o (he ▸ hs') hs)
      rw [Function.update_of_ne hne]
      exact t.live s' h' o' hs'
  owned h' o' hh' := by
    by_cases hhh : h' = h
    · subst hhh; simp at hh'
    · rw [Function.update_of_ne hhh] at hh'
      obtain ⟨s', hs'⟩ := t.owned h' o' hh'
      have hne : s' ≠ s := by
        rintro rfl
        rw [hs] at hs'
        simp only [Option.some.injEq, Prod.mk.injEq] at hs'
        exact hhh hs'.1.symm
      exact ⟨s', by rw [Function.update_of_ne hne]; exact hs'⟩
  unique s₁ s₂ h' o₁ o₂ h₁ h₂ := by
    have e₁ : s₁ ≠ s := by rintro rfl; simp at h₁
    have e₂ : s₂ ≠ s := by rintro rfl; simp at h₂
    rw [Function.update_of_ne e₁] at h₁
    rw [Function.update_of_ne e₂] at h₂
    exact t.unique s₁ s₂ h' o₁ o₂ h₁ h₂

/-- A recorded handle changes what it stands for. -/
theorem change (t : Tracks slots table) {s : S} {h : H} {o : O} (o' : O)
    (hs : slots s = some (h, o)) :
    Tracks (Function.update slots s (some (h, o'))) (Function.update table h (some o')) := by
  have hfree := (t.release hs).acquire (s := s) (h := h) o' (by simp) (by simp)
  simpa only [Function.update_idem] using hfree

end Update

end Tracks

end HyperIoVm.Effects
