import Mathlib.Algebra.GroupWithZero.Nat
import Mathlib.Data.List.TakeWhile

/-!
# Words and bounded scans

`words p xs` splits a list at the elements that satisfy `p`: the words are the maximal runs of the
others. `scan p widths xs` reads the same list the way a scanner with field widths does, each field
a run of at most so many elements, with nothing but separators left at the end. A word longer than
its field is cut there, and the next field starts in the middle of it; the two agree exactly when
every word fits its field.
-/

namespace HyperIoVm.Data

variable {α : Type} {p : α → Bool}

/-- A non-empty run without separators. -/
def IsWord (p : α → Bool) (w : List α) : Prop := w ≠ [] ∧ ∀ x ∈ w, p x = false

/-- The words of a list. -/
def words (p : α → Bool) (xs : List α) : List (List α) := (xs.splitOnP p).filter (!·.isEmpty)

/-! ## Splitting into words -/

@[simp] theorem words_nil : words p [] = [] := rfl

theorem words_sep {x : α} (hx : p x = true) (xs : List α) : words p (x :: xs) = words p xs := by
  rw [words, List.splitOnP_cons_eq_if_modifyHead, if_pos hx]
  rfl

/-- A word that a separator ends. -/
theorem words_append {w : List α} (hw : IsWord p w) {x : α} (hx : p x = true) (xs : List α) :
    words p (w ++ x :: xs) = w :: words p xs := by
  rw [words, List.splitOnP_append_cons_of_forall_mem hw.2 x hx, List.filter_cons_of_pos]
  · rfl
  · simpa using hw.1

/-- A word at the end of the list. -/
theorem words_word {w : List α} (hw : IsWord p w) : words p w = [w] := by
  rw [words, List.splitOnP_eq_singleton hw.2, List.filter_cons_of_pos]
  · rfl
  · simpa using hw.1

theorem words_dropWhile (xs : List α) : words p (xs.dropWhile p) = words p xs := by
  induction xs with
  | nil => rfl
  | cons x xs ih =>
    by_cases hx : p x = true
    · rw [List.dropWhile_cons_of_pos hx, ih, words_sep hx]
    · rw [List.dropWhile_cons_of_neg hx]

/-- Nothing follows the separators, or a word does. -/
theorem words_cases (xs : List α) :
    words p xs = [] ∧ xs.dropWhile p = [] ∨
      ∃ w rest, IsWord p w ∧ xs.dropWhile p = w ++ rest ∧ words p xs = w :: words p rest ∧
        ∀ x, rest.head? = some x → p x = true := by
  rw [← words_dropWhile]
  cases h : xs.dropWhile p with
  | nil => exact .inl ⟨rfl, rfl⟩
  | cons y ys =>
    have hy : p y = false := by
      have hhead := List.head?_dropWhile_not p xs
      rw [h] at hhead
      simpa using hhead
    have hword : IsWord p ((y :: ys).takeWhile fun x => !p x) := by
      refine ⟨by simp [hy], fun x hx => ?_⟩
      simpa using List.mem_takeWhile_imp hx
    have hsplit := List.takeWhile_append_dropWhile (p := fun x => !p x) (l := y :: ys)
    have hrest : ∀ x, ((y :: ys).dropWhile fun x => !p x).head? = some x → p x = true := by
      intro x hx
      have hhead := List.head?_dropWhile_not (fun x => !p x) (y :: ys)
      rw [hx] at hhead
      simpa using hhead
    generalize (y :: ys).takeWhile (fun x => !p x) = w at hword hsplit
    generalize (y :: ys).dropWhile (fun x => !p x) = rest at hrest hsplit
    refine .inr ⟨w, rest, hword, hsplit.symm, ?_, hrest⟩
    rw [← hsplit]
    cases rest with
    | nil => rw [List.append_nil, words_word hword, words_nil]
    | cons z zs => rw [words_append hword (hrest z rfl), words_sep (hrest z rfl)]

/-! ## Bounded scans -/

/-- Read a field: skip separators, then take a run of at most `width` other elements. -/
def scanField (p : α → Bool) (width : Nat) (xs : List α) : Option (List α × List α) :=
  let rest := xs.dropWhile p
  let field := (rest.take width).takeWhile fun x => !p x
  if field.isEmpty then none else some (field, rest.drop field.length)

/-- Read one field after the other; only separators may be left. -/
def scan (p : α → Bool) : List Nat → List α → Option (List (List α))
  | [], xs => if (xs.dropWhile p).isEmpty then some [] else none
  | width :: widths, xs => do
    let (field, rest) ← scanField p width xs
    let fields ← scan p widths rest
    return field :: fields

/-- No word is longer than its field. -/
def Fits : List Nat → List (List α) → Prop
  | width :: widths, w :: ws => w.length ≤ width ∧ Fits widths ws
  | _, _ => True

instance decidableFits : (widths : List Nat) → (ws : List (List α)) → Decidable (Fits widths ws)
  | [], _ => .isTrue trivial
  | _ :: _, [] => .isTrue trivial
  | width :: widths, w :: ws =>
    have := decidableFits widths ws
    inferInstanceAs (Decidable (w.length ≤ width ∧ Fits widths ws))

variable {widths : List Nat} {xs : List α} {fields : List (List α)}

theorem Fits.length_getD {ws : List (List α)} (h : Fits widths ws) {i width : Nat}
    (hi : widths[i]? = some width) : (ws.getD i []).length ≤ width := by
  induction widths generalizing ws i with
  | nil => cases hi
  | cons w widths ih =>
    cases ws with
    | nil => exact Nat.zero_le _
    | cons v ws =>
      cases i with
      | zero =>
        obtain rfl := Option.some_inj.mp hi
        exact h.1
      | succ i => exact ih h.2 hi

/-- A word that fits its field is read whole. -/
theorem scanField_of_fits {w rest : List α} (hw : IsWord p w) (hxs : xs.dropWhile p = w ++ rest)
    (hrest : ∀ x, rest.head? = some x → p x = true) {width : Nat} (h : w.length ≤ width) :
    scanField p width xs = some (w, rest) := by
  have hfield : ((w ++ rest).take width).takeWhile (fun x => !p x) = w := by
    rw [List.take_append, List.take_of_length_le h, List.takeWhile_append_of_pos
      (fun x hx => by simp [hw.2 x hx])]
    cases rest with
    | nil => simp
    | cons x rest =>
      cases width - w.length with
      | zero => simp
      | succ n => simp [hrest x rfl]
  rw [scanField, hxs, hfield, if_neg (by simpa using hw.1), List.drop_left]

theorem scanField_of_nil (h : xs.dropWhile p = []) (width : Nat) : scanField p width xs = none := by
  simp [scanField, h]

/-- When every word fits its field, a scan succeeds if there are as many words as fields, and
reads the words. -/
theorem scan_eq_words (h : Fits widths (words p xs)) :
    scan p widths xs = if (words p xs).length = widths.length then some (words p xs) else none := by
  induction widths generalizing xs with
  | nil =>
    rw [scan]
    obtain ⟨hwords, hxs⟩ | ⟨w, rest, hw, hxs, hwords, -⟩ := words_cases (p := p) xs
    · rw [hwords, hxs]
      rfl
    · rw [hwords, hxs, if_neg (by simp [hw.1]), if_neg (by simp)]
  | cons width widths ih =>
    rw [scan]
    obtain ⟨hwords, hxs⟩ | ⟨w, rest, hw, hxs, hwords, hrest⟩ := words_cases (p := p) xs
    · rw [hwords, scanField_of_nil hxs]
      rfl
    · rw [hwords] at h ⊢
      rw [scanField_of_fits hw hxs hrest h.1, Option.bind_eq_bind, Option.bind_some]
      dsimp only
      rw [ih h.2]
      simp only [List.length_cons, Nat.add_right_cancel_iff]
      split <;> rfl

/-- What a scan reads are words without separators, one for each field, that fit their fields. -/
theorem scan_fits (h : scan p widths xs = some fields) :
    fields.length = widths.length ∧ Fits widths fields ∧ ∀ w ∈ fields, IsWord p w := by
  induction widths generalizing xs fields with
  | nil =>
    rw [scan] at h
    split at h
    · obtain rfl := Option.some_inj.mp h
      exact ⟨rfl, trivial, by simp⟩
    · cases h
  | cons width widths ih =>
    rw [scan, Option.bind_eq_bind, Option.bind_eq_some_iff] at h
    obtain ⟨⟨field, rest⟩, hfield, h⟩ := h
    dsimp only at h
    rw [Option.bind_eq_bind, Option.bind_eq_some_iff] at h
    obtain ⟨fields', hfields, h⟩ := h
    obtain rfl := Option.some_inj.mp h
    rw [scanField] at hfield
    split at hfield
    next => cases hfield
    next hne =>
      obtain ⟨rfl, -⟩ := Prod.mk.inj (Option.some_inj.mp hfield)
      obtain ⟨hlength, hfits, hwords⟩ := ih hfields
      refine ⟨by rw [List.length_cons, hlength, List.length_cons], ⟨?_, hfits⟩, fun w hw => ?_⟩
      · exact (List.takeWhile_sublist _).length_le.trans (List.length_take_le _ _)
      · obtain rfl | hw := List.mem_cons.mp hw
        · refine ⟨by simpa using hne, fun x hx => ?_⟩
          simpa using List.mem_takeWhile_imp hx
        · exact hwords w hw

/-- A scan that succeeds reads the words of the list exactly when each of them fits its field. -/
theorem scan_words_iff (h : scan p widths xs = some fields) :
    fields = words p xs ↔ Fits widths (words p xs) := by
  constructor
  · intro heq
    rw [← heq]
    exact (scan_fits h).2.1
  · intro hfits
    rw [scan_eq_words hfits] at h
    split at h
    · exact (Option.some_inj.mp h).symm
    · cases h

/-! ## Writing words -/

/-- The words with `sep` between them and `stop` at the end. -/
def joined (sep stop : α) (ws : List (List α)) : List α := [sep].intercalate ws ++ [stop]

theorem joined_cons (sep stop : α) (w : List α) {ws : List (List α)} (h : ws ≠ []) :
    joined sep stop (w :: ws) = w ++ sep :: joined sep stop ws := by
  obtain ⟨v, ws, rfl⟩ := List.exists_cons_of_ne_nil h
  simp [joined]

/-- The words of a line are those it was written with. -/
theorem words_joined {sep stop : α} (hsep : p sep = true) (hstop : p stop = true)
    {ws : List (List α)} (hws : ∀ w ∈ ws, IsWord p w) : words p (joined sep stop ws) = ws := by
  induction ws with
  | nil => exact words_sep hstop []
  | cons w ws ih =>
    have hw := hws w List.mem_cons_self
    cases ws with
    | nil =>
      have hline : joined sep stop [w] = w ++ [stop] := by simp [joined]
      rw [hline, words_append hw hstop, words_nil]
    | cons v ws =>
      rw [joined_cons _ _ _ (List.cons_ne_nil _ _), words_append hw hsep,
        ih fun w' hw' => hws w' (List.mem_cons_of_mem _ hw')]

/-- What stands between the words of a line. -/
theorem mem_joined {sep : α} {x : α} {ws : List (List α)} (h : x ∈ [sep].intercalate ws) :
    x = sep ∨ ∃ w ∈ ws, x ∈ w := by
  induction ws with
  | nil => cases h
  | cons w ws ih =>
    cases ws with
    | nil => exact .inr ⟨w, List.mem_cons_self, by simpa using h⟩
    | cons v ws =>
      rw [List.intercalate_cons_cons, List.append_assoc, List.mem_append, List.singleton_append,
        List.mem_cons] at h
      obtain h | h | h := h
      · exact .inr ⟨w, List.mem_cons_self, h⟩
      · exact .inl h
      · exact (ih h).imp_right fun hmem => hmem.imp fun _ hv => ⟨List.mem_cons_of_mem _ hv.1, hv.2⟩

/-- Words that fit their fields make a line of bounded length. -/
theorem length_joined_le {sep : α} {ws : List (List α)} {widths : List Nat}
    (hlength : ws.length = widths.length) (h : Fits widths ws) :
    ([sep].intercalate ws).length ≤ widths.sum + widths.length := by
  induction widths generalizing ws with
  | nil =>
    rw [List.length_nil, List.length_eq_zero_iff] at hlength
    rw [hlength]
    exact Nat.zero_le _
  | cons width widths ih =>
    obtain ⟨w, ws, rfl⟩ := List.exists_cons_of_length_eq_add_one hlength
    rw [List.length_cons, List.length_cons, Nat.add_right_cancel_iff] at hlength
    have hrest := ih hlength h.2
    have hw : w.length ≤ width := h.1
    cases ws with
    | nil =>
      simp only [List.intercalate_singleton, List.sum_cons, List.length_cons]
      omega
    | cons v ws =>
      simp only [List.intercalate_cons_cons, List.length_append, List.length_nil, List.sum_cons,
        List.length_cons] at hrest ⊢
      omega

end HyperIoVm.Data
