import Mathlib.Algebra.GroupWithZero.Nat
import Mathlib.Data.List.Forall2
import Mathlib.Data.List.TakeWhile
import HyperIoVm.Data.Words

/-!
# Text as the C library reads it

Strings, lines and decimal numbers, as `<string.h>`, `<stdio.h>`, `<ctype.h>` and `<stdlib.h>`
treat them. A text is the list of its characters, one for each byte.
-/

namespace HyperIoVm.Data

/-! ## Characters -/

/-- `isspace` in the C locale. -/
def isSpace (c : Char) : Bool := c == ' ' || (9 ≤ c.toNat && c.toNat ≤ 13)

/-- The C string in a buffer: what comes before the first NUL. -/
def cString (cs : List Char) : List Char := cs.takeWhile (· != '\x00')

theorem mem_of_mem_cString {c : Char} {cs : List Char} (h : c ∈ cString cs) : c ∈ cs :=
  (List.takeWhile_sublist _).subset h

theorem cString_eq_self {cs : List Char} (h : '\x00' ∉ cs) : cString cs = cs :=
  List.takeWhile_eq_self_iff.mpr fun _ hc => bne_iff_ne.mpr fun heq => h (heq ▸ hc)

/-- The whole buffer is a C string when what is seen of it reaches the character at its end. -/
theorem cString_eq_of_mem {w : List Char} {c : Char} (hw : c ∉ w)
    (h : c ∈ cString (w ++ [c])) : cString (w ++ [c]) = w ++ [c] := by
  rw [cString, List.takeWhile_append] at h ⊢
  split at h
  next hall =>
    rw [if_pos hall]
    obtain hw' | hc := List.mem_append.mp h
    · exact absurd hw' hw
    · rw [List.takeWhile_cons] at hc ⊢
      split at hc
      next hnul =>
        rw [if_pos hnul, List.takeWhile_nil]
      next => cases hc
  next => exact absurd ((List.takeWhile_sublist _).subset h) hw

/-! ## Lines -/

/-- The lines of a text, each with its newline. -/
def lines : List Char → List (List Char)
  | [] => []
  | c :: cs =>
    if c = '\n' then ['\n'] :: lines cs
    else
      match lines cs with
      | [] => [[c]]
      | l :: ls => (c :: l) :: ls

theorem lines_append {w : List Char} (hw : '\n' ∉ w) (cs : List Char) :
    lines (w ++ '\n' :: cs) = (w ++ ['\n']) :: lines cs := by
  induction w with
  | nil => rw [List.nil_append, lines, if_pos rfl]; rfl
  | cons c w ih =>
    rw [List.mem_cons, not_or] at hw
    rw [List.cons_append, lines, if_neg (Ne.symm hw.1), ih hw.2]
    rfl

/-- A line that has a newline ends in it. -/
theorem mem_lines {l cs : List Char} (hl : l ∈ lines cs) (h : '\n' ∈ l) :
    ∃ w, l = w ++ ['\n'] ∧ '\n' ∉ w := by
  induction cs generalizing l with
  | nil => cases hl
  | cons c cs ih =>
    rw [lines] at hl
    split at hl
    next =>
      obtain rfl | hl := List.mem_cons.mp hl
      · exact ⟨[], rfl, List.not_mem_nil⟩
      · exact ih hl h
    next hc =>
      cases hlines : lines cs with
      | nil =>
        rw [hlines] at hl
        rw [List.mem_singleton.mp hl, List.mem_singleton] at h
        exact absurd h.symm hc
      | cons l' ls =>
        rw [hlines] at hl ih
        obtain rfl | hl := List.mem_cons.mp hl
        · obtain ⟨w, rfl, hw⟩ :=
            ih List.mem_cons_self ((List.mem_cons.mp h).resolve_left (Ne.symm hc))
          exact ⟨c :: w, rfl, by simp [hw, Ne.symm hc]⟩
        · exact ih (List.mem_cons_of_mem _ hl) h

/-- A file as it is read: its contents, and whether reading ends in an error instead of at the end
of the file. -/
structure Stream where
  contents : List Char
  fails : Bool := false
  deriving DecidableEq, Repr

/-- The lines that `fgets` returns, with `line` already in a buffer that has room for `room`
characters, until it returns a null pointer. -/
def fgetsFrom (room : Nat) (fails : Bool) : (line cs : List Char) → List (List Char)
  | line, [] => if fails || line.isEmpty then [] else [line]
  | line, c :: cs =>
    if c = '\n' ∨ line.length + 1 = room then (line ++ [c]) :: fgetsFrom room fails [] cs
    else fgetsFrom room fails (line ++ [c]) cs

/-- `fgets(line, size, file)`, called until it returns a null pointer. -/
def Stream.fgets (s : Stream) (size : Nat) : List (List Char) :=
  fgetsFrom (size - 1) s.fails [] s.contents

/-- A line that fits the buffer is returned whole. -/
theorem fgetsFrom_line {room : Nat} {fails : Bool} {line w : List Char} (hw : '\n' ∉ w)
    (h : line.length + w.length < room) (cs : List Char) :
    fgetsFrom room fails line (w ++ '\n' :: cs) =
      (line ++ w ++ ['\n']) :: fgetsFrom room fails [] cs := by
  induction w generalizing line with
  | nil => rw [List.nil_append, fgetsFrom, if_pos (.inl rfl), List.append_nil]
  | cons c w ih =>
    rw [List.mem_cons, not_or] at hw
    rw [List.length_cons] at h
    have hroom : ¬ (c = '\n' ∨ line.length + 1 = room) := by
      rintro (rfl | hlast)
      · exact hw.1 rfl
      · omega
    rw [List.cons_append, fgetsFrom, if_neg hroom,
      ih hw.2 (by rw [List.length_append]; simp; omega)]
    simp

/-- When every buffer ends in a newline, the buffers are the lines of the text. -/
theorem fgetsFrom_complete {room : Nat} {line cs : List Char} (hline : '\n' ∉ line)
    (h : ∀ l ∈ fgetsFrom room false line cs, '\n' ∈ l) :
    fgetsFrom room false line cs = lines (line ++ cs) := by
  induction cs generalizing line with
  | nil =>
    cases line with
    | nil => rfl
    | cons c line =>
      rw [fgetsFrom] at h
      exact absurd (h (c :: line) (by simp)) hline
  | cons c cs ih =>
    rw [fgetsFrom] at h ⊢
    by_cases hc : c = '\n'
    · subst hc
      rw [if_pos (.inl rfl)] at h ⊢
      rw [lines_append hline, ih List.not_mem_nil fun l hl => h l (List.mem_cons_of_mem _ hl)]
      rfl
    · have hline' : '\n' ∉ line ++ [c] := by simp [hline, Ne.symm hc]
      by_cases hroom : line.length + 1 = room
      · rw [if_pos (.inr hroom)] at h
        exact absurd (h _ List.mem_cons_self) hline'
      · rw [if_neg (by simp [hc, hroom])] at h ⊢
        rw [ih hline' h, List.append_assoc]
        rfl

theorem Stream.fgets_eq_lines {s : Stream} (hs : s.fails = false) {size : Nat}
    (h : ∀ l ∈ s.fgets size, '\n' ∈ l) : s.fgets size = lines s.contents := by
  rw [fgets, hs] at h ⊢
  exact fgetsFrom_complete List.not_mem_nil h

/-- Buffers that are seen to reach a newline are C strings. -/
theorem Stream.cString_of_mem_fgets {s : Stream} (hs : s.fails = false) {size : Nat}
    (h : ∀ l ∈ s.fgets size, '\n' ∈ cString l) :
    s.fgets size = lines s.contents ∧ ∀ l ∈ lines s.contents, cString l = l := by
  have hlines := fgets_eq_lines hs fun l hl => mem_of_mem_cString (h l hl)
  refine ⟨hlines, fun l hl => ?_⟩
  have hl' := h l (by rw [hlines]; exact hl)
  obtain ⟨w, rfl, hw⟩ := mem_lines hl (mem_of_mem_cString hl')
  exact cString_eq_of_mem hw hl'

/-- Lines that fit the buffer are read back. -/
theorem Stream.fgets_of_lines {size : Nat} {ls : List (List Char)}
    (h : ∀ l ∈ ls, '\n' ∉ l ∧ l.length + 1 < size) :
    (Stream.mk (ls.flatMap (· ++ ['\n'])) false).fgets size = ls.map (· ++ ['\n']) := by
  rw [fgets]
  induction ls with
  | nil => rfl
  | cons l ls ih =>
    obtain ⟨hl, hsize⟩ := h l List.mem_cons_self
    rw [List.flatMap_cons, List.append_assoc, List.singleton_append,
      fgetsFrom_line hl (by simp; omega), ih fun l' hl' => h l' (List.mem_cons_of_mem _ hl')]
    rfl

/-! ## Tables -/

section Tables

variable {β : Type}

/-- Read a table with one entry a line; `entry` reads a line, given the entries before it. -/
def readEntries (entry : List β → List Char → Option β) :
    (entries : List β) → List (List Char) → Option (List β)
  | entries, [] => some entries
  | entries, line :: rest => do
    let e ← entry entries line
    readEntries entry (entries ++ [e]) rest

variable {entry : List β → List Char → Option β} {entries entries' : List β}
  {rest : List (List Char)}

/-- What every entry keeps holds of the whole table. -/
theorem readEntries_keeps {P : List β → Prop}
    (hstep : ∀ entries line e, P entries → entry entries line = some e → P (entries ++ [e]))
    (h : P entries) (hread : readEntries entry entries rest = some entries') : P entries' := by
  induction rest generalizing entries with
  | nil =>
    obtain rfl := Option.some_inj.mp hread
    exact h
  | cons line rest ih =>
    obtain ⟨e, he, hread⟩ := Option.bind_eq_some_iff.mp hread
    exact ih (hstep entries line e h he) hread

/-- Each line gave its entry. -/
theorem readEntries_each (hread : readEntries entry entries rest = some entries') :
    ∃ added, entries' = entries ++ added ∧
      List.Forall₂ (fun line e => ∃ before, entry before line = some e) rest added := by
  induction rest generalizing entries with
  | nil =>
    obtain rfl := Option.some_inj.mp hread
    exact ⟨[], (List.append_nil _).symm, .nil⟩
  | cons line rest ih =>
    obtain ⟨e, he, hread⟩ := Option.bind_eq_some_iff.mp hread
    obtain ⟨added, rfl, hadded⟩ := ih hread
    exact ⟨e :: added, by rw [List.append_assoc]; rfl, .cons ⟨entries, he⟩ hadded⟩

theorem readEntries_lines (hread : readEntries entry entries rest = some entries') :
    ∀ line ∈ rest, ∃ before e, entry before line = some e := by
  obtain ⟨added, -, hadded⟩ := readEntries_each hread
  intro line hline
  obtain ⟨i, hi, rfl⟩ := List.getElem_of_mem hline
  obtain ⟨before, hbefore⟩ := hadded.get hi (by rw [← hadded.length_eq]; exact hi)
  exact ⟨before, _, hbefore⟩

/-- A table is read back from lines that are. -/
theorem readEntries_text {text : β → List Char} {added : List β}
    (h : ∀ pre e post, entries ++ added = pre ++ e :: post → entry pre (text e) = some e) :
    readEntries entry entries (added.map text) = some (entries ++ added) := by
  induction added generalizing entries with
  | nil => rw [List.append_nil]; rfl
  | cons e added ih =>
    rw [List.map_cons, readEntries, h entries e added rfl, Option.bind_eq_bind, Option.bind_some,
      ih fun pre e' post heq => h pre e' post (by rw [← heq, List.append_assoc]; rfl),
      List.append_assoc]
    rfl

/-- When every entry takes a whole line, the buffers of a table are the lines of its text, and each
is a C string. -/
theorem Stream.lines_of_table {s : Stream} (hs : s.fails = false) {size : Nat}
    {header buffer : List Char} (hfgets : s.fgets size = buffer :: rest)
    (hheader : cString buffer = header ++ ['\n'])
    (hline : ∀ before line e, entry before line = some e → '\n' ∈ cString line)
    (hread : readEntries entry entries rest = some entries') :
    lines s.contents = (header ++ ['\n']) :: rest ∧ ∀ line ∈ rest, cString line = line := by
  have hnewlines : ∀ l ∈ s.fgets size, '\n' ∈ cString l := by
    intro l hl
    rw [hfgets] at hl
    obtain rfl | hl := List.mem_cons.mp hl
    · rw [hheader]
      simp
    · obtain ⟨before, e, he⟩ := readEntries_lines hread l hl
      exact hline before l e he
  obtain ⟨hlines, hcstring⟩ := cString_of_mem_fgets hs hnewlines
  rw [hfgets] at hlines
  rw [← hlines] at hcstring ⊢
  rw [hcstring buffer List.mem_cons_self] at hheader
  rw [hheader]
  exact ⟨rfl, fun line hline => hcstring line (List.mem_cons_of_mem _ hline)⟩

end Tables

/-! ## Decimal numbers -/

/-- `%u`. -/
def decimal (n : Nat) : List Char := Nat.toDigits 10 n

/-- The value of a string of decimal digits. -/
def digitsValue (cs : List Char) : Nat := Nat.ofDigitChars 10 cs 0

theorem digitsValue_decimal (n : Nat) : digitsValue (decimal n) = n := Nat.ofDigitChars_ten_toDigits

theorem decimal_digits {n : Nat} : ∀ c ∈ decimal n, c.isDigit = true :=
  fun _ hc => Nat.isDigit_of_mem_toDigits (by decide) (by decide) hc

theorem decimal_ne_nil (n : Nat) : decimal n ≠ [] := Nat.toDigits_ne_nil

theorem decimal_length_le {n k : Nat} (hk : 0 < k) (h : n < 10 ^ k) : (decimal n).length ≤ k :=
  (Nat.length_toDigits_le_iff (by decide) hk).mpr h

/-- `strtoul(text, &end, 10)` with a 64-bit result: the value, and the text at `end`. -/
def strtoul (text : List Char) : UInt64 × List Char :=
  let rest := text.dropWhile isSpace
  let negative := rest.head? == some '-'
  let rest := if negative || rest.head? == some '+' then rest.tail else rest
  let digits := rest.takeWhile Char.isDigit
  if digits.isEmpty then (0, text)
  else
    let n := digitsValue digits
    (if n ≥ 2 ^ 64 then .ofNat (2 ^ 64 - 1) else if negative then - .ofNat n else .ofNat n,
      rest.drop digits.length)

theorem toNat_of_isDigit {c : Char} (h : c.isDigit = true) : 48 ≤ c.toNat ∧ c.toNat ≤ 57 := by
  simpa [Char.isDigit, UInt32.le_iff_toNat_le] using h

theorem toNat_of_isLower {c : Char} (h : c.isLower = true) : 97 ≤ c.toNat ∧ c.toNat ≤ 122 := by
  obtain ⟨hlow, hhigh⟩ := Bool.and_eq_true_iff.mp h
  exact ⟨UInt32.le_iff_toNat_le.mp (of_decide_eq_true hlow),
    UInt32.le_iff_toNat_le.mp (of_decide_eq_true hhigh)⟩

theorem toNat_of_isUpper {c : Char} (h : c.isUpper = true) : 65 ≤ c.toNat ∧ c.toNat ≤ 90 := by
  obtain ⟨hlow, hhigh⟩ := of_decide_eq_true h
  exact ⟨UInt32.le_iff_toNat_le.mp hlow, UInt32.le_iff_toNat_le.mp hhigh⟩

theorem isSpace_of_above {c : Char} (h : 32 < c.toNat) : isSpace c = false := by
  have hspace : c ≠ ' ' := by
    rintro rfl
    simp at h
  simp only [isSpace, Bool.or_eq_false_iff, beq_eq_false_iff_ne, Bool.and_eq_false_iff,
    decide_eq_false_iff_not]
  exact ⟨hspace, .inr (by omega)⟩

/-- A string of digits is read to its end. -/
theorem strtoul_digits {cs : List Char} (hcs : cs ≠ []) (h : ∀ c ∈ cs, c.isDigit = true)
    (hvalue : digitsValue cs < 2 ^ 64) : strtoul cs = (.ofNat (digitsValue cs), []) := by
  cases cs with
  | nil => exact absurd rfl hcs
  | cons c cs =>
    have hc := h c List.mem_cons_self
    have hspace : ¬ isSpace c = true := by
      rw [isSpace_of_above ((toNat_of_isDigit hc).1.trans_lt' (by decide))]
      decide
    have hsign (sign : Char) (hsign : sign.isDigit = false) :
        ((c :: cs).head? == some sign) = false := by
      rw [List.head?_cons, beq_eq_false_iff_ne]
      intro heq
      rw [Option.some_inj.mp heq, hsign] at hc
      cases hc
    have hdigits : (c :: cs).takeWhile Char.isDigit = c :: cs := List.takeWhile_eq_self_iff.mpr h
    have hsmall : ¬ digitsValue (c :: cs) ≥ 2 ^ 64 := Nat.not_le.mpr hvalue
    rw [strtoul]
    dsimp only
    rw [List.dropWhile_cons_of_neg hspace, hsign '-' (by decide), hsign '+' (by decide),
      Bool.false_or, if_neg (show ¬ false = true by decide), hdigits, List.isEmpty_cons,
      if_neg (show ¬ false = true by decide), if_neg hsmall,
      if_neg (show ¬ false = true by decide), List.drop_length]

/-! ## Hexadecimal numbers -/

/-- The value of a hexadecimal digit. -/
def digitValue (c : Char) : Nat := if c.isDigit then c.toNat - 48 else c.toNat - 87

/-- The value of a string of hexadecimal digits. -/
def hexValue (cs : List Char) : Nat := cs.foldl (fun n c => 16 * n + digitValue c) 0

theorem digitValue_digitChar {d : Nat} (h : d < 16) : digitValue (Nat.digitChar d) = d := by
  have hall : ∀ d : Fin 16, digitValue (Nat.digitChar d) = d := by decide
  exact hall ⟨d, h⟩

theorem hexValue_concat (cs : List Char) (c : Char) :
    hexValue (cs ++ [c]) = 16 * hexValue cs + digitValue c := by
  rw [hexValue, List.foldl_append]
  rfl

theorem hexValue_toDigits (n : Nat) : hexValue (Nat.toDigits 16 n) = n := by
  induction n using Nat.strongRecOn with
  | ind n ih =>
    rw [Nat.toDigits_eq_if (by decide)]
    split
    next hsmall =>
      show 16 * 0 + digitValue (Nat.digitChar n) = n
      rw [digitValue_digitChar hsmall]
      omega
    next =>
      rw [hexValue_concat, ih (n / 16) (by omega), digitValue_digitChar (Nat.mod_lt _ (by decide))]
      omega

/-- Leading zeros do not count. -/
theorem hexValue_padded (k : Nat) (cs : List Char) :
    hexValue (List.replicate k '0' ++ cs) = hexValue cs := by
  induction k with
  | zero => rfl
  | succ k ih =>
    rw [← ih]
    rfl

/-! ## Plain words -/

/-- A word of characters above the space: no separators, no controls. -/
structure IsPlain (w : List Char) : Prop where
  ne_nil : w ≠ []
  above : ∀ c ∈ w, 32 < c.toNat

theorem IsPlain.isWord {w : List Char} (h : IsPlain w) : IsWord isSpace w :=
  ⟨h.ne_nil, fun c hc => isSpace_of_above (h.above c hc)⟩

theorem isPlain_digits {w : List Char} (hw : w ≠ []) (h : ∀ c ∈ w, c.isDigit = true) :
    IsPlain w := ⟨hw, fun c hc => (toNat_of_isDigit (h c hc)).1.trans_lt' (by decide)⟩

theorem isPlain_decimal (n : Nat) : IsPlain (decimal n) :=
  isPlain_digits (decimal_ne_nil n) decimal_digits

/-- A line of plain words is a C string, which ends in its only newline. -/
theorem spaced_line {ws : List (List Char)} (h : ∀ w ∈ ws, IsPlain w) :
    '\n' ∉ [' '].intercalate ws ∧ cString (joined ' ' '\n' ws) = joined ' ' '\n' ws := by
  have hmem (c : Char) (hc : c ∈ [' '].intercalate ws) : 32 ≤ c.toNat := by
    obtain rfl | ⟨w, hw, hc⟩ := mem_joined hc
    · decide
    · exact ((h w hw).above c hc).le
  have hnewline : '\n' ∉ [' '].intercalate ws := fun hc => absurd (hmem _ hc) (by decide)
  refine ⟨hnewline, cString_eq_self fun hc => ?_⟩
  obtain hc | hc := List.mem_append.mp hc
  · exact absurd (hmem _ hc) (by decide)
  · exact absurd (List.mem_singleton.mp hc) (by decide)

/-- A table of plain words under a header is read back line by line. -/
theorem Stream.fgets_table {size : Nat} {header : List Char} {rows : List (List (List Char))}
    (hheader : '\n' ∉ header ∧ header.length + 1 < size)
    (hrows : ∀ ws ∈ rows, (∀ w ∈ ws, IsPlain w) ∧ ([' '].intercalate ws).length + 1 < size) :
    (Stream.mk ((header ++ ['\n']) ++ rows.flatMap (joined ' ' '\n')) false).fgets size =
      (header ++ ['\n']) :: rows.map (joined ' ' '\n') := by
  have hlines : (Stream.mk ((header :: rows.map [' '].intercalate).flatMap (· ++ ['\n']))
      false).fgets size = (header :: rows.map [' '].intercalate).map (· ++ ['\n']) := by
    refine fgets_of_lines fun l hl => ?_
    obtain rfl | hl := List.mem_cons.mp hl
    · exact hheader
    · obtain ⟨ws, hws, rfl⟩ := List.mem_map.mp hl
      exact ⟨(spaced_line (hrows ws hws).1).1, (hrows ws hws).2⟩
  rw [List.flatMap_cons, List.flatMap_map, List.map_cons, List.map_map] at hlines
  exact hlines

end HyperIoVm.Data
