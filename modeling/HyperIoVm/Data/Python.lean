import HyperIoVm.Data.Text

/-!
# Slices and numbers as Python treats them

Slices of a sequence, whose bounds may be negative; `int(text, 16)`, with the spaces, the sign, the
prefix and the underscores it allows; the padded hexadecimal numbers it reads back; and the bytes of
a text.
-/

namespace HyperIoVm.Data

/-! ## Slices -/

section Slices

variable {α : Type}

/-- The place a bound of a slice stands for: a negative one counts from the end. -/
def sliceBound (length : Nat) (i : Int) : Nat :=
  if i < 0 then (i + length).toNat else min i.toNat length

/-- `xs[i:]`. -/
def sliceFrom (xs : List α) (i : Int) : List α := xs.drop (sliceBound xs.length i)

/-- `xs[i:j]`. -/
def slice (xs : List α) (i j : Int) : List α :=
  (sliceFrom xs i).take (sliceBound xs.length j - sliceBound xs.length i)

theorem sliceBound_ofNat {length n : Nat} (h : n ≤ length) : sliceBound length n = n := by
  rw [sliceBound, if_neg (by omega), Int.toNat_natCast, Nat.min_eq_left h]

theorem sliceFrom_append (xs ys : List α) : sliceFrom (xs ++ ys) xs.length = ys := by
  rw [sliceFrom, sliceBound_ofNat (by simp), List.drop_left]

theorem slice_append (xs ys zs : List α) {i j : Int} (hi : i = xs.length)
    (hj : j = (xs.length + ys.length : Nat)) : slice (xs ++ (ys ++ zs)) i j = ys := by
  subst hi hj
  rw [slice, sliceFrom_append, sliceBound_ofNat (by simp), sliceBound_ofNat (by simp),
    Nat.add_sub_cancel_left, List.take_left]

theorem sliceFrom_ofNat (xs : List α) (n : Nat) : sliceFrom xs n = xs.drop n := by
  rw [sliceFrom, sliceBound, if_neg (by omega), Int.toNat_natCast]
  obtain h | h := Nat.le_total n xs.length
  · rw [Nat.min_eq_left h]
  · rw [Nat.min_eq_right h, List.drop_length, List.drop_eq_nil_of_le h]

/-- A slice with bounds that are not negative. -/
theorem slice_ofNat (xs : List α) (i j : Nat) : slice xs i j = (xs.drop i).take (j - i) := by
  rw [slice, sliceFrom_ofNat, sliceBound, sliceBound, if_neg (by omega), if_neg (by omega),
    Int.toNat_natCast, Int.toNat_natCast, List.take_eq_take_iff, List.length_drop]
  omega

theorem slice_self (xs : List α) (i : Int) : slice xs i i = [] := by
  rw [slice, Nat.sub_self, List.take_zero]

end Slices

/-! ## Rounding -/

/-- `(n + 3) & ~3`. -/
def alignUp (n : Int) : Int := (n + 3) / 4 * 4

/-- `-n % 4`. -/
def padding (n : Nat) : Nat := (-(n : Int) % 4).toNat

theorem alignUp_ofNat (n : Nat) : alignUp n = (n + padding n : Nat) := by
  rw [alignUp, padding]
  omega

theorem dvd_add_padding (n : Nat) : 4 ∣ n + padding n := by
  rw [padding]
  omega

/-- The padding of what follows an aligned part does not depend on that part. -/
theorem padding_add {m : Nat} (h : 4 ∣ m) (n : Nat) : padding (m + n) = padding n := by
  rw [padding, padding]
  omega

/-- Rounding up behind an aligned part. -/
theorem alignUp_add {m : Nat} (h : 4 ∣ m) (n : Nat) :
    alignUp (m + n : Nat) = (m + (n + padding n) : Nat) := by
  rw [alignUp_ofNat, padding_add h, Nat.add_assoc]

/-! ## Numbers -/

def isHexDigit (c : Char) : Bool :=
  c.isDigit || ('a' ≤ c && c ≤ 'f') || ('A' ≤ c && c ≤ 'F')

/-- Drop the prefix `0x`, with the underscore that may follow it. -/
def dropHexPrefix (text : List Char) : List Char :=
  if text.take 2 == ['0', 'x'] || text.take 2 == ['0', 'X'] then
    if text[2]? == some '_' then text.drop 3 else text.drop 2
  else text

/-- The underscores stand between digits, one at a time. -/
def underscoresValid (digits : List Char) : Bool :=
  digits.head? != some '_' && digits.getLast? != some '_' &&
    (digits.zip digits.tail).all (· != ('_', '_'))

/-- `int(text, 16)`. -/
def intBase16 (text : List Char) : Option Int :=
  let text := text.dropWhile isSpace
  let negative := text.head? == some '-'
  let text := if negative || text.head? == some '+' then text.tail else text
  let text := dropHexPrefix text
  let digits := text.takeWhile fun c => isHexDigit c || c == '_'
  if digits.isEmpty || !underscoresValid digits || !(text.drop digits.length).all isSpace then none
  else
    let n : Int := hexValue ((digits.filter (· != '_')).map Char.toLower)
    some (if negative then -n else n)

/-- `f"{n:0{width}x}"`. -/
def hexPadded (width n : Nat) : List Char :=
  List.replicate (width - (Nat.toDigits 16 n).length) '0' ++ Nat.toDigits 16 n

theorem mem_toDigits_hex {n : Nat} {c : Char} (h : c ∈ Nat.toDigits 16 n) :
    ∃ d < 16, c = Nat.digitChar d := by
  induction n using Nat.strongRecOn with
  | ind n ih =>
    rw [Nat.toDigits_eq_if (by decide)] at h
    split at h
    next hsmall =>
      exact ⟨n, hsmall, List.mem_singleton.mp h⟩
    next =>
      obtain h | h := List.mem_append.mp h
      · exact ih (n / 16) (by omega) h
      · exact ⟨n % 16, Nat.mod_lt _ (by decide), List.mem_singleton.mp h⟩

theorem mem_hexPadded {width n : Nat} {c : Char} (h : c ∈ hexPadded width n) :
    ∃ d < 16, c = Nat.digitChar d := by
  obtain h | h := List.mem_append.mp h
  · exact ⟨0, by decide, (List.mem_replicate.mp h).2⟩
  · exact mem_toDigits_hex h

theorem length_hexPadded {width n : Nat} (hwidth : 0 < width) (h : n < 16 ^ width) :
    (hexPadded width n).length = width := by
  have hlength := (Nat.length_toDigits_le_iff (b := 16) (by decide) hwidth).mpr h
  rw [hexPadded, List.length_append, List.length_replicate]
  omega

/-- The digits that are written are lower-case ASCII, and nothing else that is looked for. -/
theorem digitChar_spec {d : Nat} (h : d < 16) : isHexDigit (Nat.digitChar d) = true ∧
    isSpace (Nat.digitChar d) = false ∧ (Nat.digitChar d).toLower = Nat.digitChar d ∧
      (Nat.digitChar d).toNat < 128 ∧ Nat.digitChar d ∉ ['-', '+', '_', 'x', 'X'] := by
  have hall : ∀ d : Fin 16, isHexDigit (Nat.digitChar d) = true ∧
      isSpace (Nat.digitChar d) = false ∧ (Nat.digitChar d).toLower = Nat.digitChar d ∧
        (Nat.digitChar d).toNat < 128 ∧ Nat.digitChar d ∉ ['-', '+', '_', 'x', 'X'] := by
    decide
  exact hall ⟨d, h⟩

/-- Digits are above the spaces, and neither signs nor underscores nor part of a prefix. -/
theorem isHexDigit_spec {c : Char} (h : isHexDigit c = true) :
    isSpace c = false ∧ c ∉ ['-', '+', '_', 'x', 'X'] := by
  have hlow {low high : Char} (h : (low ≤ c && c ≤ high) = true) : low.toNat ≤ c.toNat :=
    UInt32.le_iff_toNat_le.mp (of_decide_eq_true (Bool.and_eq_true_iff.mp h).1)
  have habove : 48 ≤ c.toNat := by
    rw [isHexDigit, Bool.or_eq_true, Bool.or_eq_true] at h
    obtain (h | h) | h := h
    · exact (toNat_of_isDigit h).1
    · exact Nat.le_trans (by decide) (hlow h)
    · exact Nat.le_trans (by decide) (hlow h)
  refine ⟨isSpace_of_above (Nat.lt_of_lt_of_le (by decide) habove), fun hmem => ?_⟩
  simp only [List.mem_cons, List.not_mem_nil, or_false] at hmem
  obtain rfl | rfl | rfl | rfl | rfl := hmem <;> exact Bool.noConfusion h

/-- A text of digits is read as its value. -/
theorem intBase16_digits {cs : List Char} (hcs : cs ≠ []) (h : ∀ c ∈ cs, isHexDigit c = true) :
    intBase16 cs = some (hexValue (cs.map Char.toLower) : Int) := by
  have hspec (c : Char) (hc : c ∈ cs) := isHexDigit_spec (h c hc)
  have hnot (c : Char) (hc : c ∈ ['-', '+', '_', 'x', 'X']) : c ∉ cs :=
    fun hmem => (hspec c hmem).2 hc
  have hspaces : cs.dropWhile isSpace = cs := by
    cases cs with
    | nil => rfl
    | cons c cs =>
      rw [List.dropWhile_cons_of_neg]
      rw [(hspec c List.mem_cons_self).1]
      decide
  have hhead (c : Char) (hc : c ∈ ['-', '+', '_', 'x', 'X']) : (cs.head? == some c) = false := by
    rw [beq_eq_false_iff_ne]
    intro heq
    exact hnot c hc (List.mem_of_head? heq)
  have hprefix : dropHexPrefix cs = cs := by
    have htake (c : Char) (hc : c ∈ ['-', '+', '_', 'x', 'X']) :
        (cs.take 2 == ['0', c]) = false := by
      rw [beq_eq_false_iff_ne]
      intro heq
      apply hnot c hc
      apply List.mem_of_mem_take (i := 2)
      rw [heq]
      simp
    rw [dropHexPrefix, htake 'x' (by decide), htake 'X' (by decide)]
    rfl
  have hdigits : (cs.takeWhile fun c => isHexDigit c || c == '_') = cs := by
    apply List.takeWhile_eq_self_iff.mpr
    intro c hc
    rw [h c hc, Bool.true_or]
  have hunderscores : underscoresValid cs = true := by
    have hlast : (cs.getLast? == some '_') = false := by
      rw [beq_eq_false_iff_ne]
      intro heq
      exact hnot '_' (by decide) (List.mem_of_getLast? heq)
    have hpairs : (cs.zip cs.tail).all (· != ('_', '_')) = true := by
      rw [List.all_eq_true]
      intro p hp
      rw [bne_iff_ne]
      intro heq
      subst heq
      exact hnot '_' (by decide) (List.of_mem_zip hp).1
    rw [underscoresValid, bne, bne, hhead '_' (by decide), hlast, hpairs]
    rfl
  have hfilter : cs.filter (· != '_') = cs := by
    apply List.filter_eq_self.mpr
    intro c hc
    rw [bne_iff_ne]
    intro heq
    exact hnot '_' (by decide) (heq ▸ hc)
  have hempty : cs.isEmpty = false := by
    rw [List.isEmpty_eq_false_iff]
    exact hcs
  rw [intBase16]
  dsimp only
  rw [hspaces, hhead '-' (by decide), hhead '+' (by decide), Bool.or_false,
    if_neg Bool.false_ne_true, hprefix, hdigits, hempty, hunderscores, List.drop_length, hfilter]
  rfl

/-- A padded number is read back. -/
theorem intBase16_hexPadded (width n : Nat) :
    intBase16 (hexPadded width n) = some (n : Int) := by
  have hne : hexPadded width n ≠ [] := by
    intro heq
    exact Nat.toDigits_ne_nil (List.append_eq_nil_iff.mp heq).2
  have hdigits (c : Char) (hc : c ∈ hexPadded width n) : isHexDigit c = true ∧ c.toLower = c := by
    obtain ⟨d, hd, rfl⟩ := mem_hexPadded hc
    exact ⟨(digitChar_spec hd).1, (digitChar_spec hd).2.2.1⟩
  rw [intBase16_digits hne fun c hc => (hdigits c hc).1,
    List.map_congr_left (g := id) fun c hc => (hdigits c hc).2, List.map_id, hexPadded,
    hexValue_padded, hexValue_toDigits]

/-! ## Encodings -/

/-- The bytes of a text of ASCII characters. -/
def asciiBytes (text : List Char) : List UInt8 := text.map fun c => .ofNat c.toNat

/-- Bytes as the characters with their codes. -/
def asciiText (bytes : List UInt8) : List Char := bytes.map fun b => .ofNat b.toNat

/-- The bytes of an ASCII text are that text. -/
theorem asciiText_asciiBytes {text : List Char} (h : ∀ c ∈ text, c.toNat < 128) :
    asciiText (asciiBytes text) = text := by
  rw [asciiText, asciiBytes, List.map_map, List.map_congr_left (g := id) fun c hc => ?_,
    List.map_id]
  have hc : c.toNat < 2 ^ 8 := (h c hc).trans (by decide)
  show Char.ofNat (UInt8.ofNat c.toNat).toNat = c
  rw [UInt8.toNat_ofNat_of_lt' hc, Char.ofNat_toNat]

theorem asciiText_injective : Function.Injective asciiText := by
  refine List.map_injective_iff.mpr fun b b' hb => ?_
  have hvalid (b : UInt8) : (Char.ofNat b.toNat).toNat = b.toNat := by
    have hvalid : b.toNat.isValidChar := .inl (Nat.lt_trans b.toNat_lt (by decide))
    rw [Char.ofNat, dif_pos hvalid]
    rfl
  apply UInt8.toNat_inj.mp
  rw [← hvalid b, hb, hvalid b']

/-- `text.encode()`. -/
def utf8Bytes (text : String) : List UInt8 := text.toUTF8.data.toList

/-- `bytes.decode("utf-8")`. -/
def utf8Text (bytes : List UInt8) : Option String := String.fromUTF8? ⟨bytes.toArray⟩

theorem utf8Text_utf8Bytes (text : String) : utf8Text (utf8Bytes text) = some text := by
  have hbytes : (⟨(utf8Bytes text).toArray⟩ : ByteArray) = text.toByteArray := by
    rw [utf8Bytes, Array.toArray_toList, String.toUTF8_eq_toByteArray]
  rw [utf8Text, hbytes]
  exact dif_pos text.isValidUTF8

theorem utf8Bytes_of_utf8Text {bytes : List UInt8} {text : String}
    (h : utf8Text bytes = some text) : utf8Bytes text = bytes := by
  rw [utf8Text, String.fromUTF8?] at h
  split at h
  · obtain rfl := Option.some_inj.mp h
    rfl
  · cases h

/-- Only NUL has a zero byte. -/
theorem eq_nul_of_zero_mem {c : Char} (h : 0 ∈ String.utf8EncodeChar c) : c = '\x00' := by
  have hne {n : Nat} (hn : n < 256) (h : (0 : UInt8) = .ofNat n) : n = 0 := by
    have hnat := congrArg UInt8.toNat h
    rw [UInt8.toNat_ofNat_of_lt' hn] at hnat
    exact hnat.symm
  have hc : c.val.toNat < 0x110000 := by
    obtain hc | hc := c.valid
    · omega
    · exact hc.2
  rw [String.utf8EncodeChar] at h
  split at h
  · have hzero := hne (by omega) (List.mem_singleton.mp h)
    exact Char.toNat_inj.mp hzero
  · exfalso
    split at h
    · simp only [List.mem_cons, List.not_mem_nil, or_false] at h
      obtain h | h := h <;> exact absurd (hne (by omega) h) (by omega)
    · split at h <;> simp only [List.mem_cons, List.not_mem_nil, or_false] at h
      · obtain h | h | h := h <;> exact absurd (hne (by omega) h) (by omega)
      · obtain h | h | h | h := h <;> exact absurd (hne (by omega) h) (by omega)

theorem nul_mem_of_zero_mem {text : String} (h : 0 ∈ utf8Bytes text) : '\x00' ∈ text.toList := by
  have htext : text = String.ofList text.toList := String.ofList_toList.symm
  rw [utf8Bytes, htext, String.toUTF8_eq_toByteArray, String.toByteArray_ofList,
    List.utf8Encode] at h
  rw [List.toList_data_toByteArray, List.mem_flatMap] at h
  obtain ⟨c, hc, hzero⟩ := h
  rw [← eq_nul_of_zero_mem hzero]
  exact hc

end HyperIoVm.Data
