import HyperIoVm.Backend
import HyperIoVm.Data.Text

/-!
# Resources of a client (`include/hyper_network.h`, `include/hyper_scsi_resources.h`)

The numbers and the MAC that the supervisor and a service read from text, with the limits both
keep to.
-/

namespace HyperIoVm

open Data

/-! ## Limits -/

def intMax : Nat := 2147483647
def hyperMaxNetworks : Nat := 8
def hyperNetRxBacklogPackets : UInt32 := 1000
def hyperNetRxBacklogMax : UInt32 := 65536
def hyperNetTxBufferMin : UInt32 := 65536
def hyperScsiRequestQueues : UInt32 := 4
def hyperScsiSgPrealloc : UInt32 := 128

/-- `hyper_scsi_resources_valid`. -/
def hyperScsiResourcesValid (queues sg : UInt32) : Bool :=
  queues ≥ 1 && queues ≤ hyperScsiRequestQueues && sg ≥ 2 && sg ≤ 2048

theorem hyperScsiResourcesValid_iff {queues sg : UInt32} :
    hyperScsiResourcesValid queues sg = true ↔
      (1 ≤ queues.toNat ∧ queues.toNat ≤ 4) ∧ 2 ≤ sg.toNat ∧ sg.toNat ≤ 2048 := by
  simp only [hyperScsiResourcesValid, hyperScsiRequestQueues, ge_iff_le, Bool.and_eq_true,
    decide_eq_true_eq, UInt32.le_iff_toNat_le, and_assoc]
  rfl

/-! ## Numbers -/

/-- The loop of `hyper_network_resource_number`; the check keeps `result` in range. -/
def resourceDigits (result : Nat) : List Char → Option Nat
  | [] => some result
  | c :: text =>
    if !c.isDigit then none
    else
      let digit := c.toNat - '0'.toNat
      if result > (intMax - digit) / 10 then none else resourceDigits (10 * result + digit) text

/-- `hyper_network_resource_number`. -/
def hyperNetworkResourceNumber (text : List Char) : Option UInt32 :=
  if text.isEmpty then none else (resourceDigits 0 text).map .ofNat

/-- `hyper_network_resources_parse`. -/
def hyperNetworkResourcesParse (rx tx : List Char) : Option NetworkResources := do
  let rxBacklogPackets ← hyperNetworkResourceNumber rx
  let txBufferBytes ← hyperNetworkResourceNumber tx
  if rxBacklogPackets = 0 ∨ rxBacklogPackets > hyperNetRxBacklogMax ∨
    txBufferBytes ≠ 0 ∧ txBufferBytes < hyperNetTxBufferMin then none
  return { rxBacklogPackets, txBufferBytes }

/-- The loop reads digits, and gives their value unless it exceeds `INT_MAX`. -/
theorem resourceDigits_eq_some {result n : Nat} {text : List Char} (h : result ≤ intMax) :
    resourceDigits result text = some n ↔
      (∀ c ∈ text, c.isDigit = true) ∧ Nat.ofDigitChars 10 text result ≤ intMax ∧
        n = Nat.ofDigitChars 10 text result := by
  induction text generalizing result with
  | nil =>
    simp only [resourceDigits, Option.some.injEq, Nat.ofDigitChars_nil, List.not_mem_nil,
      false_implies, implies_true, true_and]
    exact ⟨fun hn => ⟨h, hn.symm⟩, fun hn => hn.2.symm⟩
  | cons c text ih =>
    rw [resourceDigits, Nat.ofDigitChars_cons]
    by_cases hc : c.isDigit = true
    · have hdigit : c.toNat - '0'.toNat ≤ 9 := by
        have := (toNat_of_isDigit hc).2
        show c.toNat - 48 ≤ 9
        omega
      rw [if_neg (by simp [hc])]
      dsimp only
      generalize c.toNat - '0'.toNat = digit at hdigit
      split
      next hover =>
        -- every later value is at least as large
        have hgrow : 10 * result + digit ≤ Nat.ofDigitChars 10 text (10 * result + digit) := by
          rw [Nat.ofDigitChars_eq_ofDigitChars_zero]
          have hpow : 1 ≤ 10 ^ text.length := Nat.one_le_pow' _ _
          exact (Nat.le_mul_of_pos_left _ hpow).trans (Nat.le_add_right _ _)
        refine ⟨fun hn => (by cases hn), fun hn => absurd hn.2.1 ?_⟩
        unfold intMax at *
        omega
      next hover =>
        rw [ih (by unfold intMax at *; omega)]
        simp only [List.mem_cons, forall_eq_or_imp, hc, true_and]
    · rw [if_pos (by simp [hc])]
      exact ⟨fun hn => (by cases hn), fun hn => absurd (hn.1 c List.mem_cons_self) hc⟩

/-- A number is read exactly from its digits, up to `INT_MAX`. -/
theorem hyperNetworkResourceNumber_eq_some {text : List Char} {v : UInt32} :
    hyperNetworkResourceNumber text = some v ↔
      text ≠ [] ∧ (∀ c ∈ text, c.isDigit = true) ∧ digitsValue text ≤ intMax ∧
        v = .ofNat (digitsValue text) := by
  rw [hyperNetworkResourceNumber]
  cases text with
  | nil => simp
  | cons c text =>
    rw [List.isEmpty_cons, if_neg Bool.false_ne_true, Option.map_eq_some_iff]
    constructor
    · intro h
      obtain ⟨n, hn, rfl⟩ := h
      obtain ⟨hdigits, hle, rfl⟩ := (resourceDigits_eq_some (Nat.zero_le _)).mp hn
      exact ⟨List.cons_ne_nil _ _, hdigits, hle, rfl⟩
    · intro h
      obtain ⟨-, hdigits, hle, rfl⟩ := h
      exact ⟨_, (resourceDigits_eq_some (Nat.zero_le _)).mpr ⟨hdigits, hle, rfl⟩, rfl⟩

/-- A printed number up to `INT_MAX` is read back. -/
theorem hyperNetworkResourceNumber_decimal {v : UInt32} (h : v.toNat ≤ intMax) :
    hyperNetworkResourceNumber (decimal v.toNat) = some v := by
  refine hyperNetworkResourceNumber_eq_some.mpr ⟨decimal_ne_nil _, decimal_digits, ?_, ?_⟩
  · rw [digitsValue_decimal]
    exact h
  · rw [digitsValue_decimal, UInt32.ofNat_toNat]

/-- The budgets of a network device. -/
structure NetworkResources.Valid (r : NetworkResources) : Prop where
  rx : 1 ≤ r.rxBacklogPackets.toNat ∧ r.rxBacklogPackets.toNat ≤ 65536
  tx : r.txBufferBytes = 0 ∨ 65536 ≤ r.txBufferBytes.toNat ∧ r.txBufferBytes.toNat ≤ intMax

/-- The text of two numbers is accepted exactly when they are valid budgets. -/
theorem hyperNetworkResourcesParse_eq_some {rx tx : List Char} {r : NetworkResources} :
    hyperNetworkResourcesParse rx tx = some r ↔
      hyperNetworkResourceNumber rx = some r.rxBacklogPackets ∧
        hyperNetworkResourceNumber tx = some r.txBufferBytes ∧ r.Valid := by
  have hvalid {a b : UInt32} (hb : b.toNat ≤ intMax) : NetworkResources.Valid ⟨a, b⟩ ↔
      ¬ (a = 0 ∨ a > hyperNetRxBacklogMax ∨ b ≠ 0 ∧ b < hyperNetTxBufferMin) := by
    have hsplit : NetworkResources.Valid ⟨a, b⟩ ↔ (1 ≤ a.toNat ∧ a.toNat ≤ 65536) ∧
        (b = 0 ∨ 65536 ≤ b.toNat ∧ b.toNat ≤ intMax) := ⟨fun h => ⟨h.rx, h.tx⟩, fun h => ⟨h.1, h.2⟩⟩
    rw [hsplit, hyperNetRxBacklogMax, hyperNetTxBufferMin, ne_eq, GT.gt, UInt32.lt_iff_toNat_lt,
      UInt32.lt_iff_toNat_lt, ← UInt32.toNat_inj, ← UInt32.toNat_inj]
    simp only [UInt32.toNat_ofNat]
    unfold intMax at *
    omega
  have hbound {text : List Char} {v : UInt32} (h : hyperNetworkResourceNumber text = some v) :
      v.toNat ≤ intMax := by
    obtain ⟨-, -, hle, rfl⟩ := hyperNetworkResourceNumber_eq_some.mp h
    rw [UInt32.toNat_ofNat_of_lt' (show digitsValue text < 2 ^ 32 by unfold intMax at hle; omega)]
    exact hle
  obtain ⟨a, b⟩ := r
  rw [hyperNetworkResourcesParse]
  cases hrx : hyperNetworkResourceNumber rx with
  | none => simp
  | some a' =>
    cases htx : hyperNetworkResourceNumber tx with
    | none => simp
    | some b' =>
      have hvalid' := hvalid (a := a') (hbound htx)
      rw [Option.bind_eq_bind, Option.bind_some, Option.bind_eq_bind, Option.bind_some]
      split
      next hbad =>
        refine ⟨fun h => (by cases h), fun h => absurd hbad (hvalid'.mp ?_)⟩
        obtain ⟨ha, hb, h⟩ := h
        rw [Option.some_inj.mp ha, Option.some_inj.mp hb]
        exact h
      next hgood =>
        constructor
        · intro h
          obtain ⟨rfl, rfl⟩ := NetworkResources.mk.inj (Option.some_inj.mp h)
          exact ⟨rfl, rfl, hvalid'.mpr hgood⟩
        · intro h
          rw [Option.some_inj.mp h.1, Option.some_inj.mp h.2.1]
          rfl

theorem hyperNetworkResourcesParse_decimal {r : NetworkResources} (h : r.Valid) :
    hyperNetworkResourcesParse (decimal r.rxBacklogPackets.toNat) (decimal r.txBufferBytes.toNat) =
      some r := by
  refine hyperNetworkResourcesParse_eq_some.mpr ⟨hyperNetworkResourceNumber_decimal ?_,
    hyperNetworkResourceNumber_decimal ?_, h⟩
  · exact h.rx.2.trans (by decide)
  · obtain htx | htx := h.tx
    · rw [htx]
      decide
    · exact htx.2

/-! ## MACs -/

/-- A lower-case hexadecimal digit, as `hyper_mac_parse` reads it. -/
def macDigit (c : Char) : Option Nat :=
  if c.isDigit then some (c.toNat - '0'.toNat)
  else if 'a' ≤ c ∧ c ≤ 'f' then some (c.toNat - 'a'.toNat + 10)
  else none

/-- The loop of `hyper_mac_parse` over the last `count` bytes. -/
def macBytes : (count : Nat) → List Char → Option Bytes
  | 0, _ => some []
  | count + 1, text => do
    let high ← macDigit (text.getD 0 '\x00')
    let low ← macDigit (text.getD 1 '\x00')
    if count ≠ 0 ∧ text.getD 2 '\x00' ≠ ':' then none
    let mac ← macBytes count (text.drop 3)
    return .ofNat (16 * high + low) :: mac

/-- `hyper_mac_parse`: only locally administered unicast addresses are accepted. -/
def hyperMacParse (text : List Char) : Option Bytes := do
  if text.length ≠ 17 then none
  let mac ← macBytes 6 text
  if mac.headD 0 &&& 3 = 2 then some mac else none

/-- A locally administered unicast address. -/
structure IsUnicastMac (mac : Bytes) : Prop where
  length : mac.length = 6
  unicast : mac.headD 0 &&& 3 = 2

def hexByte (b : UInt8) : List Char := [Nat.digitChar (b.toNat / 16), Nat.digitChar (b.toNat % 16)]

/-- The text of a MAC: two lower-case digits for each byte, with colons between them. -/
def macText : Bytes → List Char
  | [] => []
  | [b] => hexByte b
  | b :: mac => hexByte b ++ ':' :: macText mac

theorem macText_cons {b : UInt8} {mac : Bytes} (h : mac ≠ []) :
    macText (b :: mac) = hexByte b ++ ':' :: macText mac := macText.eq_3 b mac h

theorem macText_length {mac : Bytes} (h : mac ≠ []) :
    (macText mac).length = 3 * mac.length - 1 := by
  induction mac with
  | nil => exact absurd rfl h
  | cons b mac ih =>
    cases mac with
    | nil => rfl
    | cons b' mac =>
      rw [macText_cons (List.cons_ne_nil _ _), List.length_append, List.length_cons,
        ih (List.cons_ne_nil _ _)]
      simp only [List.length_cons, hexByte, List.length_nil]
      omega

theorem macDigit_eq_some {c : Char} {v : Nat} :
    macDigit c = some v ↔ v < 16 ∧ c = Nat.digitChar v := by
  have hvalue : ∀ v : Fin 16, macDigit (Nat.digitChar v) = some v.val ∧
      (Nat.digitChar v).toNat = if v.val < 10 then 48 + v.val else 87 + v.val := by decide
  constructor
  · intro h
    have hv : v < 16 ∧ c.toNat = if v < 10 then 48 + v else 87 + v := by
      rw [macDigit] at h
      split at h
      next hc =>
        have hc := toNat_of_isDigit hc
        obtain rfl := Option.some_inj.mp h
        show c.toNat - 48 < 16 ∧ c.toNat = if c.toNat - 48 < 10 then 48 + (c.toNat - 48) else _
        rw [if_pos (by omega)]
        omega
      next =>
        split at h
        next hc =>
          have hlow : 97 ≤ c.toNat := hc.1
          have hhigh : c.toNat ≤ 102 := hc.2
          obtain rfl := Option.some_inj.mp h
          show c.toNat - 97 + 10 < 16 ∧
            c.toNat = if c.toNat - 97 + 10 < 10 then _ else 87 + (c.toNat - 97 + 10)
          rw [if_neg (by omega)]
          omega
        next => cases h
    refine ⟨hv.1, Char.toNat_inj.mp ?_⟩
    rw [hv.2, (hvalue ⟨v, hv.1⟩).2]
  · intro h
    obtain ⟨hv, rfl⟩ := h
    exact (hvalue ⟨v, hv⟩).1

/-- Two digits are read as the byte they were written for. -/
theorem macDigits_iff {c d : Char} {b : UInt8} :
    (∃ high low, macDigit c = some high ∧ macDigit d = some low ∧ b = .ofNat (16 * high + low)) ↔
      [c, d] = hexByte b := by
  have hb : b.toNat < 256 := b.toNat_lt
  constructor
  · intro h
    obtain ⟨high, low, hc, hd, rfl⟩ := h
    obtain ⟨hhigh, rfl⟩ := macDigit_eq_some.mp hc
    obtain ⟨hlow, rfl⟩ := macDigit_eq_some.mp hd
    rw [hexByte, UInt8.toNat_ofNat_of_lt' (show 16 * high + low < 2 ^ 8 by omega),
      show (16 * high + low) / 16 = high by omega, show (16 * high + low) % 16 = low by omega]
  · intro h
    obtain ⟨rfl, htail⟩ := List.cons.inj h
    obtain ⟨rfl, -⟩ := List.cons.inj htail
    refine ⟨b.toNat / 16, b.toNat % 16, macDigit_eq_some.mpr ⟨by omega, rfl⟩,
      macDigit_eq_some.mpr ⟨by omega, rfl⟩, ?_⟩
    rw [Nat.div_add_mod, UInt8.ofNat_toNat]

theorem macBytes_succ {count : Nat} {c d : Char} {rest : List Char} {mac : Bytes} :
    macBytes (count + 1) (c :: d :: rest) = some mac ↔
      ∃ b mac', mac = b :: mac' ∧ [c, d] = hexByte b ∧
        (count ≠ 0 → rest.getD 0 '\x00' = ':') ∧ macBytes count (rest.drop 1) = some mac' := by
  rw [macBytes]
  simp only [Option.bind_eq_bind, Option.bind_eq_some_iff, ← macDigits_iff]
  constructor
  · intro h
    obtain ⟨high, hc, low, hd, h⟩ := h
    split at h
    next => cases h
    next hcolon =>
      obtain ⟨mac', hmac, h⟩ := Option.bind_eq_some_iff.mp h
      exact ⟨_, mac', (Option.some_inj.mp h).symm, ⟨high, low, hc, hd, rfl⟩,
        fun hcount => Decidable.not_not.mp fun hne => hcolon ⟨hcount, hne⟩, hmac⟩
  · intro h
    obtain ⟨b, mac', rfl, ⟨high, low, hc, hd, rfl⟩, hcolon, hmac⟩ := h
    refine ⟨high, hc, low, hd, ?_⟩
    rw [if_neg fun hne => hne.2 (hcolon hne.1)]
    exact Option.bind_eq_some_iff.mpr ⟨mac', hmac, rfl⟩

/-- A MAC is read exactly from its text. -/
theorem macBytes_eq_some {count : Nat} {text : List Char} {mac : Bytes}
    (h : text.length + 1 = 3 * count ∨ count = 0 ∧ text = []) :
    macBytes count text = some mac ↔ mac.length = count ∧ text = macText mac := by
  induction count generalizing text mac with
  | zero =>
    obtain rfl : text = [] := by
      obtain h | h := h
      · omega
      · exact h.2
    rw [macBytes, Option.some.injEq, List.length_eq_zero_iff]
    constructor
    · rintro rfl
      exact ⟨rfl, rfl⟩
    · exact fun hmac => hmac.1.symm
  | succ count ih =>
    have hlength : text.length = 3 * count + 2 := by
      obtain h | h := h
      · omega
      · omega
    obtain ⟨c, d, rest, rfl⟩ : ∃ c d rest, text = c :: d :: rest := by
      cases text with
      | nil => simp at hlength
      | cons c text =>
        cases text with
        | nil => simp at hlength
        | cons d rest => exact ⟨c, d, rest, rfl⟩
    simp only [List.length_cons, Nat.add_right_cancel_iff] at hlength
    rw [macBytes_succ]
    cases count with
    | zero =>
      obtain rfl := List.length_eq_zero_iff.mp hlength
      constructor
      · intro h
        obtain ⟨b, mac', rfl, hbyte, -, hmac⟩ := h
        obtain rfl := Option.some_inj.mp hmac
        exact ⟨rfl, hbyte⟩
      · intro h
        obtain ⟨hmac, htext⟩ := h
        obtain ⟨b, rfl⟩ := List.length_eq_one_iff.mp hmac
        exact ⟨b, [], rfl, htext, fun h => absurd rfl h, rfl⟩
    | succ count =>
      obtain ⟨e, rest, rfl⟩ : ∃ e rest', rest = e :: rest' := by
        cases rest with
        | nil => simp at hlength
        | cons e rest => exact ⟨e, rest, rfl⟩
      simp only [List.length_cons] at hlength
      have hrest := @ih rest
      simp only [List.getD_cons_zero, List.drop_succ_cons, List.drop_zero, ne_eq,
        Nat.add_one_ne_zero, not_false_iff, true_implies, hrest (.inl (by omega))]
      constructor
      · intro h
        obtain ⟨b, mac', rfl, hbyte, rfl, hmac, rfl⟩ := h
        refine ⟨by rw [List.length_cons, hmac], ?_⟩
        rw [macText_cons (List.ne_nil_of_length_eq_add_one hmac), ← hbyte]
        rfl
      · intro h
        obtain ⟨hmac, htext⟩ := h
        obtain ⟨b, mac', rfl⟩ := List.exists_cons_of_length_eq_add_one hmac
        rw [List.length_cons, Nat.add_right_cancel_iff] at hmac
        rw [macText_cons (List.ne_nil_of_length_eq_add_one hmac)] at htext
        obtain ⟨hc, htext⟩ := List.cons.inj htext
        obtain ⟨hd, htext⟩ := List.cons.inj htext
        obtain ⟨he, htext⟩ := List.cons.inj htext
        exact ⟨b, mac', rfl, by rw [hc, hd]; rfl, he, hmac, htext⟩

/-- An address is accepted exactly from its text. -/
theorem hyperMacParse_eq_some {text : List Char} {mac : Bytes} :
    hyperMacParse text = some mac ↔ IsUnicastMac mac ∧ text = macText mac := by
  rw [hyperMacParse]
  split
  next hlength =>
    refine ⟨fun h => (by cases h), fun h => absurd ?_ hlength⟩
    rw [h.2, macText_length (List.ne_nil_of_length_eq_add_one h.1.length), h.1.length]
  next hlength =>
    have hbytes (mac' : Bytes) :
        macBytes 6 text = some mac' ↔ mac'.length = 6 ∧ text = macText mac' :=
      macBytes_eq_some (.inl (by omega))
    rw [Option.bind_eq_bind, Option.bind_eq_some_iff]
    constructor
    · intro h
      obtain ⟨mac', hmac, h⟩ := h
      obtain ⟨hlength, htext⟩ := (hbytes mac').mp hmac
      split at h
      next hunicast =>
        obtain rfl := Option.some_inj.mp h
        exact ⟨⟨hlength, hunicast⟩, htext⟩
      next => cases h
    · intro h
      obtain ⟨hmac, htext⟩ := h
      exact ⟨mac, (hbytes mac).mpr ⟨hmac.length, htext⟩, if_pos hmac.unicast⟩

theorem above_of_mem_hexByte {b : UInt8} {c : Char} (h : c ∈ hexByte b) : 32 < c.toNat := by
  have hdigit : ∀ v : Fin 16, 32 < (Nat.digitChar v).toNat := by decide
  have hb : b.toNat < 256 := b.toNat_lt
  simp only [hexByte, List.mem_cons, List.not_mem_nil, or_false] at h
  obtain rfl | rfl := h
  · exact hdigit ⟨b.toNat / 16, by omega⟩
  · exact hdigit ⟨b.toNat % 16, by omega⟩

/-- The text of an address is a plain word. -/
theorem isPlain_macText {mac : Bytes} (h : mac ≠ []) : IsPlain (macText mac) := by
  induction mac with
  | nil => exact absurd rfl h
  | cons b mac ih =>
    cases mac with
    | nil => exact ⟨List.cons_ne_nil _ _, fun c hc => above_of_mem_hexByte hc⟩
    | cons b' mac =>
      rw [macText_cons (List.cons_ne_nil _ _)]
      refine ⟨List.cons_ne_nil _ _, fun c hc => ?_⟩
      obtain hc | hc := List.mem_append.mp hc
      · exact above_of_mem_hexByte hc
      · obtain rfl | hc := List.mem_cons.mp hc
        · decide
        · exact (ih (List.cons_ne_nil _ _)).above c hc

end HyperIoVm
