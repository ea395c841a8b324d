import HyperIoVm.Data.Tiling
import HyperIoVm.Memory

/-!
# Extents and pages as numbers

What the checks of `hyper_io_layout.h` mean for the numbers they are about, and what the
page-expansion loop of `prepare_memory` stores: every element of the page array is written
exactly once, with the page of the one extent that covers it.
-/

namespace HyperIoVm

open Data

/-! ## The checks -/

theorem and_4095_eq_zero {x : UInt64} : (x &&& 4095 == 0) = true ↔ x.toNat % 4096 = 0 := by
  rw [beq_iff_eq, ← UInt64.toNat_inj, UInt64.toNat_and]
  exact Iff.of_eq (congrArg (· = 0) (Nat.and_two_pow_sub_one_eq_mod x.toNat 12))

/-- Masking with `2 ^ n - 1` shifted by `k` keeps `n` bits and clears the `k` below them. -/
theorem and_shiftLeft_mask (x n k : Nat) :
    x &&& (2 ^ n - 1) <<< k = x / 2 ^ k % 2 ^ n * 2 ^ k := by
  apply Nat.eq_of_testBit_eq
  intro i
  rw [← Nat.shiftLeft_eq, ← Nat.shiftRight_eq_div_pow, Nat.testBit_and, Nat.testBit_shiftLeft,
    Nat.testBit_shiftLeft, Nat.testBit_mod_two_pow, Nat.testBit_two_pow_sub_one,
    Nat.testBit_shiftRight]
  by_cases hi : k ≤ i
  · simp [hi, Bool.and_comm]
  · simp [hi]

/-- Where the 2 MiB granule of an address begins. -/
def granuleOf (address : Nat) : Nat := address / 2 ^ 21 * 2 ^ 21

theorem toNat_and_not_mask (x : UInt64) :
    (x &&& ~~~(2 * 1024 * 1024 - 1 : UInt64)).toNat = granuleOf x.toNat := by
  have hx := x.toNat_lt
  have hmask : (~~~(2 * 1024 * 1024 - 1 : UInt64)).toNat = (2 ^ 43 - 1) <<< 21 := rfl
  rw [UInt64.toNat_and, hmask, and_shiftLeft_mask, Nat.mod_eq_of_lt (by omega), granuleOf]

/-- The address is page aligned and its whole 2 MiB granule lies in the inclusive aperture. -/
structure InAperture (start stop : UInt64) (address : Nat) : Prop where
  aligned : address % 4096 = 0
  above : start.toNat ≤ granuleOf address
  below : granuleOf address + (2 ^ 21 - 1) ≤ stop.toNat

theorem inAperture {aliasAddr start stop : UInt64}
    (h : hyperIoPageAperture aliasAddr start stop = true) :
    InAperture start stop aliasAddr.toNat := by
  simp only [hyperIoPageAperture, Bool.and_eq_true, decide_eq_true_eq, and_4095_eq_zero] at h
  obtain ⟨⟨⟨haligned, habove⟩, hbelow⟩, hroom⟩ := h
  rw [ge_iff_le, UInt64.le_iff_toNat_le, toNat_and_not_mask] at habove
  rw [ge_iff_le, UInt64.le_iff_toNat_le, UInt64.toNat_sub_of_le _ _ hbelow,
    toNat_and_not_mask] at hroom
  rw [UInt64.le_iff_toNat_le, toNat_and_not_mask] at hbelow
  have hmask : (2 * 1024 * 1024 - 1 : UInt64).toNat = 2 ^ 21 - 1 := rfl
  exact ⟨haligned, habove, by omega⟩

/-- The extent is a range of whole pages whose addresses do not wrap. -/
structure Extent.Paged (e : Extent) : Prop where
  length : e.length.toNat % 4096 = 0
  aliasAddr : e.aliasAddr.toNat % 4096 = 0
  nowrap : e.aliasAddr.toNat + e.length.toNat < 2 ^ 64

/-- The extent continues the walk at `cursor` and stays within `total`. -/
structure Extent.Continues (cursor total : Nat) (e : Extent) : Prop where
  offset : e.offset.toNat = cursor
  pos : 0 < e.length.toNat
  inside : cursor + e.length.toNat ≤ total

theorem extentValid {cursor total : UInt64} {e : Extent}
    (h : hyperIoExtentValid cursor total e.aliasAddr e.offset e.length = true) :
    e.Paged ∧ e.Continues cursor.toNat total.toNat := by
  simp only [hyperIoExtentValid, Bool.and_eq_true, decide_eq_true_eq, and_4095_eq_zero,
    bne_iff_ne] at h
  obtain ⟨⟨⟨⟨⟨⟨hcursor, hoffset⟩, hlength⟩, haligned⟩, halias⟩, hnowrap⟩, hinside⟩ := h
  rw [beq_iff_eq] at hoffset
  rw [UInt64.le_iff_toNat_le] at hcursor hnowrap hinside
  have hle : e.length ≤ ~~~0 := by
    rw [UInt64.le_iff_toNat_le]
    exact Nat.le_of_lt_succ e.length.toNat_lt
  rw [UInt64.toNat_sub_of_le _ _ hle] at hnowrap
  rw [UInt64.toNat_sub_of_le _ _ (UInt64.le_iff_toNat_le.mpr hcursor)] at hinside
  have hmax : (~~~(0 : UInt64)).toNat = 2 ^ 64 - 1 := rfl
  have hlt := e.length.toNat_lt
  have hpos : e.length.toNat ≠ 0 := fun h => hlength (UInt64.toNat_inj.mp h)
  exact ⟨⟨haligned, halias, by omega⟩, congrArg UInt64.toNat hoffset, by omega, by omega⟩

/-! ## The stores of the expansion -/

/-- The extents tile `[lo, hi)` in the order of the list. -/
abbrev ExtentsTile (lo : Nat) (extents : List Extent) (hi : Nat) : Prop :=
  Tiles (fun e : Extent => e.offset.toNat) (fun e => e.length.toNat) lo extents hi

theorem extentsTile_cons {lo hi : Nat} {e : Extent} {es : List Extent} :
    ExtentsTile lo (e :: es) hi ↔
      e.offset.toNat = lo ∧ 0 < e.length.toNat ∧ ExtentsTile (lo + e.length.toNat) es hi := Iff.rfl

/-- The extent covers byte `k` of the grant. -/
abbrev Extent.Covers (e : Extent) (k : Nat) : Prop :=
  Data.Covers (·.offset.toNat) (·.length.toNat) e k

/-- The address behind byte `k` of the grant, for an extent that covers it. -/
def Extent.address (e : Extent) (k : Nat) : Nat := e.aliasAddr.toNat + (k - e.offset.toNat)

/-- The extents tile `[0, total)` in order and are ranges of whole pages. -/
structure Tiled (extents : List Extent) (total : Nat) : Prop where
  tiles : ExtentsTile 0 extents total
  paged : ∀ e ∈ extents, e.Paged

/-- Every store of the expansion of `extents`, in order: index and page. The walk accepts an
extent only where its offset is the cursor. -/
def stores (extents : List Extent) : List (Nat × UInt64) :=
  extents.flatMap fun e => extentStores e.offset e

/-- What the stores leave of an array of pages. -/
def expanded (extents : List Extent) (pages : List UInt64) : List UInt64 :=
  (stores extents).foldl (fun pages store => pages.set store.1 store.2) pages

theorem expanded_concat (extents : List Extent) (e : Extent) (pages : List UInt64) :
    expanded (extents ++ [e]) pages = storeExtent (expanded extents pages) e.offset e := by
  simp [expanded, stores, storeExtent]

section Expansion

variable {e : Extent} {extents : List Extent} {lo hi total : Nat}

/-- The index and the page of a store do not wrap. -/
theorem mem_extentStores (h : e.Paged) (hoffset : e.offset.toNat % 4096 = 0)
    (hinside : e.offset.toNat + e.length.toNat < 2 ^ 64) {k : Nat} {page : UInt64}
    (hstore : (k, page) ∈ extentStores e.offset e) :
    e.Covers (4096 * k) ∧ page.toNat = e.address (4096 * k) := by
  obtain ⟨j, hj, hstore⟩ := List.mem_map.mp hstore
  obtain ⟨hlength, -, hnowrap⟩ := h
  rw [List.mem_range] at hj
  have hoffset' : (UInt64.ofNat (4096 * j)).toNat = 4096 * j :=
    UInt64.toNat_ofNat_of_lt' (show 4096 * j < 2 ^ 64 by omega)
  have hk : (e.offset.toNat + 4096 * j) / 4096 = k := by
    rw [← (Prod.mk.inj hstore).1, UInt64.toNat_div, UInt64.toNat_add, hoffset',
      Nat.mod_eq_of_lt (by omega)]
    rfl
  have hpage : page.toNat = e.aliasAddr.toNat + 4096 * j := by
    rw [← (Prod.mk.inj hstore).2, UInt64.toNat_add, hoffset', Nat.mod_eq_of_lt (by omega)]
  refine ⟨⟨?_, ?_⟩, ?_⟩
  · show e.offset.toNat ≤ 4096 * k
    omega
  · show 4096 * k < e.offset.toNat + e.length.toNat
    omega
  · rw [hpage, Extent.address]
    omega

/-- The stores of one extent are to consecutive indices. -/
theorem extentStores_fst (h : e.Paged) (hoffset : e.offset.toNat % 4096 = 0)
    (hinside : e.offset.toNat + e.length.toNat < 2 ^ 64) :
    (extentStores e.offset e).map Prod.fst =
      List.range' (e.offset.toNat / 4096) (e.length.toNat / 4096) := by
  obtain ⟨hlength, -, -⟩ := h
  rw [extentStores, List.map_map, List.range'_eq_map_range,
    show (e.length.toNat + 4095) / 4096 = e.length.toNat / 4096 by omega]
  refine List.map_congr_left fun j hj => ?_
  rw [List.mem_range] at hj
  show ((e.offset + UInt64.ofNat (4096 * j)) / 4096).toNat = _
  rw [UInt64.toNat_div, UInt64.toNat_add,
    UInt64.toNat_ofNat_of_lt' (show 4096 * j < 2 ^ 64 by omega),
    Nat.mod_eq_of_lt (by omega)]
  show (e.offset.toNat + 4096 * j) / 4096 = _
  omega

/-- In a tiling by whole pages every offset is a page boundary. -/
theorem offset_aligned (hpaged : ∀ e ∈ extents, e.Paged) (hlo : lo % 4096 = 0)
    (h : ExtentsTile lo extents hi) :
    ∀ e ∈ extents, e.offset.toNat % 4096 = 0 := by
  induction extents generalizing lo with
  | nil => simp
  | cons e es ih =>
    obtain ⟨hoffset, -, hes⟩ := extentsTile_cons.mp h
    have hlength := (hpaged e List.mem_cons_self).length
    intro e' he'
    rcases List.mem_cons.mp he' with rfl | he'
    · rw [hoffset, hlo]
    · exact ih (fun e he => hpaged e (List.mem_cons_of_mem _ he)) (by omega) hes e' he'

/-- The stores of a tiling are to consecutive indices, each of them once. -/
theorem stores_fst_of_tiles (hpaged : ∀ e ∈ extents, e.Paged) (hlo : lo % 4096 = 0)
    (hhi : hi < 2 ^ 64)
    (h : ExtentsTile lo extents hi) :
    (stores extents).map Prod.fst = List.range' (lo / 4096) ((hi - lo) / 4096) := by
  induction extents generalizing lo with
  | nil =>
    obtain rfl : lo = hi := h
    simp [stores]
  | cons e es ih =>
    obtain ⟨hoffset, hpos, hes⟩ := extentsTile_cons.mp h
    have hle : lo + e.length.toNat ≤ hi := hes.le
    have hpaged' := hpaged e List.mem_cons_self
    have hlength := hpaged'.length
    have hrest := ih (fun e he => hpaged e (List.mem_cons_of_mem _ he)) (by omega) hes
    rw [stores, List.flatMap_cons, List.map_append,
      extentStores_fst hpaged' (by omega) (by omega)]
    rw [stores] at hrest
    rw [hrest, hoffset, show (lo + e.length.toNat) / 4096 =
      lo / 4096 + e.length.toNat / 4096 by omega, List.range'_append_1]
    congr 1
    omega

/-- Every page of the grant is covered by exactly one extent. -/
theorem Tiled.existsUnique (h : Tiled extents total) {k : Nat} (hk : k < total / 4096) :
    ∃! e, e ∈ extents ∧ e.Covers (4096 * k) :=
  h.tiles.existsUnique (Nat.zero_le _) (by omega)

section Tiled

variable (h : Tiled extents total) (htotal : total < 2 ^ 64)

include h htotal

/-- Every element of the array is stored to exactly once. -/
theorem Tiled.stores_fst : (stores extents).map Prod.fst = List.range (total / 4096) := by
  rw [stores_fst_of_tiles h.paged (Nat.zero_mod 4096) htotal h.tiles, List.range_eq_range']
  simp

/-- The array ends up as the pages in the order they were stored. -/
theorem Tiled.expanded_eq {pages : List UInt64} (hpages : pages.length = total / 4096) :
    expanded extents pages = (stores extents).map Prod.snd :=
  foldl_set_range (by rw [h.stores_fst htotal, hpages])

/-- What is stored at index `k` is the address behind it in the extent that covers it. -/
theorem Tiled.stored {k : Nat} {page : UInt64} (hstore : (k, page) ∈ stores extents) {e : Extent}
    (he : e ∈ extents) (hcovers : e.Covers (4096 * k)) : page.toNat = e.address (4096 * k) := by
  obtain ⟨e', he', hstore⟩ := List.mem_flatMap.mp hstore
  have hbounds : 0 ≤ e'.offset.toNat ∧ e'.offset.toNat + e'.length.toNat ≤ total :=
    h.tiles.bounds he'
  obtain ⟨hcovers', hpage⟩ := mem_extentStores (h.paged e' he')
    (offset_aligned h.paged (Nat.zero_mod 4096) h.tiles e' he') (by omega) hstore
  have hk : 4096 * k < total := Nat.lt_of_lt_of_le hcovers'.2 hbounds.2
  have hunique := h.tiles.existsUnique (Nat.zero_le _) hk
  rw [hunique.unique ⟨he, hcovers⟩ ⟨he', hcovers'⟩]
  exact hpage

end Tiled

end Expansion

end HyperIoVm
