import HyperIoVm.Identifiers
import HyperIoVm.LunPublication

/-!
# Block isolation

Every binding of the owner's table is of an authorized client, lies inside its disk, and is what the
client's device maps; every LUN that is published has one. Bindings do not conflict, so that no two
clients reach the same bytes of a device unless both only read them. The invariant holds across the
control loop, whatever the requests ask, the disks report and the publications answer.
-/

namespace HyperIoVm

open Effects Routine

/-! ## Ranges in bytes -/

section Ranges

variable {bytes : UInt64} {sector diskReadOnly : UInt32} {range : BlockRange}

/-- A range of a disk of `bytes` bytes, in whole 512-byte units. -/
structure RangeInside (bytes : UInt64) (sector : UInt32) (range : BlockRange) : Prop where
  positive : 0 < sector.toNat
  units : 512 ∣ sector.toNat
  inside : (range.first.toNat + range.count.toNat) * sector.toNat ≤ bytes.toNat

/-- A power of two that is not less than another is a multiple of it. -/
theorem units_of_power {n k : Nat} (hle : 2 ^ k ≤ n) (hpower : n &&& (n - 1) = 0) : 2 ^ k ∣ n := by
  have hne : n ≠ 0 := by
    intro h
    have := Nat.two_pow_pos k
    omega
  obtain ⟨m, rfl⟩ := (Nat.and_sub_one_eq_zero_iff_isPowerOfTwo hne).mp hpower
  exact pow_dvd_pow 2 ((Nat.pow_le_pow_iff_right (by decide)).mp hle)

theorem rangeInside_of_valid (h : hyperBlockRangeValid bytes sector diskReadOnly range = true) :
    RangeInside bytes sector range := by
  unfold hyperBlockRangeValid at h
  split at h
  · cases h
  rename_i hsector
  simp only [Bool.or_eq_true, decide_eq_true_eq, bne_iff_ne, beq_iff_eq, not_or,
    ne_eq, Decidable.not_not] at hsector
  simp only [Bool.and_eq_true, decide_eq_true_eq] at h
  obtain ⟨hfirst, hcount⟩ := h
  have hlow : 512 ≤ sector.toNat :=
    UInt32.le_iff_toNat_le.mp (UInt32.not_lt.mp hsector.1.1.1.1.1.1.1.1)
  have hpower : sector.toNat &&& (sector.toNat - 1) = 0 := by
    have hand := congrArg UInt32.toNat hsector.1.1.1.1.1.1.2
    rw [UInt32.toNat_and, UInt32.toNat_sub_of_le _ _ (UInt32.le_iff_toNat_le.mpr (by
      rw [UInt32.toNat_one]; omega))] at hand
    exact hand
  refine ⟨by omega, units_of_power (k := 9) hlow hpower, ?_⟩
  have hcount := UInt64.le_iff_toNat_le.mp hcount
  rw [UInt64.toNat_sub_of_le _ _ (UInt64.le_of_lt hfirst)] at hcount
  have hfirst := UInt64.lt_iff_toNat_lt.mp hfirst
  rw [UInt64.toNat_div, UInt32.toNat_toUInt64] at hcount hfirst
  calc (range.first.toNat + range.count.toNat) * sector.toNat
      ≤ bytes.toNat / sector.toNat * sector.toNat := Nat.mul_le_mul_right _ (by omega)
    _ ≤ bytes.toNat := Nat.div_mul_le_self _ _

/-- A byte of the underlying device that the table maps. -/
def DmTable.maps (table : DmTable) (byte : Nat) : Prop :=
  table.start.toNat * 512 ≤ byte ∧ byte < table.start.toNat * 512 + table.length.toNat * 512

/-- The table maps exactly the bytes of the range, all of them inside the disk. -/
structure Covers (table : DmTable) (disk : PhysicalDisk) (range : BlockRange) : Prop where
  device : table.device = disk.device
  readOnly : table.readOnly = (range.readOnly != 0)
  bytes : ∀ byte, table.maps byte ↔ range.first.toNat * disk.logical.toNat ≤ byte ∧
    byte < (range.first.toNat + range.count.toNat) * disk.logical.toNat
  inside : (range.first.toNat + range.count.toNat) * disk.logical.toNat ≤ disk.bytes.toNat

/-- The product with the sectors' units does not wrap when the bytes fit. -/
theorem units_mul {n : UInt64} {total : Nat} (hunits : 512 ∣ sector.toNat)
    (hle : n.toNat * sector.toNat ≤ total) (htotal : total < 2 ^ 64) :
    (n * (sector.toUInt64 / 512)).toNat * 512 = n.toNat * sector.toNat := by
  obtain ⟨units, hsector⟩ := hunits
  have hdiv : (sector.toUInt64 / 512).toNat = units := by
    rw [UInt64.toNat_div, UInt32.toNat_toUInt64, hsector]
    exact Nat.mul_div_cancel_left units (by decide)
  have hproduct : n.toNat * sector.toNat = n.toNat * units * 512 := by
    rw [hsector, Nat.mul_comm 512 units, Nat.mul_assoc]
  rw [UInt64.toNat_mul, hdiv, Nat.mod_eq_of_lt (by omega), hproduct]

theorem mapperTable_covers {disk : PhysicalDisk} (h : RangeInside disk.bytes disk.logical range) :
    Covers (mapperTable disk.device disk.logical range) disk range := by
  have hinside := h.inside
  have hbytes := UInt64.toNat_lt disk.bytes
  have hsum := Nat.add_mul range.first.toNat range.count.toNat disk.logical.toNat
  have hstart := units_mul (n := range.first) h.units (Nat.le_refl _) (by omega)
  have hlength := units_mul (n := range.count) h.units (Nat.le_refl _) (by omega)
  refine ⟨rfl, rfl, fun byte => ?_, hinside⟩
  rw [hsum, ← hstart, ← hlength]
  exact Iff.rfl

/-- Two ranges of one disk that do not conflict have no sector in common, or are only read. -/
theorem sectors_apart {range' : BlockRange} (h : RangeInside bytes sector range)
    (h' : RangeInside bytes sector range') (hid : range.disk ≠ 0) (hsame : range.disk = range'.disk)
    (hconflict : hyperBlockRangesConflict range range' = false) :
    (range.readOnly ≠ 0 ∧ range'.readOnly ≠ 0) ∨
      range.first.toNat + range.count.toNat ≤ range'.first.toNat ∨
      range'.first.toNat + range'.count.toNat ≤ range.first.toNat := by
  have hend {range : BlockRange} (h : RangeInside bytes sector range) :
      (range.first + range.count).toNat = range.first.toNat + range.count.toNat := by
    have hle : range.first.toNat + range.count.toNat ≤
        (range.first.toNat + range.count.toNat) * sector.toNat :=
          Nat.le_mul_of_pos_right _ h.positive
    have hinside := h.inside
    have hbytes := UInt64.toNat_lt bytes
    rw [UInt64.toNat_add, Nat.mod_eq_of_lt (by omega)]
  unfold hyperBlockRangesConflict at hconflict
  split at hconflict
  next hshared =>
    simp only [Bool.or_eq_true, Bool.and_eq_true, bne_iff_ne, beq_iff_eq] at hshared
    obtain (hshared | hshared) | hshared := hshared
    · exact absurd hshared hid
    · exact absurd hsame hshared
    · exact .inl hshared
  next =>
    rw [Bool.and_eq_false_iff, decide_eq_false_iff_not, decide_eq_false_iff_not, UInt64.not_lt,
      UInt64.not_lt, UInt64.le_iff_toNat_le, UInt64.le_iff_toNat_le, hend h, hend h'] at hconflict
    exact .inr hconflict.symm

theorem conflict_symm (range range' : BlockRange) :
    hyperBlockRangesConflict range range' = hyperBlockRangesConflict range' range := by
  unfold hyperBlockRangesConflict
  by_cases hsame : range.disk = range'.disk
  · rw [hsame, Bool.and_comm (range.readOnly != 0), Bool.and_comm (decide (range.first < _))]
  · have hne : (range.disk != range'.disk) = true := bne_iff_ne.mpr hsame
    have hne' : (range'.disk != range.disk) = true := bne_iff_ne.mpr fun h => hsame h.symm
    rw [hne, hne', Bool.or_true, Bool.or_true, Bool.true_or, Bool.true_or, if_pos rfl, if_pos rfl]

end Ranges

/-! ## Bindings and their LUNs -/

/-- The number of a client, as the calls of its publication have it. -/
theorem clientNumber (client : Fin 128) : (UInt32.ofNat client).toNat = client := by
  have hlt := client.isLt
  exact UInt32.toNat_ofNat_of_lt' (show (client : Nat) < 2 ^ 32 by omega)

theorem clientNumber_injective {client client' : Fin 128}
    (h : UInt32.ofNat client = UInt32.ofNat client') : client = client' := by
  apply Fin.ext
  rw [← clientNumber client, h, clientNumber]

/-- What stands behind the binding of a client: an authorized client, a valid range of a known disk,
the device that maps it, and the link of the LUN. -/
structure Granted (owner : BlockOwner) (client : Fin 128) (disk : PhysicalDisk) (e : Exports) :
    Prop where
  nonzero : client ≠ 0
  authorized : owner.clients client = true
  known : owner.disks[(owner.bindings client).disk.toNat - 1]? = some disk
  valid : hyperBlockRangeValid disk.bytes disk.logical disk.readOnly (owner.bindings client) = true
  mapper : ∃ device, e.mappers (mapperName (.ofNat client)) =
    some (mapperOf device (mapperTable disk.device disk.logical (owner.bindings client)))
  link : e.links (lunSymlink (.ofNat client)) ≠ none

/-- The bindings do not conflict, each one is granted, and no other LUN is published. -/
structure Isolated (b : Backend) (w : Storage) : Prop where
  inventory : Inventory b.disks
  granted : ∀ owner, b.blocks = some owner → ∀ client, (owner.bindings client).disk ≠ 0 →
    ∃ disk, Granted owner client disk w.toExports
  apart : ∀ owner, b.blocks = some owner → ∀ client client', client ≠ client' →
    hyperBlockRangesConflict (owner.bindings client) (owner.bindings client') = false
  published : ∀ client, w.links (lunSymlink client) ≠ none → ∃ owner, b.blocks = some owner ∧
    ∃ h : client.toNat < 128, (owner.bindings ⟨client.toNat, h⟩).disk ≠ 0

section Invariant

variable {b b' : Backend} {w w' : Storage} {owner : BlockOwner}

/-- The table of disks may grow; the mappers and the links stay. -/
theorem Isolated.grown (h : Isolated b w) (added : List PhysicalDisk)
    (hblocks : b'.blocks = b.blocks.map fun owner => { owner with disks := owner.disks ++ added })
    (hinventory : Inventory b'.disks) (hmappers : w'.mappers = w.mappers)
    (hlinks : w'.links = w.links) : Isolated b' w' where
  inventory := hinventory
  granted owner' howner client hbound := by
    rw [hblocks] at howner
    obtain ⟨owner, hsome, rfl⟩ := Option.map_eq_some_iff.mp howner
    obtain ⟨disk, hgranted⟩ := h.granted owner hsome client hbound
    refine ⟨disk, hgranted.nonzero, hgranted.authorized, ?_, hgranted.valid, ?_, ?_⟩
    · obtain ⟨hlt, -⟩ := List.getElem?_eq_some_iff.mp hgranted.known
      exact (List.getElem?_append_left hlt).trans hgranted.known
    · rw [hmappers]
      exact hgranted.mapper
    · rw [hlinks]
      exact hgranted.link
  apart owner' howner := by
    rw [hblocks] at howner
    obtain ⟨owner, hsome, rfl⟩ := Option.map_eq_some_iff.mp howner
    exact h.apart owner hsome
  published client hlink := by
    rw [hlinks] at hlink
    obtain ⟨owner, hsome, hlt, hbound⟩ := h.published client hlink
    refine ⟨{ owner with disks := owner.disks ++ added }, ?_, hlt, hbound⟩
    rw [hblocks, hsome, Option.map_some]

theorem Isolated.same (h : Isolated b w) (hblocks : b'.blocks = b.blocks)
    (hmappers : w'.mappers = w.mappers) (hlinks : w'.links = w.links) : Isolated b' w' := by
  have hdisks : b'.disks = b.disks := by rw [Backend.disks, Backend.disks, hblocks]
  refine h.grown [] ?_ (hdisks ▸ h.inventory) hmappers hlinks
  rw [hblocks]
  cases b.blocks with
  | none => rfl
  | some owner => rw [Option.map_some, List.append_nil]

/-- A publication that failed concerns the device of an unbound client. -/
theorem Isolated.unexported (h : Isolated b w) (howner : b.blocks = some owner) {client : Fin 128}
    (hfree : (owner.bindings client).disk = 0)
    (hleft : Unexported (mapperName (.ofNat client)) w.toExports w'.toExports) :
    Isolated b w' where
  inventory := h.inventory
  granted owner' hsome other hbound := by
    obtain ⟨disk, hgranted⟩ := h.granted owner' hsome other hbound
    have hne : mapperName (.ofNat other) ≠ mapperName (.ofNat client) := by
      intro hsame
      obtain rfl := clientNumber_injective (mapperName_injective hsame)
      obtain rfl := Option.some_inj.mp (howner.symm.trans hsome)
      exact hbound hfree
    refine ⟨disk, hgranted.nonzero, hgranted.authorized, hgranted.known, hgranted.valid, ?_, ?_⟩
    · rw [hleft.mappers _ hne]
      exact hgranted.mapper
    · rw [hleft.links]
      exact hgranted.link
  apart := h.apart
  published other hlink := by
    rw [hleft.links] at hlink
    exact h.published other hlink

theorem mappers_lunBuilt (client : UInt32) (device : Dev) (table : DmTable) (readOnly : UInt32)
    (e : Exports) : (lunBuilt client device table readOnly e).mappers =
      Function.update e.mappers (mapperName client) (some (mapperOf device table)) := rfl

theorem mappers_makeLink (e : Exports) (target path : String) :
    (e.makeLink target path).mappers = e.mappers := rfl

theorem links_makeLink (e : Exports) (target path : String) :
    (e.makeLink target path).links = Function.update e.links path (some target) := rfl

theorem links_lunBuilt (client : UInt32) (device : Dev) (table : DmTable) (readOnly : UInt32)
    (e : Exports) : (lunBuilt client device table readOnly e).links = e.links := rfl

/-- An unbound slot conflicts with nothing. -/
theorem conflict_unbound {range : BlockRange} (h : range.disk = 0) (range' : BlockRange) :
    hyperBlockRangesConflict range range' = false := by
  unfold hyperBlockRangesConflict
  rw [h]
  rfl

/-- The range that `bind_range` lets through conflicts with no binding; slot 0 is never bound. -/
theorem Isolated.clear (h : Isolated b w) (howner : b.blocks = some owner) {range : BlockRange}
    (hclear : owner.conflicts range = false) (client : Fin 128) :
    hyperBlockRangesConflict (owner.bindings client) range = false := by
  by_cases hzero : client = 0
  · by_cases hbound : (owner.bindings client).disk = 0
    · exact conflict_unbound hbound range
    · obtain ⟨disk, hgranted⟩ := h.granted owner howner client hbound
      exact absurd hzero hgranted.nonzero
  · rw [BlockOwner.conflicts, List.any_eq_false] at hclear
    have hnone := hclear client (List.mem_finRange client)
    rw [Bool.and_eq_true, bne_iff_ne, not_and, Bool.not_eq_true] at hnone
    exact hnone hzero

/-- What a publication that succeeded has done. -/
structure Exported (client : Fin 128) (disk : PhysicalDisk) (range : BlockRange) (w w' : Exports) :
    Prop where
  mapper : ∃ device, w'.mappers = Function.update w.mappers (mapperName (.ofNat client))
    (some (mapperOf device (mapperTable disk.device disk.logical range)))
  link : w'.links (lunSymlink (.ofNat client)) ≠ none
  links : ∀ path, path ≠ lunSymlink (.ofNat client) → w'.links path = w.links path

theorem exported_of_built {client : Fin 128} {disk : PhysicalDisk} {range : BlockRange}
    {e e' w : Exports} {device : Dev} (hparents : ParentsMade w e)
    (hbuilt : e' = (lunBuilt (.ofNat client) device (mapperTable disk.device disk.logical range)
      range.readOnly e).makeLink (targetPaths (.ofNat client) (mapperName (.ofNat client))).core
        (lunSymlink (.ofNat client))) : Exported client disk range w e' := by
  have hlinks : e'.links = Function.update e.links (lunSymlink (.ofNat client))
      (some (targetPaths (.ofNat client) (mapperName (.ofNat client))).core) := by
    rw [hbuilt, links_makeLink, links_lunBuilt]
  refine ⟨⟨device, ?_⟩, ?_, fun path hne => ?_⟩
  · rw [hbuilt, mappers_makeLink, mappers_lunBuilt, hparents.mappers]
  · rw [hlinks, Function.update_self]
    exact Option.some_ne_none _
  · rw [hlinks, Function.update_of_ne hne, hparents.links]

/-- A publication that succeeded binds its client to a range that conflicts with no other. -/
theorem Isolated.bind (h : Isolated b w) (howner : b.blocks = some owner) {client : Fin 128}
    {disk : PhysicalDisk} {range : BlockRange} (hclient : client ≠ 0)
    (hauthorized : owner.clients client = true) (hid : range.disk ≠ 0)
    (hknown : owner.disks[range.disk.toNat - 1]? = some disk)
    (hvalid : hyperBlockRangeValid disk.bytes disk.logical disk.readOnly range = true)
    (hclear : owner.conflicts range = false)
    (hexported : Exported client disk range w.toExports w'.toExports)
    (hblocks : b'.blocks = some { owner with
      bindings := Function.update owner.bindings client range }) : Isolated b' w' where
  inventory := by
    have hdisks : b'.disks = b.disks := by rw [Backend.disks, Backend.disks, hblocks, howner]; rfl
    rw [hdisks]
    exact h.inventory
  granted owner' howner' other hbound := by
    obtain rfl := Option.some_inj.mp (hblocks.symm.trans howner')
    obtain ⟨device, hmapper⟩ := hexported.mapper
    dsimp only at hbound
    -- the client that was bound, or another one with its range as before
    by_cases hsame : other = client
    · subst hsame
      refine ⟨disk, hclient, hauthorized, ?_, ?_, ⟨device, ?_⟩, hexported.link⟩
      · simpa only [Function.update_self] using hknown
      · simpa only [Function.update_self] using hvalid
      · simp only [hmapper, Function.update_self]
    · rw [Function.update_of_ne hsame] at hbound
      obtain ⟨disk', hgranted⟩ := h.granted owner howner other hbound
      have hnumber : UInt32.ofNat other ≠ UInt32.ofNat client := fun heq =>
        hsame (clientNumber_injective heq)
      refine ⟨disk', hgranted.nonzero, hgranted.authorized, ?_, ?_, ?_, ?_⟩
      · simpa only [Function.update_of_ne hsame] using hgranted.known
      · simpa only [Function.update_of_ne hsame] using hgranted.valid
      · rw [hmapper, Function.update_of_ne fun heq => hnumber (mapperName_injective heq)]
        simpa only [Function.update_of_ne hsame] using hgranted.mapper
      · rw [hexported.links _ fun heq => hnumber (lunSymlink_injective heq)]
        exact hgranted.link
  apart owner' howner' first second hne := by
    obtain rfl := Option.some_inj.mp (hblocks.symm.trans howner')
    dsimp only
    -- the ranges are compared with the new one, which conflicts with none
    by_cases hfirst : first = client
    · rw [hfirst, Function.update_self, Function.update_of_ne (hfirst ▸ hne.symm), conflict_symm]
      exact h.clear howner hclear second
    · rw [Function.update_of_ne hfirst]
      by_cases hsecond : second = client
      · rw [hsecond, Function.update_self]
        exact h.clear howner hclear first
      · rw [Function.update_of_ne hsecond]
        exact h.apart owner howner first second hne
  published other hlink := by
    refine ⟨_, hblocks, ?_⟩
    -- the LUN of the client that was bound, or another one
    by_cases hsame : other = .ofNat client
    · have hnumber : other.toNat = client := by rw [hsame, clientNumber]
      refine ⟨by rw [hnumber]; exact client.isLt, ?_⟩
      have hslot : (⟨other.toNat, by rw [hnumber]; exact client.isLt⟩ : Fin 128) = client :=
        Fin.ext hnumber
      dsimp only
      rw [hslot, Function.update_self]
      exact hid
    · rw [hexported.links _ fun heq => hsame (lunSymlink_injective heq)] at hlink
      obtain ⟨owner', howner', hlt, hbound⟩ := h.published other hlink
      obtain rfl := Option.some_inj.mp (howner.symm.trans howner')
      have hne : (⟨other.toNat, hlt⟩ : Fin 128) ≠ client := by
        intro heq
        refine hsame (UInt32.toNat_inj.mp ?_)
        rw [clientNumber, ← heq]
      refine ⟨hlt, ?_⟩
      dsimp only
      rw [Function.update_of_ne hne]
      exact hbound

end Invariant

/-! ## Requests -/

/-- The contract that watches the exports and assumes nothing. -/
abbrev watched : Contract Sys Storage := storage (fun _ _ _ => True) False False

theorem watched_assumed (w : Storage) (es : List (Event Sys)) : watched.Assumed w es :=
  storage_assumed False.elim False.elim

/-- A routine that publishes nothing. -/
theorem quiet_wp {α : Type} {m : Service α} {Q : α → Backend → Prop} {b : Backend} {w : Storage}
    (hquiet : Issues (I := Sys) (fun c => Call.publishes c = false) m)
    (hfree : m.wp (.free Sys) (fun a b' _ => Q a b') b ()) :
    m.wp watched (fun a b' w' => (w'.mappers = w.mappers ∧ w'.links = w.links) ∧ Q a b') b w := by
  refine hquiet.wp_keep (C := watched)
    (J := fun w' => w'.mappers = w.mappers ∧ w'.links = w.links) hfree ?_ ?_ ⟨rfl, rfl⟩
  · intro w' c _ _
    cases c <;> trivial
  · intro w' c r hw hc
    obtain ⟨hmappers, hlinks⟩ := unpublished_next w' r hc
    exact ⟨hmappers.trans hw.1, hlinks.trans hw.2⟩

theorem ReadsOnly.quiet {α : Type} {m : Service α} (h : ReadsOnly m) :
    Issues (I := Sys) (fun c => Call.publishes c = false) m := by
  refine h.mono fun c hc => ?_
  cases c with
  | ioctl fd command => cases hc
  | _ => first | rfl | cases hc

theorem Uses.quiet {α : Type} {m : Service α} (h : Uses clientPurposes m) :
    Issues (I := Sys) (fun c => Call.publishes c = false) m := by
  refine Issues.mono h fun c hc => ?_
  cases c with
  | ioctl fd command => cases command <;> first | rfl | simp [clientPurposes] at hc
  | _ => first | rfl | simp [clientPurposes] at hc

/-- Only the block owner's requests touch its table. -/
theorem Operation.blocks_untouched {op : Operation} {status : Status} (h : op.isBlock ≠ true) :
    Part.blocks ∉ op.touched status := by
  unfold Operation.touched
  split
  · simp
  · cases op <;> simp_all [Operation.parts, Operation.isBlock, releaseParts, networkParts]

section Requests

variable {b : Backend} {w : Storage} {owner : BlockOwner}

theorem diskCurrent_isolated (h : Isolated b w) (disk : PhysicalDisk) :
    (diskCurrent disk).wp watched (fun _ b' w' => Isolated b' w' ∧ b'.blocks = b.blocks) b w := by
  have hconfined : Confined [] (diskCurrent disk) := .of_silent (diskCurrent_silent disk)
  have hfree := wp_mono (hconfined.wp b) fun _ b' _ hb => hb.blocks (by simp)
  refine wp_mono (quiet_wp (diskCurrent_readsOnly disk).quiet hfree) fun _ b' w' hpost => ?_
  exact ⟨h.same hpost.2 hpost.1.1 hpost.1.2, hpost.2⟩

/-- `BLOCK_ENUM` at most adds disks. -/
theorem blockEnum_isolated (h : Isolated b w) (howner : b.blocks = some owner)
    (request : BlockEnum) :
    (blockEnum owner request).wp watched (fun _ b' w' => Isolated b' w') b w := by
  have hinventory : Inventory owner.disks := by
    have hdisks := h.inventory
    rw [Backend.disks, howner] at hdisks
    exact hdisks
  have hfree := wp_drop (blockEnum_grows howner hinventory request 0) fun _ _ _ => trivial
  refine wp_mono (quiet_wp (blockEnum_readsOnly owner request).quiet hfree) fun _ b' w' hpost => ?_
  obtain ⟨⟨hmappers, hlinks⟩, _, ⟨added, hblocks, hgrown, -⟩, -⟩ := hpost
  refine h.grown added ?_ ?_ hmappers hlinks
  · rw [hblocks, howner, Option.map_some]
  · rw [Backend.disks, hblocks]
    exact hgrown

theorem blockRead_isolated (h : Isolated b w) (request : BlockRead) :
    (blockRead owner request).wp watched (fun _ b' w' => Isolated b' w') b w := by
  have hconfined : Confined [] (blockRead owner request) :=
    .of_silent (blockRead_silent owner request)
  have hfree := wp_mono (hconfined.wp b) fun _ b' _ hb => hb.blocks (by simp)
  refine wp_mono (quiet_wp (blockRead_readsOnly owner request).quiet hfree) fun _ b' w' hpost => ?_
  exact h.same hpost.2 hpost.1.1 hpost.1.2

/-- `BLOCK_BIND`: what passes all the checks and is published becomes a binding. -/
theorem bindRange_isolated (h : Isolated b w) (howner : b.blocks = some owner)
    (request : BlockBind) :
    (bindRange owner request).wp watched (fun _ b' w' => Isolated b' w') b w := by
  unfold bindRange
  dsimp only
  split
  -- the client is out of range
  swap
  · exact h
  rename_i hlt
  generalize (⟨request.client.toNat, hlt⟩ : Fin 128) = client
  rw [wp_ite]
  split
  · -- it may not be bound
    exact h
  rename_i hclient
  rw [not_or, not_or, Bool.not_eq_true', Bool.not_eq_false] at hclient
  obtain ⟨hnonzero, hauthorized, hid⟩ := hclient
  split
  · -- there is no such disk
    exact h
  rename_i disk hknown
  rw [wp_bind]
  refine wp_mono (diskCurrent_isolated h disk) ?_
  intro current b₁ w₁ h₁
  obtain ⟨h₁, hblocks₁⟩ := h₁
  rw [wp_ite]
  split
  · -- the disk is no longer the one that was discovered
    exact h₁
  rw [wp_ite]
  split
  · -- the range is not valid
    exact h₁
  rename_i hvalid
  rw [wp_ite]
  split
  · -- the client has its range already
    split
    · exact h₁
    · exact h₁
  rename_i hfree
  rw [wp_ite]
  split
  · -- another client has a range that conflicts
    exact h₁
  rename_i hclear
  rw [Bool.not_eq_true', Bool.not_eq_false] at hvalid
  rw [Bool.not_eq_true] at hclear
  have howner₁ := hblocks₁.trans howner
  have hpublish := wp_weaken (D := watched)
    (publishRange_wp False False (b := b₁) (w := w₁) client disk request.range)
      (fun _ c _ => by cases c <;> trivial) (fun _ _ _ hr => hr) fun _ _ _ => rfl
  refine wp_mono hpublish ?_
  intro r b₂ w₂ h₂
  obtain ⟨-, hb₂, e, device, hparents, hbuilt⟩ | ⟨-, rfl, hleft, -⟩ := h₂
  · -- published: the client is bound
    refine h₁.bind howner₁ hnonzero hauthorized hid hknown hvalid hclear
      (exported_of_built hparents hbuilt) ?_
    rw [hb₂, howner₁, Option.map_some]
  · -- refused: nothing is left that is exported
    exact h₁.unexported howner₁ (Decidable.not_not.mp hfree) hleft

/-- No request leaves the isolation. -/
theorem dispatch_isolated (session : Session) (m : Bytes) :
    Keeps watched Isolated (dispatch session m) := by
  intro b w h
  by_cases hop : (operationOf m).isBlock = true
  · refine wp_dispatch_block hop h ?_
    exact wp_blockDispatch (Q := fun _ b' w' => Isolated b' w') (fun _ _ => h) (fun _ _ _ => h)
      (fun _ howner _ => blockEnum_isolated h howner _) (fun _ _ _ => blockRead_isolated h _)
      fun _ howner _ => bindRange_isolated h howner _
  · refine wp_mono (quiet_wp (dispatch_uses session hop).quiet (dispatch_confined session m b))
      fun _ b' w' hpost => ?_
    exact h.same (hpost.2.blocks (Operation.blocks_untouched hop)) hpost.1.1 hpost.1.2

end Requests

/-! ## What becomes of a binding -/

/-- The ranges that the clients are bound to. -/
def Backend.bindings (b : Backend) : Fin 128 → BlockRange :=
  (b.blocks.map (·.bindings)).getD fun _ => {}

/-- Bindings stay, and a request that is not answered OK makes none. -/
def BindingsKept (b : Backend) (status : Status) (b' : Backend) : Prop :=
  (∀ client, (b.bindings client).disk ≠ 0 → b'.bindings client = b.bindings client) ∧
    (status ≠ .ok → b'.bindings = b.bindings)

section Bindings

variable {b : Backend} {owner : BlockOwner}

theorem bindingsKept_of_eq {b' : Backend} (h : b'.bindings = b.bindings) (status : Status) :
    BindingsKept b status b' := ⟨fun client _ => congrFun h client, fun _ => h⟩

theorem bindings_eq {b b' : Backend} (h : b'.blocks = b.blocks) : b'.bindings = b.bindings := by
  rw [Backend.bindings, Backend.bindings, h]

theorem bindRange_bindings (howner : b.blocks = some owner) (request : BlockBind) :
    (bindRange owner request).wp (.free Sys) (fun r b' _ => BindingsKept b r b') b () := by
  have hsame (r : Status) : BindingsKept b r b := bindingsKept_of_eq rfl r
  unfold bindRange
  dsimp only
  split
  swap
  · -- the client is out of range
    exact hsame _
  generalize (⟨request.client.toNat, _⟩ : Fin 128) = client
  rw [wp_ite]
  split
  · -- it may not be bound
    exact hsame _
  split
  · -- there is no such disk
    exact hsame _
  rename_i disk hknown
  rw [wp_bind]
  have hcurrent : Confined [] (diskCurrent disk) := .of_silent (diskCurrent_silent disk)
  refine wp_mono (hcurrent.wp b) ?_
  intro current b₁ _ hb₁
  have hblocks₁ := hb₁.blocks (by simp)
  have hsame₁ (r : Status) : BindingsKept b r b₁ := bindingsKept_of_eq (bindings_eq hblocks₁) r
  rw [wp_ite]
  split
  · -- the disk is no longer the one that was discovered
    exact hsame₁ _
  rw [wp_ite]
  split
  · -- the range is not valid
    exact hsame₁ _
  rw [wp_ite]
  split
  · -- the client has its range already
    exact hsame₁ _
  rename_i hfree
  rw [wp_ite]
  split
  · -- another client has a range that conflicts
    exact hsame₁ _
  rw [publishRange, wp_bind]
  have hpublish : Confined [] (blockTargetPublish (.ofNat client) disk.device disk.logical
    request.range) := blockTargetPublish_confined _ _ _ _
  refine wp_mono (hpublish.wp b₁) ?_
  intro r b₂ _ hb₂
  have hblocks₂ := (hb₂.blocks (by simp)).trans hblocks₁
  rw [wp_ite]
  split
  · -- refused
    exact bindingsKept_of_eq (bindings_eq hblocks₂) _
  · -- published: only this client is bound, and it was not before
    have hbindings : b.bindings = owner.bindings := by rw [Backend.bindings, howner]; rfl
    have hupdated : Backend.bindings { b₂ with blocks := b₂.blocks.map fun owner =>
        { owner with bindings := Function.update owner.bindings client request.range } } =
        Function.update owner.bindings client request.range := by
      rw [Backend.bindings, hblocks₂, howner]
      rfl
    refine ⟨fun other hbound => ?_, fun hok => absurd rfl hok⟩
    rw [hbindings] at hbound ⊢
    refine (congrFun hupdated other).trans (Function.update_of_ne (fun hsame => ?_) ..)
    rw [hsame] at hbound
    exact hfree hbound

/-- No request changes or removes a binding. -/
theorem dispatch_bindings (h : Inventory b.disks) (session : Session) (m : Bytes) :
    (dispatch session m).wp (.free Sys) (fun r b' _ => BindingsKept b r.1.status b') b () := by
  have hsame (r : Status) : BindingsKept b r b := bindingsKept_of_eq rfl r
  by_cases hop : (operationOf m).isBlock = true
  · refine wp_dispatch_block hop (hsame _) ?_
    refine wp_blockDispatch (Q := fun r b' _ => BindingsKept b r.status b') (fun _ _ => hsame _)
      (fun _ _ _ => hsame _) (fun owner howner _ => ?_) (fun owner _ _ => ?_)
      fun owner howner _ => bindRange_bindings howner _
    · have hdisks : b.disks = owner.disks := by rw [Backend.disks, howner]; rfl
      rw [hdisks] at h
      refine wp_mono (wp_drop (blockEnum_grows howner h _ 0) fun _ _ _ => trivial) ?_
      intro r b' _ hpost
      obtain ⟨_, ⟨added, hblocks, -⟩, -⟩ := hpost
      refine bindingsKept_of_eq ?_ _
      rw [Backend.bindings, Backend.bindings, hblocks, howner]
      rfl
    · have hread : Confined [] (blockRead owner (.decode m)) :=
        .of_silent (blockRead_silent owner _)
      exact wp_mono (hread.wp b) fun _ b' _ hb =>
        bindingsKept_of_eq (bindings_eq (hb.blocks (by simp))) _
  · refine wp_mono (dispatch_confined session m b) fun r b' _ hb => ?_
    exact bindingsKept_of_eq (bindings_eq (hb.blocks (Operation.blocks_untouched hop))) _

end Bindings

/-! ## Requests for a bound client -/

section Bound

variable {b : Backend} {owner : BlockOwner} {client : Fin 128} {disk : PhysicalDisk} {e : Exports}

/-- The same request again makes only the currency check. -/
theorem bindRange_repeated {request : BlockBind} (h : Granted owner client disk e)
    (hclient : request.client.toNat = client) (hid : (owner.bindings client).disk ≠ 0)
    (hrange : request.range = owner.bindings client) :
    (bindRange owner request).wp (.history Sys) (fun r _ es => disk.Queries es ∧
      ((es = disk.currency ∧ r = .ok) ∨ (es ≠ disk.currency ∧ r = .backendFailure))) b [] := by
  have hlt : request.client.toNat < 128 := by
    rw [hclient]
    exact client.isLt
  have hslot : (⟨request.client.toNat, hlt⟩ : Fin 128) = client := Fin.ext hclient
  unfold bindRange
  dsimp only
  rw [dif_pos hlt, hslot, hrange, wp_ite, if_neg, h.known]
  swap
  · rw [h.authorized]
    simp [h.nonzero, hid]
  dsimp only
  rw [wp_bind]
  refine wp_mono (diskCurrent_history disk b) ?_
  intro current b₁ es hpost
  obtain ⟨rfl, hqueries, hcurrent⟩ := hpost
  cases current with
  | false =>
    exact ⟨hqueries, .inr ⟨fun hes => (by cases hcurrent.mpr hes), rfl⟩⟩
  | true =>
    rw [wp_ite, if_neg (by decide), wp_ite, h.valid, if_neg (by decide), wp_ite, if_pos hid,
      if_pos rfl]
    exact ⟨hqueries, .inl ⟨hcurrent.mp rfl, rfl⟩⟩

/-- Another request for a bound client is not answered OK. -/
theorem bindRange_different {request : BlockBind} (hclient : request.client.toNat = client)
    (hid : (owner.bindings client).disk ≠ 0) (hrange : request.range ≠ owner.bindings client) :
    (bindRange owner request).wp (.free Sys) (fun r _ _ => r ≠ .ok) b () := by
  have hinvalid : Status.invalid ≠ .ok := by decide
  have hlt : request.client.toNat < 128 := by
    rw [hclient]
    exact client.isLt
  have hslot : (⟨request.client.toNat, hlt⟩ : Fin 128) = client := Fin.ext hclient
  unfold bindRange
  dsimp only
  rw [dif_pos hlt, hslot, wp_ite]
  split
  · exact hinvalid
  split
  · exact hinvalid
  rw [wp_bind]
  refine wp_mono (wp_free (Q := fun _ _ => True) fun _ _ => trivial) ?_
  intro current b₁ _ _
  rw [wp_ite]
  split
  · exact fun h => by cases h
  rw [wp_ite]
  split
  · exact hinvalid
  rw [wp_pure, if_neg fun h => hrange h.symm]
  exact fun h => by cases h

end Bound

/-! ## Every run -/

/-- The LUN of a client is published, over this table. -/
def Exports.Lun (e : Exports) (client : UInt32) (table : DmTable) : Prop :=
  e.links (lunSymlink client) ≠ none ∧ ∃ mapper, e.mappers (mapperName client) = some mapper ∧
    mapper.live = some table ∧ mapper.readOnly = table.readOnly

/-- What the published LUNs are: each is of an authorized client with a recorded binding, and maps
the bytes of its range; no two reach the same byte of a device unless both only read. -/
structure LunsIsolated (b : Backend) (e : Exports) : Prop where
  published : ∀ client, e.links (lunSymlink client) ≠ none → client ≠ 0 ∧
    ∃ owner, b.blocks = some owner ∧ ∃ h : client.toNat < 128,
      owner.clients ⟨client.toNat, h⟩ = true ∧ (owner.bindings ⟨client.toNat, h⟩).disk ≠ 0 ∧
      ∃ disk table, owner.disks[(owner.bindings ⟨client.toNat, h⟩).disk.toNat - 1]? = some disk ∧
        e.Lun client table ∧ Covers table disk (owner.bindings ⟨client.toNat, h⟩)
  disjoint : ∀ client client' table table', client ≠ client' → e.Lun client table →
    e.Lun client' table' → table.device = table'.device →
    (table.readOnly = true ∧ table'.readOnly = true) ∨
      ∀ byte, ¬ (table.maps byte ∧ table'.maps byte)

/-- The table behind a published LUN. -/
theorem Isolated.lun {b : Backend} {w : Storage} (h : Isolated b w) {client : UInt32}
    (hlink : w.links (lunSymlink client) ≠ none) : ∃ owner, b.blocks = some owner ∧
      ∃ (slot : Fin 128) (disk : PhysicalDisk), client = .ofNat slot ∧
        (owner.bindings slot).disk ≠ 0 ∧
        Granted owner slot disk w.toExports ∧
        RangeInside disk.bytes disk.logical (owner.bindings slot) ∧
        ∀ table, w.Lun client table ↔
          table = mapperTable disk.device disk.logical (owner.bindings slot) := by
  obtain ⟨owner, howner, hlt, hbound⟩ := h.published client hlink
  obtain ⟨disk, hgranted⟩ := h.granted owner howner _ hbound
  have hnumber : client = .ofNat (⟨client.toNat, hlt⟩ : Fin 128) := UInt32.ofNat_toNat.symm
  obtain ⟨device, hmapper⟩ := hgranted.mapper
  rw [← hnumber] at hmapper
  refine ⟨owner, howner, _, disk, hnumber, hbound, hgranted, rangeInside_of_valid hgranted.valid,
    fun table => ⟨fun hlun => ?_, fun htable => ?_⟩⟩
  · obtain ⟨-, mapper, hsome, hlive, -⟩ := hlun
    obtain rfl := Option.some_inj.mp (hmapper.symm.trans hsome)
    exact (Option.some_inj.mp hlive).symm
  · rw [htable]
    exact ⟨hlink, _, hmapper, rfl, rfl⟩

theorem Isolated.luns {b : Backend} {w : Storage} (h : Isolated b w) :
    LunsIsolated b w.toExports where
  published client hlink := by
    obtain ⟨owner, howner, slot, disk, hclient, hbound, hgranted, hinside, htable⟩ := h.lun hlink
    have hslot : client.toNat = slot := by rw [hclient, clientNumber]
    have hlt : client.toNat < 128 := hslot ▸ slot.isLt
    have heq : (⟨client.toNat, hlt⟩ : Fin 128) = slot := Fin.ext hslot
    refine ⟨fun hzero => hgranted.nonzero (Fin.ext ?_), owner, howner, hlt, ?_⟩
    · rw [← hslot, hzero]
      rfl
    · rw [heq]
      exact ⟨hgranted.authorized, hbound, disk, _, hgranted.known, (htable _).mpr rfl,
        mapperTable_covers hinside⟩
  disjoint client client' table table' hne hlun hlun' hdevice := by
    obtain ⟨owner, howner, slot, disk, hclient, hbound, hgranted, hinside, htable⟩ := h.lun hlun.1
    obtain ⟨owner', howner', slot', disk', hclient', hbound', hgranted', hinside', htable'⟩ :=
      h.lun hlun'.1
    obtain rfl := Option.some_inj.mp (howner.symm.trans howner')
    obtain rfl := (htable table).mp hlun
    obtain rfl := (htable' table').mp hlun'
    have hslots : slot ≠ slot' := fun hsame => hne (by rw [hclient, hclient', hsame])
    have hinventory : Inventory owner.disks := by
      have hdisks := h.inventory
      rw [Backend.disks, howner] at hdisks
      exact hdisks
    -- one device number is one disk, and so one identifier
    have hindex := hinventory.eq_of_device hgranted.known hgranted'.known hdevice
    have hid : (owner.bindings slot).disk = (owner.bindings slot').disk := by
      have hpos := UInt64.toNat_inj.not.mpr hbound
      have hpos' := UInt64.toNat_inj.not.mpr hbound'
      rw [UInt64.toNat_zero] at hpos hpos'
      exact UInt64.toNat_inj.mp (by omega)
    have hknown' := hgranted'.known
    rw [← hid, hgranted.known] at hknown'
    obtain rfl := Option.some_inj.mp hknown'
    obtain hread | hsectors := sectors_apart hinside hinside' hbound hid
      (h.apart owner howner slot slot' hslots)
    · exact .inl ⟨bne_iff_ne.mpr hread.1, bne_iff_ne.mpr hread.2⟩
    · -- sectors that are apart are bytes that are apart
      refine .inr fun byte hboth => ?_
      rw [(mapperTable_covers hinside).bytes, (mapperTable_covers hinside').bytes] at hboth
      obtain hle | hle := hsectors
      · have hbytes := Nat.mul_le_mul_right disk.logical.toNat hle
        omega
      · have hbytes := Nat.mul_le_mul_right disk.logical.toNat hle
        omega

/-- What holds of the block owner in a run whose turns are `ts`. -/
structure BlockIsolation (ts : List Turn) : Prop where
  isolated : ∀ pre t post, ts = pre ++ t :: post →
    LunsIsolated t.after.backend (({} : Storage).after (turnEvents (pre ++ [t]))).toExports
  kept : ∀ pre t mid u post, ts = pre ++ t :: (mid ++ u :: post) → ∀ client,
    (t.after.backend.bindings client).disk ≠ 0 →
    u.after.backend.bindings client = t.after.backend.bindings client
  refused : ∀ t ∈ ts, t.served.response.status ≠ Status.ok.code →
    t.after.backend.bindings = t.before.backend.bindings
  repeated : ∀ t ∈ ts, t.Executes .blockBind → t.record.length = 72 →
    hyperIoSessionPreparable (t.before.admission t.record).2 = true → ∀ client : Fin 128,
    (BlockBind.decode t.record).client.toNat = client →
    (t.before.backend.bindings client).disk ≠ 0 →
    (BlockBind.decode t.record).range = t.before.backend.bindings client →
    ∃ disk, t.before.backend.disks[(t.before.backend.bindings client).disk.toNat - 1]? = some disk ∧
      disk.Queries t.events ∧
      ((t.events = disk.currency ∧ t.served.response.status = Status.ok.code) ∨
        (t.events ≠ disk.currency ∧ t.served.response.status = Status.backendFailure.code))
  different : ∀ t ∈ ts, t.Executes .blockBind → ∀ client : Fin 128,
    (BlockBind.decode t.record).client.toNat = client →
    (t.before.backend.bindings client).disk ≠ 0 →
    (BlockBind.decode t.record).range ≠ t.before.backend.bindings client →
    t.served.response.status ≠ Status.ok.code

section Runs

variable {env : Environment Sys} {past : List (Event Sys)} {s : Serving} {ms : List Bytes}
  {t : Turn}

theorem bindings_diagnostic (b : Backend) : b.diagnostic.bindings = b.bindings :=
  bindings_eq ((Within.diagnostic [] b).blocks (by simp))

/-- One turn keeps the bindings. -/
theorem turns_bindings (ht : t ∈ turns env past s ms) (h : Inventory t.before.backend.disks) :
    (∀ client, (t.before.backend.bindings client).disk ≠ 0 →
      t.after.backend.bindings client = t.before.backend.bindings client) ∧
    (t.served.response.status ≠ Status.ok.code →
      t.after.backend.bindings = t.before.backend.bindings) := by
  cases hserved : t.served.dispatched with
  | true =>
    obtain ⟨-, r, b', hkept, hresponse, hafter⟩ := turns_executed_wp (C := .free Sys) ht hserved
      (Contract.free_assumed () _) fun session =>
        dispatch_bindings (by rw [disks_diagnostic]; exact h) session t.record
    rw [BindingsKept, bindings_diagnostic] at hkept
    rw [hafter, bindings_diagnostic, hresponse]
    exact ⟨hkept.1, fun hstatus => hkept.2 fun hok => hstatus (congrArg Status.code hok)⟩
  | false =>
    have hsame : t.after.backend.bindings = t.before.backend.bindings := by
      rw [(turns_round ht).2.not_dispatched hserved]
      exact bindings_eq (t.before.logged_within.blocks (by simp))
    exact ⟨fun client _ => congrFun hsame client, fun _ => hsame⟩

/-- A turn that binds gets to `bind_range` when its session and the length of its record allow. -/
theorem turns_bindRange {K : Type} {C : Contract Sys K} {k : K} {Q : Status → Backend → K → Prop}
    {owner : BlockOwner} (ht : t ∈ turns env past s ms) (hop : t.Executes .blockBind)
    (hlength : t.record.length = 72)
    (hsession : hyperIoSessionPreparable (t.before.admission t.record).2 = true)
    (howner : t.before.backend.blocks = some owner) (hassumed : C.Assumed k t.events)
    (hbind : (bindRange owner (.decode t.record)).wp C Q t.before.backend.diagnostic k) :
    ∃ status b', t.served.response.status = status.code ∧ Q status b' (C.after k t.events) := by
  obtain ⟨hserved, hrecord⟩ := hop
  have howner' : t.before.backend.diagnostic.blocks = some owner :=
    ((Within.diagnostic [] t.before.backend).blocks (by simp)).trans howner
  have hrelease : isRelease t.record = false := by
    simp only [isRelease, Bool.and_eq_false_iff, beq_eq_false_iff_ne]
    refine .inl fun h => ?_
    rw [h] at hrecord
    cases hrecord
  obtain ⟨-, r, b', hpost, hresponse, -⟩ := turns_admitted_wp (C := C) (k := k)
    (Q := fun r b' k' => Q r.1.status b' k') ht hserved hassumed (by
      rw [dispatch, wp_bind, wp_get, hrelease, Bool.false_and, if_neg Bool.false_ne_true, hsession,
        if_neg (by decide), wp_ite, hrecord, if_pos (by decide), wp_bind, blockDispatch, wp_bind,
        wp_get, howner']
      dsimp only
      rw [hrecord, hlength]
      exact (wp_bind (bindRange owner (.decode t.record)) _).mpr hbind)
  exact ⟨r.1.status, b', by rw [hresponse]; rfl, hpost⟩

/-- A client that is bound has an owner that bound it. -/
theorem owner_of_bound {b : Backend} {client : Fin 128} (h : (b.bindings client).disk ≠ 0) :
    ∃ owner, b.blocks = some owner ∧ b.bindings = owner.bindings := by
  cases hblocks : b.blocks with
  | none =>
    rw [Backend.bindings, hblocks] at h
    exact absurd rfl h
  | some owner => exact ⟨owner, rfl, by rw [Backend.bindings, hblocks]; rfl⟩

end Runs

theorem Start.isolated (start : Start) : Isolated start.backend {} := by
  have hunbound : ∀ owner, start.backend.blocks = some owner →
      ∀ client, (owner.bindings client).disk = 0 := by
    intro owner howner client
    cases start with
    | standalone fixture => cases howner
    | managed setup =>
      obtain ⟨_, _, _, role⟩ := setup
      cases role with
      | client => cases howner
      | owner clients =>
        obtain rfl := Option.some_inj.mp howner
        rfl
  refine ⟨by rw [start.disks]; exact .empty, fun owner howner client hbound => ?_,
    fun owner howner client client' _ => ?_, fun client hlink => absurd rfl hlink⟩
  · exact absurd (hunbound owner howner client) hbound
  · exact conflict_unbound (hunbound owner howner client) _

/-- The block owner isolates its clients. In every run, whatever the requests ask, the disks report
and the publications answer: every published LUN is of an authorized client with a recorded binding,
and maps exactly the bytes of that range of its disk; two LUNs reach the same byte of a device only
to read; bindings are never changed or removed; a request that is not answered OK makes none; the
same request again is answered OK without a publication while the disk is current, and another
request for a bound client is not. -/
theorem block_isolation (start : Start) (env : Environment Sys) (ms : List Bytes) :
    BlockIsolation (turns env [] start.serving ms) := by
  have hisolated {pre : List Turn} {t : Turn} {post : List Turn}
      (hts : turns env [] start.serving ms = pre ++ t :: post) :
      Isolated t.before.backend (({} : Storage).after (turnEvents pre)) ∧
        Isolated t.after.backend (({} : Storage).after (turnEvents (pre ++ [t]))) := by
    obtain ⟨-, -, hbefore, hafter⟩ := turns_dispatch (C := watched) (J := Isolated) watched_assumed
      (fun _ _ _ hb h => h.same (hb.blocks (by simp)) rfl rfl) dispatch_isolated start.isolated hts
    exact ⟨hbefore, hafter⟩
  have hmember {t : Turn} (ht : t ∈ turns env [] start.serving ms) :
      ∃ w, Isolated t.before.backend w := by
    obtain ⟨pre, post, hts⟩ := List.append_of_mem ht
    exact ⟨_, (hisolated hts).1⟩
  refine ⟨fun pre t post hts => (hisolated hts).2.luns,
    fun pre t mid u post hts client hbound => ?_,
    fun t ht => ?_, fun t ht hop hlength hsession client hclient hbound hrange => ?_,
    fun t ht hop client hclient hbound hrange => ?_⟩
  · -- a binding is kept from turn to turn
    obtain ⟨past', ms', hrest⟩ := turns_after hts
    have hturn (v : Turn) (hv : v ∈ mid ++ [u])
        (hbefore : v.before.backend.bindings client = t.after.backend.bindings client) :
        v.after.backend.bindings client = t.after.backend.bindings client := by
      have hmem : v ∈ turns env [] start.serving ms := by
        rw [hts]
        refine List.mem_append_right _ (List.mem_cons_of_mem _ ?_)
        rw [← List.singleton_append, ← List.append_assoc]
        exact List.mem_append_left _ hv
      obtain ⟨w, h⟩ := hmember hmem
      exact ((turns_bindings hmem h.inventory).1 client
        (by rw [hbefore]; exact hbound)).trans hbefore
    refine hturn u (by simp) ?_
    exact turns_keep (P := fun s => s.backend.bindings client = t.after.backend.bindings client) rfl
      hrest.symm fun v hv => hturn v (List.mem_append_left _ hv)
  · -- a bind that fails binds nobody
    obtain ⟨w, h⟩ := hmember ht
    exact (turns_bindings ht h.inventory).2
  · -- a bind that is repeated
    obtain ⟨w, h⟩ := hmember ht
    obtain ⟨owner, howner, hbindings⟩ := owner_of_bound hbound
    rw [hbindings] at hbound hrange ⊢
    obtain ⟨disk, hgranted⟩ := h.granted owner howner client hbound
    obtain ⟨status, b', hstatus, hqueries, hcases⟩ := turns_bindRange (C := .history Sys) (k := [])
      ht hop hlength hsession howner (Contract.history_assumed _ _)
      (bindRange_repeated hgranted hclient hbound hrange)
    rw [Contract.history_after, List.nil_append] at hqueries hcases
    refine ⟨disk, ?_, hqueries, ?_⟩
    · rw [Backend.disks, howner]
      exact hgranted.known
    · rw [hstatus]
      exact hcases.imp (fun h => ⟨h.1, congrArg _ h.2⟩) fun h => ⟨h.1, congrArg _ h.2⟩
  · -- a bind of another range
    obtain ⟨w, h⟩ := hmember ht
    obtain ⟨owner, howner, hbindings⟩ := owner_of_bound hbound
    rw [hbindings] at hbound hrange
    obtain ⟨-, r, b', hpost, hresponse, -⟩ := turns_executed_wp (C := .free Sys)
      (Q := fun r _ _ => r.1.status ≠ .ok) ht hop.1 (Contract.free_assumed () _) fun session => by
        have howner' : t.before.backend.diagnostic.blocks = some owner :=
          ((Within.diagnostic [] t.before.backend).blocks (by simp)).trans howner
        have hrefused (status : Status) (h : status = .invalid ∨ status = .unsupported) :
            status ≠ .ok := by
          obtain rfl | rfl := h <;> decide
        refine wp_dispatch_block (by rw [hop.2]; rfl) (hrefused .invalid (.inl rfl)) ?_
        refine wp_blockDispatch (Q := fun r _ _ => r.status ≠ .ok) hrefused
          (fun h => ?_) (fun _ _ h => ?_) (fun _ _ h => ?_) fun owner' hsome _ => ?_
        · rw [hop.2] at h; cases h
        · rw [hop.2] at h; cases h
        · rw [hop.2] at h; cases h
        · obtain rfl := Option.some_inj.mp (howner'.symm.trans hsome)
          exact bindRange_different hclient hbound hrange
    rw [hresponse]
    exact fun hok => hpost (Status.code_injective hok)

end HyperIoVm
