import HyperIoVm.Descriptors
import HyperIoVm.Upkeep

/-!
# The table of disks

An identifier is a position in the owner's table of disks. A refresh only appends to the table:
it keeps the identifiers it has issued, gives no device a second one, and retains or closes
every descriptor it opens. A request for a disk goes on only while the retained descriptor
reports the medium that was recorded.
-/

namespace HyperIoVm

open Effects Routine

/-- The disks the owner has issued identifiers for, in the order of these. -/
def Backend.disks (b : Backend) : List PhysicalDisk := (b.blocks.map (·.disks)).getD []

/-- A table of disks: no two have the same device number, and there is room for them. -/
structure Inventory (disks : List PhysicalDisk) : Prop where
  distinct : (disks.map (·.device)).Nodup
  bound : disks.length ≤ hyperBlockDisks
  geometry : ∀ disk ∈ disks, disk.geometryValid = true

theorem Inventory.empty : Inventory [] :=
  ⟨List.nodup_nil, Nat.zero_le _, fun _ h => absurd h List.not_mem_nil⟩

/-- One disk more, whose device number is new. -/
theorem Inventory.concat {disks : List PhysicalDisk} {disk : PhysicalDisk} (h : Inventory disks)
    (hnew : ∀ known ∈ disks, known.device ≠ disk.device) (hroom : disks.length ≠ hyperBlockDisks)
    (hgeometry : disk.geometryValid = true) : Inventory (disks ++ [disk]) where
  distinct := by
    rw [List.map_append, List.map_singleton, ← List.concat_eq_append, List.nodup_concat]
    refine ⟨fun hmem => ?_, h.distinct⟩
    obtain ⟨known, hknown, hdevice⟩ := List.mem_map.mp hmem
    exact hnew known hknown hdevice
  bound := by
    have hbound := h.bound
    rw [List.length_append, List.length_singleton]
    omega
  geometry known hknown := by
    obtain hknown | hknown := List.mem_append.mp hknown
    · exact h.geometry known hknown
    · rw [List.mem_singleton.mp hknown]
      exact hgeometry

/-- Two identifiers with the same device number are the same. -/
theorem Inventory.eq_of_device {disks : List PhysicalDisk} (h : Inventory disks) {i j : Nat}
    {disk disk' : PhysicalDisk} (hi : disks[i]? = some disk) (hj : disks[j]? = some disk')
    (hdevice : disk.device = disk'.device) : i = j := by
  obtain ⟨hlt, -⟩ := List.getElem?_eq_some_iff.mp hi
  refine (List.getElem?_inj (by rw [List.length_map]; exact hlt) h.distinct).mp ?_
  rw [List.getElem?_map, List.getElem?_map, hi, hj, Option.map_some, Option.map_some, hdevice]

/-! ## A refresh -/

/-- The descriptors that the disks retain. -/
def retained (disks : List PhysicalDisk) : Multiset Fd := (disks.map (·.fd) : List Fd)

theorem retained_append (disks added : List PhysicalDisk) :
    retained (disks ++ added) = retained disks + retained added := by
  rw [retained, List.map_append, ← Multiset.coe_add]
  rfl

theorem retained_singleton (disk : PhysicalDisk) : retained [disk] = {disk.fd} := rfl

/-- The owner's table has grown, with a retained descriptor for each new disk; nothing else of
the owner has changed. -/
def Grown (owner : BlockOwner) (fds : Multiset Fd) (b : Backend) (fds' : Multiset Fd) : Prop :=
  ∃ added, b.blocks = some { owner with disks := owner.disks ++ added } ∧
    Inventory (owner.disks ++ added) ∧ fds' = retained added + fds

section Refresh

variable {owner : BlockOwner} {fds : Multiset Fd}

theorem Grown.refl {b : Backend} (hb : b.blocks = some owner) (h : Inventory owner.disks) :
    Grown owner fds b fds := ⟨[], by simpa using hb, by simpa using h, by simp [retained]⟩

/-- A loop over steps that keep an invariant keeps it. -/
theorem keeps_firstFailure {K : Type} {C : Contract Sys K} {J : Backend → K → Prop}
    {ms : List (Service Outcome)} (h : ∀ m ∈ ms, Keeps C J m) : Keeps C J (firstFailure ms) := by
  induction ms with
  | nil => exact keeps_pure _
  | cons m ms ih =>
    refine keeps_bind (h m List.mem_cons_self) fun r =>
      keeps_ite (fun _ => keeps_pure _) fun _ => ?_
    exact ih fun m' hm' => h m' (List.mem_cons_of_mem _ hm')

/-- A call that opens and closes nothing. -/
theorem descriptors_neutral {c : Call} (hobtained : ∀ r, c.obtained r = none)
    (hcloses : c.closes = none) (fds : Multiset Fd) (r : c.Reply) :
    descriptors.allows fds c ∧ descriptors.next fds c r = fds := by
  refine ⟨fun fd hfd => (by rw [hcloses] at hfd; cases hfd), ?_⟩
  show (slot (c.obtained r) + fds) - slot c.closes = fds
  rw [hobtained, hcloses, slot_none, zero_add, Multiset.sub_zero]

/-- Silent computations open and close nothing. -/
theorem Silent.descriptors {α : Type} {m : Service α} (h : Silent m) (b : Backend)
    (fds : Multiset Fd) :
    m.wp descriptors (fun _ b' fds' => fds' = fds ∧ Within [] b b') b fds := by
  have hneutral (c : Call) (hc : c.inert = true) :
      (∀ r, c.obtained r = none) ∧ c.closes = none := by
    cases c <;> first | exact ⟨fun _ => rfl, rfl⟩ | cases hc
  refine h.wp_of (C := HyperIoVm.descriptors) (fun fds c hc => ?_) (fun fds c r hc => ?_) b fds
  · exact (descriptors_neutral (hneutral c hc).1 (hneutral c hc).2 fds c.refused).1
  · exact (descriptors_neutral (hneutral c hc).1 (hneutral c hc).2 fds r).2

/-- Closing a descriptor that is open. -/
theorem close_closes {b : Backend} {fd : Fd} {fds : Multiset Fd} :
    (close fd).wp descriptors (fun _ b' fds' => b' = b ∧ fds' = fds) b (fd ::ₘ fds) := by
  refine wp_issue (c := .close fd) (fun fd' hfd' => ?_) fun r _ => ⟨rfl, ?_⟩
  · obtain rfl := Option.some_inj.mp hfd'
    exact Multiset.mem_cons_self _ _
  · show (0 + fd ::ₘ fds) - {fd} = fds
    rw [zero_add, ← Multiset.singleton_add, add_tsub_cancel_left]

theorem Grown.within {b b' : Backend} {fds' : Multiset Fd} (h : Grown owner fds b fds')
    (hb : Within [] b b') : Grown owner fds b' fds' := by
  obtain ⟨added, hblocks, hrest⟩ := h
  exact ⟨added, (hb.blocks (by simp)).trans hblocks, hrest⟩

/-- A probed disk is recorded, or its descriptor closed. -/
theorem recordDisk_grows {disk : PhysicalDisk} (hgeometry : disk.geometryValid = true)
    {b : Backend} {fds' : Multiset Fd} (h : Grown owner fds b fds') :
    (recordDisk disk).wp descriptors (fun _ b' fds' => Grown owner fds b' fds')
      b (disk.fd ::ₘ fds') := by
  obtain ⟨added, hblocks, hinventory, rfl⟩ := h
  have hkeep : Grown owner fds b (retained added + fds) := ⟨added, hblocks, hinventory, rfl⟩
  -- a disk that is not recorded is closed
  have hclose (r : Outcome) : (do let _ ← close disk.fd; return r : Service Outcome).wp descriptors
      (fun _ b' fds' => Grown owner fds b' fds') b (disk.fd ::ₘ (retained added + fds)) := by
    rw [wp_bind]
    refine wp_mono close_closes fun _ b' fds' hsame => ?_
    obtain ⟨rfl, rfl⟩ := hsame
    exact hkeep
  rw [recordDisk, wp_bind, wp_get]
  dsimp only
  rw [hblocks, Option.map_some, Option.getD_some]
  split
  -- it is there already
  next => exact hclose _
  next hnew =>
    rw [wp_ite]
    split
    -- there is no room for it
    next => exact hclose _
    next hroom =>
      rw [wp_bind]
      refine (wp_modify _).mpr ?_
      -- it is new
      have hdevice : ∀ known ∈ owner.disks ++ added, known.device ≠ disk.device := by
        intro known hknown
        simpa using List.find?_eq_none.mp hnew known hknown
      refine ⟨added ++ [disk], ?_, ?_, ?_⟩
      · rw [hblocks, Option.map_some, List.append_assoc]
      · rw [← List.append_assoc]
        exact hinventory.concat hdevice hroom hgeometry
      · rw [retained_append, retained_singleton, ← Multiset.singleton_add]
        ac_rfl

/-- One entry of the directory keeps account of the descriptor it opens. -/
theorem discoverDisk_grows (name : String) :
    Keeps descriptors (Grown owner fds) (discoverDisk name) := by
  -- what only asks leaves the inventory alone
  have hsilent {α : Type} {m : Service α} (hm : Silent m) : Keeps descriptors (Grown owner fds) m :=
    fun b fds' h => wp_mono (hm.descriptors b fds') fun _ _ _ hpost =>
      hpost.1 ▸ h.within hpost.2
  refine keeps_ite (fun _ => keeps_pure _) fun _ => keeps_bind (hsilent (.sys rfl)) fun _ =>
    keeps_ite (fun _ => keeps_pure _) fun _ => keeps_bind (hsilent (.sys rfl)) fun _ =>
      keeps_ite (fun _ => keeps_pure _) fun _ b fds' h => ?_
  rw [wp_bind]
  refine wp_issue (c := .openNode (.disk name)) (fun _ hfd => by cases hfd) fun r _ => ?_
  cases r with
  | error errno =>
    -- the device does not open
    rw [show descriptors.next fds' (.openNode (.disk name)) (.error errno) = fds' by
      exact (zero_add _).trans (Multiset.sub_zero _)]
    exact h
  | ok fd =>
    rw [show descriptors.next fds' (.openNode (.disk name)) (.ok fd) = fd ::ₘ fds' by
      exact (Multiset.sub_zero _).trans (Multiset.singleton_add _ _)]
    rw [wp_bind]
    refine wp_mono (wp_and_free ((probeDisk_silent fd).descriptors b (fd ::ₘ fds'))
      (probeDisk_disk fd b)) fun r b₁ fds₁ hpost => ?_
    obtain ⟨⟨rfl, hb⟩, hdisk⟩ := hpost
    cases r with
    | none =>
      -- it is not a disk that can be used
      rw [wp_bind]
      refine wp_mono close_closes fun _ b' fds' hsame => ?_
      obtain ⟨rfl, rfl⟩ := hsame
      exact h.within hb
    | some disk =>
      -- it is one, and is recorded or closed
      obtain ⟨rfl, hgeometry⟩ := hdisk disk rfl
      exact recordDisk_grows hgeometry (h.within hb)

/-- A refresh, however it ends, has recorded or closed each disk it opened. -/
theorem discoverDisks_grows : Keeps descriptors (Grown owner fds) discoverDisks := by
  intro b fds' h
  rw [discoverDisks, wp_bind]
  refine wp_mono ((Silent.sys (c := .scandir "/sys/class/block") rfl).descriptors b fds')
    fun r b₁ fds₁ hpost => ?_
  obtain ⟨rfl, hb⟩ := hpost
  cases r with
  | none => exact h.within hb
  | some names =>
    refine keeps_firstFailure (fun m hm => ?_) b₁ _ (h.within hb)
    obtain ⟨name, -, rfl⟩ := List.mem_map.mp hm
    exact discoverDisk_grows name

end Refresh

/-! ## The reply to an enumeration -/

/-- What the peer reads after the prefix of a `BLOCK_ENUM` reply. -/
structure BlockInfo where
  disk : UInt64
  bytes : UInt64
  logicalSector : UInt32
  physicalSector : UInt32
  flags : UInt32
  nextCursor : UInt32
  deriving DecidableEq, Repr

def BlockInfo.decode (tail : Bytes) : BlockInfo where
  disk := le64toh tail 0
  bytes := le64toh tail 8
  logicalSector := le32toh tail 16
  physicalSector := le32toh tail 20
  flags := le32toh tail 24
  nextCursor := le32toh tail 28

theorem BlockInfo.decode_blockInfo (disk bytes : UInt64)
    (logical physical flags nextCursor : UInt32) :
    BlockInfo.decode (blockInfo disk bytes logical physical flags nextCursor) =
      ⟨disk, bytes, logical, physical, flags, nextCursor⟩ := by
  simp [BlockInfo.decode, blockInfo, le64toh, le32toh, htole64, htole32, List.drop_append,
    leValue_leBytes, List.drop_of_length_le, List.take_of_length_le]

/-- The record of the disk at position `i`; all zero after the last one. -/
def diskInfo (disks : List PhysicalDisk) (i : Nat) : BlockInfo :=
  match disks[i]? with
  | none => ⟨0, 0, 0, 0, 0, 0⟩
  | some disk =>
    ⟨.ofNat (i + 1), disk.bytes, disk.logical, disk.physical,
      if disk.readOnly ≠ 0 then hyperIoBlockReadOnly else 0, .ofNat (i + 1)⟩

/-- An enumeration answers the record at its cursor, which is in the table or right after it. -/
theorem enumerateDisk_info {owner : BlockOwner} {cursor : UInt32}
    (hok : (enumerateDisk owner cursor).status = .ok) :
    cursor.toNat ≤ owner.disks.length ∧
      BlockInfo.decode (enumerateDisk owner cursor).tail = diskInfo owner.disks cursor.toNat := by
  rw [enumerateDisk] at hok ⊢
  split at hok
  next => cases hok
  next hcursor =>
    rw [if_neg hcursor, diskInfo]
    refine ⟨Nat.le_of_not_lt hcursor, ?_⟩
    cases owner.disks[cursor.toNat]? with
    | none =>
      dsimp only
      decide
    | some disk =>
      have hcursor64 : UInt64.ofNat (cursor.toNat + 1) = cursor.toUInt64 + 1 := by
        rw [UInt64.ofNat_add, ← UInt32.toNat_toUInt64, UInt64.ofNat_toNat]
        rfl
      have hcursor32 : UInt32.ofNat (cursor.toNat + 1) = cursor + 1 := by
        rw [UInt32.ofNat_add, UInt32.ofNat_toNat]
        rfl
      dsimp only
      rw [BlockInfo.decode_blockInfo, hcursor64, hcursor32]

/-- A `BLOCK_ENUM` that starts an enumeration refreshes the table; any other leaves it alone. The
answer is the record at the cursor. -/
theorem blockEnum_grows {owner : BlockOwner} {b : Backend} (hb : b.blocks = some owner)
    (hinventory : Inventory owner.disks) (request : BlockEnum) (fds : Multiset Fd) :
    (blockEnum owner request).wp descriptors (fun r b' fds' => Grown owner fds b' fds' ∧
      (request.cursor ≠ 0 → b' = b ∧ fds' = fds) ∧
      (r.status = .ok → request.cursor.toNat ≤ b'.disks.length ∧
        BlockInfo.decode r.tail = diskInfo b'.disks request.cursor.toNat)) b fds := by
  have hstart : Grown owner fds b fds := .refl hb hinventory
  rw [blockEnum, wp_ite]
  split
  · -- the cursor is out of range
    exact ⟨hstart, fun _ => ⟨rfl, rfl⟩, fun h => by cases h⟩
  -- the disks are looked for when the cursor is at the first one
  have hrefresh : (if request.cursor = 0 then discoverDisks else pure .ok : Service Outcome).wp
      descriptors (fun _ b' fds' => Grown owner fds b' fds' ∧
        (request.cursor ≠ 0 → b' = b ∧ fds' = fds)) b fds := by
    rw [wp_ite]
    split
    next hzero =>
      exact wp_mono (discoverDisks_grows b fds hstart) fun _ _ _ h =>
        ⟨h, fun hcursor => absurd hzero hcursor⟩
    next => exact ⟨hstart, fun _ => ⟨rfl, rfl⟩⟩
  rw [wp_bind]
  refine wp_mono hrefresh fun r b₁ fds₁ hpost => ?_
  rw [wp_ite]
  split
  · -- they could not be looked for
    exact ⟨hpost.1, hpost.2, fun h => by cases h⟩
  · refine ⟨hpost.1, hpost.2, fun hok => ?_⟩
    obtain ⟨added, hblocks, -, -⟩ := hpost.1
    have hinfo := enumerateDisk_info hok
    rw [hblocks] at hinfo
    rw [Backend.disks, hblocks]
    exact hinfo

/-! ## Currency -/

/-- The answers with which a retained descriptor reports the recorded medium. -/
def PhysicalDisk.currency (disk : PhysicalDisk) : List (Event Sys) :=
  [⟨.blkGetDiskSeq disk.fd, some disk.sequence⟩, ⟨.blkGetSize64 disk.fd, some disk.bytes⟩]

/-- Nothing has been asked but what the retained descriptor reports. -/
def PhysicalDisk.Queries (disk : PhysicalDisk) (es : List (Event Sys)) : Prop :=
  ∀ e ∈ es, e.1 = Call.blkGetDiskSeq disk.fd ∨ e.1 = Call.blkGetSize64 disk.fd

/-- The check asks what the retained descriptor reports, and succeeds when that is what was
recorded. -/
theorem diskCurrent_history (disk : PhysicalDisk) (b : Backend) :
    (diskCurrent disk).wp (.history Sys) (fun r b' es =>
      b' = b ∧ disk.Queries es ∧ (r = true ↔ es = disk.currency)) b [] := by
  rw [diskCurrent, wp_bind]
  refine wp_issue (c := .blkGetDiskSeq disk.fd) trivial fun sequence _ => ?_
  cases sequence with
  | none =>
    -- the disk does not tell its sequence
    refine ⟨rfl, fun e he => ?_, ⟨fun h => (by cases h), fun h => (by cases h)⟩⟩
    rw [List.mem_singleton.mp he]
    exact .inl rfl
  | some sequence =>
    dsimp only
    rw [wp_bind]
    refine wp_issue (c := .blkGetSize64 disk.fd) trivial fun bytes _ => ?_
    have hqueries (bytes : Option UInt64) : disk.Queries
        [⟨.blkGetDiskSeq disk.fd, some sequence⟩, ⟨.blkGetSize64 disk.fd, bytes⟩] := by
      intro e he
      simp only [List.mem_cons, List.not_mem_nil, or_false] at he
      obtain rfl | rfl := he
      · exact .inl rfl
      · exact .inr rfl
    cases bytes with
    -- nor its size
    | none => exact ⟨rfl, hqueries none, ⟨fun h => (by cases h), fun h => (by cases h)⟩⟩
    | some bytes =>
      -- it tells both, and they are those that were discovered
      refine ⟨rfl, hqueries (some bytes), ?_⟩
      rw [Bool.and_eq_true, beq_iff_eq, beq_iff_eq]
      refine ⟨fun h => ?_, fun h => ?_⟩
      · obtain ⟨rfl, rfl⟩ := h
        rfl
      · cases h
        exact ⟨rfl, rfl⟩

/-- What follows a currency check is reached only when the retained descriptor still reports the
recorded sequence and capacity. -/
theorem diskCurrent_guards {disk : PhysicalDisk} {m : Service Status} (b : Backend) :
    (do if !(← diskCurrent disk) then return .backendFailure else m : Service Status).wp
      (.history Sys) (fun r _ es =>
        disk.currency <+: es ∨ r = .backendFailure ∧ disk.Queries es) b [] := by
  rw [wp_bind]
  refine wp_mono (diskCurrent_history disk b) fun r b₁ es hpost => ?_
  obtain ⟨rfl, hqueries, hcurrent⟩ := hpost
  cases r with
  | false => exact .inr ⟨rfl, hqueries⟩
  | true =>
    have hgrow : Keeps (.history Sys) (fun _ es => disk.currency <+: es) m :=
      keeps_history (fun _ es h => h.trans (List.prefix_append _ es)) m
    exact wp_mono (hgrow b₁ es (by rw [hcurrent.mp rfl])) fun _ _ _ h => .inl h

/-- A request for the disk with identifier `id`: refused without a call, stopped at the currency
check, or let past it by a disk that is current. -/
inductive Selected (disks : List PhysicalDisk) (id : UInt64) :
    Status → List (Event Sys) → Prop where
  | refused {status : Status} (hstatus : status = .invalid ∨ status = .unsupported) :
      Selected disks id status []
  | stale (disk : PhysicalDisk) (es : List (Event Sys)) (hid : id ≠ 0)
      (hdisk : disks[id.toNat - 1]? = some disk) (hqueries : disk.Queries es) :
      Selected disks id .backendFailure es
  | current (disk : PhysicalDisk) (status : Status) (es : List (Event Sys)) (hid : id ≠ 0)
      (hdisk : disks[id.toNat - 1]? = some disk) (hcurrency : disk.currency <+: es) :
      Selected disks id status es

/-- A guarded request selects its disk. -/
theorem selected_of_guard {disks : List PhysicalDisk} {disk : PhysicalDisk} {id : UInt64}
    {m : Service Status} (hid : id ≠ 0) (hdisk : disks[id.toNat - 1]? = some disk) (b : Backend) :
    (do if !(← diskCurrent disk) then return .backendFailure else m : Service Status).wp
      (.history Sys) (fun r _ es => Selected disks id r es) b [] := by
  refine wp_mono (diskCurrent_guards b) fun r _ es hpost => ?_
  obtain hcurrency | ⟨rfl, hqueries⟩ := hpost
  · exact .current disk r es hid hdisk hcurrency
  · exact .stale disk es hid hdisk hqueries

theorem blockRead_selects (owner : BlockOwner) (request : BlockRead) (b : Backend) :
    (blockRead owner request).wp (.history Sys) (fun r _ es =>
      Selected owner.disks request.disk r es) b [] := by
  rw [blockRead, wp_bind, wp_get]
  split
  · exact .refused (.inl rfl)
  rw [wp_ite]
  split
  · exact .refused (.inl rfl)
  rename_i hid
  split
  · exact .refused (.inl rfl)
  rename_i disk hdisk
  exact selected_of_guard hid hdisk b

theorem bindRange_selects (owner : BlockOwner) (request : BlockBind) (b : Backend) :
    (bindRange owner request).wp (.history Sys) (fun r _ es =>
      Selected owner.disks request.disk r es) b [] := by
  unfold bindRange
  dsimp only
  split
  · rw [wp_ite]
    split
    · exact .refused (.inl rfl)
    rename_i hclient
    split
    · exact .refused (.inl rfl)
    rename_i disk hdisk
    exact selected_of_guard (fun hid => hclient (.inr (.inr hid))) hdisk b
  · exact .refused (.inl rfl)

end HyperIoVm
