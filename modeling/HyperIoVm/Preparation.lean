import HyperIoVm.Extents
import HyperIoVm.GuestMemory

/-!
# Preparing a grant in the kernel

What `hyper_memory_prepare` does with the granules it acquires: a preparation that fails leaves
the device as it was and puts every reference it took once, and one that succeeds holds one
reference for every granule of the pages. The references are watched by the contract
`granuleRefs`, which also obliges the driver to put exactly what it holds.
-/

namespace HyperIoVm

open Effects Routine MemoryDriver

/-! ## The references -/

/-- The references to granules that are acquired and not yet put: the pointers, and the indices
they were acquired for. -/
abbrev Held := List (GranulePtr × UInt64)

/-- Whatever the driver puts, it puts all it holds, each reference once. -/
def granuleRefs : Contract Mm Held where
  allows held
    | .hyperGranulesPut owned => owned = held.map Prod.fst
    | _ => True
  assumes _ _ _ := True
  next held
    | .hyperGranuleGet index, .ok granule => held ++ [(granule, index)]
    | .hyperGranulesPut _, _ => []
    | _, _ => held

theorem granuleRefs_assumed (held : Held) (es : List (Event Mm)) :
    granuleRefs.Assumed held es :=
  Contract.assumed_of_all fun _ _ _ => trivial

/-- The pointers acquired in a sequence of events. -/
def acquired : List (Event Mm) → List GranulePtr
  | [] => []
  | ⟨.hyperGranuleGet _, .ok granule⟩ :: es => granule :: acquired es
  | _ :: es => acquired es

/-- The pointers put in a sequence of events. -/
def put : List (Event Mm) → List GranulePtr
  | [] => []
  | ⟨.hyperGranulesPut owned, _⟩ :: es => owned ++ put es
  | _ :: es => put es

/-- Every reference acquired is put once or still held, and no other is put. -/
theorem Effects.Contract.Obeyed.granules {held : Held} {es : List (Event Mm)}
    (h : granuleRefs.Obeyed held es) :
    (held.map Prod.fst ++ acquired es).Perm
      (put es ++ (granuleRefs.after held es).map Prod.fst) := by
  induction es generalizing held with
  | nil => simp [acquired, put]
  | cons e es ih =>
    obtain ⟨hallow, hrest⟩ := h
    have hnext := ih hrest
    rw [granuleRefs.after_cons]
    obtain ⟨c, r⟩ := e
    cases c with
    | hyperGranuleGet index =>
      cases r with
      | error e => exact hnext
      | ok granule => simpa [granuleRefs, acquired, put] using hnext
    | hyperGranulesPut owned =>
      obtain rfl : owned = held.map Prod.fst := hallow
      simp only [acquired, put, List.append_assoc]
      exact List.Perm.append_left _ (by simpa [granuleRefs] using hnext)
    | _ => exact hnext

/-! ## The distinct indices -/

section Compaction

variable {sorted : List UInt64}

/-- The compaction loop at round `i`: the first `unique` entries are the distinct ones of the
first `i`, and from `i` on, and just before it, the array is still as sorted. -/
structure Compacted (sorted : List UInt64) (i unique : Nat) (indices : List UInt64) : Prop where
  length : indices.length = sorted.length
  behind : unique ≤ i
  ahead : indices.drop i = sorted.drop i
  last : 0 < i → indices.getD (i - 1) 0 = sorted.getD (i - 1) 0
  increasing : (indices.take unique).Pairwise (· < ·)
  mem : ∀ x, x ∈ indices.take unique ↔ x ∈ sorted.take i

theorem getD_of_lt {i : Nat} (hi : i < sorted.length) : sorted.getD i 0 = sorted[i] := by
  rw [List.getD_eq_getElem?_getD, List.getElem?_eq_getElem hi, Option.getD_some]

theorem drop_succ_of_drop {i : Nat} {indices : List UInt64} (h : indices.drop i = sorted.drop i) :
    indices.drop (i + 1) = sorted.drop (i + 1) := by
  rw [← List.tail_drop, h, List.tail_drop]

theorem Compacted.here {i unique : Nat} {indices : List UInt64}
    (h : Compacted sorted i unique indices) : indices.getD i 0 = sorted.getD i 0 := by
  have hhead := congrArg (·.head?) h.ahead
  simp only [List.head?_drop] at hhead
  rw [List.getD_eq_getElem?_getD, List.getD_eq_getElem?_getD, hhead]

/-- The entry is new: it is greater than all before it. -/
theorem Compacted.keep (hsorted : sorted.Pairwise (· ≤ ·)) {i unique : Nat}
    {indices : List UInt64} (h : Compacted sorted i unique indices) (hi : i < sorted.length)
    (hnew : i = 0 ∨ indices.getD i 0 ≠ indices.getD (i - 1) 0) :
    Compacted sorted (i + 1) (unique + 1) (indices.set unique (indices.getD i 0)) := by
  have hunique : unique < indices.length := h.length ▸ Nat.lt_of_le_of_lt h.behind hi
  -- what was kept so far, and this index
  have htake : (indices.set unique (indices.getD i 0)).take (unique + 1) =
      indices.take unique ++ [sorted.getD i 0] := by
    rw [h.here, List.take_succ_eq_append_getElem (by simpa using hunique),
      List.take_set_of_le (Nat.le_refl _), List.getElem_set_self]
  refine ⟨by rw [List.length_set, h.length], Nat.succ_le_succ h.behind, ?_, fun _ => ?_, ?_, ?_⟩
  · rw [List.drop_set_of_lt (Nat.lt_succ_of_le h.behind)]
    exact drop_succ_of_drop h.ahead
  · -- the entry is written to itself when all entries so far were distinct
    rw [Nat.add_sub_cancel, ← h.here, List.getD_eq_getElem?_getD, List.getElem?_set]
    split
    · rfl
    · rw [← List.getD_eq_getElem?_getD]
  · rw [htake, List.pairwise_append]
    refine ⟨h.increasing, List.pairwise_singleton _ _, fun x hx y hy => ?_⟩
    obtain ⟨j, hj, rfl⟩ := List.mem_take_iff_getElem.mp ((h.mem x).mp hx)
    have hji : j < i := Nat.lt_of_lt_of_le hj (Nat.min_le_left _ _)
    have hlast : i - 1 < sorted.length := by omega
    rw [List.pairwise_iff_getElem] at hsorted
    -- the array is sorted, and this index is not the last one kept
    have hle : sorted[j] ≤ sorted[i - 1] := by
      rcases Nat.lt_or_eq_of_le (Nat.le_sub_one_of_lt hji) with hj' | rfl
      · exact hsorted j (i - 1) _ _ hj'
      · exact UInt64.le_refl _
    have hlt : sorted[i - 1] < sorted[i] := by
      refine UInt64.lt_of_le_of_ne (hsorted (i - 1) i _ _ (by omega)) fun heq => ?_
      rcases hnew with rfl | hnew
      · exact Nat.not_lt_zero _ hji
      · rw [h.here, h.last (by omega), getD_of_lt hi, getD_of_lt hlast] at hnew
        exact hnew heq.symm
    rw [List.mem_singleton.mp hy, getD_of_lt hi]
    exact UInt64.lt_of_le_of_lt hle hlt
  · intro x
    rw [htake, List.take_succ_eq_append_getElem hi, List.mem_append, List.mem_append, h.mem,
      getD_of_lt hi]

/-- The entry equals the one before it, which is among the distinct ones already. -/
theorem Compacted.skip {i unique : Nat} {indices : List UInt64}
    (h : Compacted sorted i unique indices) (hi : i < sorted.length) (hpos : 0 < i)
    (hsame : indices.getD i 0 = indices.getD (i - 1) 0) :
    Compacted sorted (i + 1) unique indices := by
  refine ⟨h.length, Nat.le_succ_of_le h.behind, ?_, fun _ => h.here, h.increasing, fun x => ?_⟩
  · exact drop_succ_of_drop h.ahead
  · rw [h.mem, List.take_succ_eq_append_getElem hi, List.mem_append, List.mem_singleton]
    refine ⟨.inl, fun hx => hx.elim id fun hx => ?_⟩
    have hlast : i - 1 < sorted.length := by omega
    rw [hx, ← getD_of_lt hi, ← h.here, hsame, h.last hpos,
      getD_of_lt hlast]
    exact List.mem_take_iff_getElem.mpr ⟨i - 1, by omega, rfl⟩

theorem compactIndices_spec (hsorted : sorted.Pairwise (· ≤ ·)) {rounds i unique : Nat}
    {indices : List UInt64} (h : Compacted sorted i unique indices)
    (hrounds : i + rounds = sorted.length) :
    Compacted sorted sorted.length (compactIndices rounds i unique indices).1
      (compactIndices rounds i unique indices).2 := by
  induction rounds generalizing i unique indices with
  | zero => exact hrounds ▸ h
  | succ rounds ih =>
    rw [compactIndices]
    split
    next hnew =>
      exact ih (h.keep hsorted (by omega) hnew) (by omega)
    next hold =>
      rw [not_or, not_not] at hold
      exact ih (h.skip (by omega) (by omega) hold.2) (by omega)

end Compaction

/-- The granule indices are those of the pages, each of them once. -/
theorem granuleIndices_spec (aliases : List UInt64) :
    (granuleIndices aliases).Pairwise (· < ·) ∧
      ∀ index, index ∈ granuleIndices aliases ↔ ∃ address ∈ aliases, address / 2097152 = index := by
  let sorted := (aliases.map (· / 2097152)).insertionSort (· ≤ ·)
  have hsorted : sorted.Pairwise (· ≤ ·) := List.pairwise_insertionSort _ _
  have hlength : sorted.length = aliases.length := by
    rw [List.length_insertionSort, List.length_map]
  have hstart : Compacted sorted 0 0 sorted := by
    refine ⟨rfl, Nat.le_refl 0, rfl, fun h => absurd h (Nat.lt_irrefl 0), ?_, fun x => ?_⟩ <;> simp
  have hend := compactIndices_spec hsorted hstart ((Nat.zero_add _).trans hlength.symm)
  refine ⟨hend.increasing, fun index => ?_⟩
  show index ∈ List.take _ _ ↔ _
  rw [hend.mem, List.take_length, List.mem_insertionSort, List.mem_map]

/-! ## Acquiring and putting -/

section Driver

variable {memory : GuestMemory} {held : Held}

theorem kvmallocArray_refs {count : Nat} {Q : Outcome → GuestMemory → Held → Prop}
    (h : ∀ r, Q r memory held) : (kvmallocArray count).wp granuleRefs Q memory held :=
  ⟨trivial, fun r _ => h r⟩

theorem copyFromUser_refs {Q : Outcome → GuestMemory → Held → Prop} (h : ∀ r, Q r memory held) :
    copyFromUser.wp granuleRefs Q memory held := ⟨trivial, fun r _ => h r⟩

theorem copyToUser_refs {Q : Outcome → GuestMemory → Held → Prop} (h : ∀ r, Q r memory held) :
    copyToUser.wp granuleRefs Q memory held := ⟨trivial, fun r _ => h r⟩

theorem hyperGranuleGet_refs {index : UInt64}
    {Q : Except KernelError GranulePtr → GuestMemory → Held → Prop}
    (herror : ∀ e, Q (.error e) memory held)
    (hok : ∀ granule, Q (.ok granule) memory (held ++ [(granule, index)])) :
    (hyperGranuleGet index).wp granuleRefs Q memory held := by
  refine ⟨trivial, fun r _ => ?_⟩
  cases r with
  | error e => exact herror e
  | ok granule => exact hok granule

theorem hyperGranulesPut_refs : (hyperGranulesPut (held.map Prod.fst)).wp granuleRefs
    (fun _ memory' held' => memory' = memory ∧ held' = []) memory held := by
  cases held with
  | nil => exact ⟨rfl, rfl⟩
  | cons ref held => exact ⟨rfl, fun _ _ => ⟨rfl, rfl⟩⟩

/-- The references are put if one cannot be acquired. -/
theorem acquireGranules_refs (indices : List UInt64) :
    (acquireGranules indices (held.map Prod.fst)).wp granuleRefs (fun r memory' held' =>
      memory' = memory ∧ (∀ e, r = .error e → held' = []) ∧
      ∀ owned, r = .ok owned → owned = held'.map Prod.fst ∧
        held'.map Prod.snd = held.map Prod.snd ++ indices) memory held := by
  induction indices generalizing held with
  | nil =>
    refine ⟨rfl, by simp, fun owned h => ?_⟩
    exact ⟨(Except.ok.inj h).symm, by simp⟩
  | cons index indices ih =>
    rw [acquireGranules, wp_bind]
    refine hyperGranuleGet_refs (fun e => ?_) fun granule => ?_
    · rw [wp_bind]
      refine wp_mono hyperGranulesPut_refs fun _ memory' held' hput => ?_
      exact ⟨hput.1, fun _ _ => hput.2, by simp⟩
    · have hrest := @ih (held ++ [(granule, index)])
      rw [List.map_append, List.map_append] at hrest
      refine wp_mono hrest fun r memory' held' hpost => ?_
      obtain ⟨hmemory, herror, hok⟩ := hpost
      refine ⟨hmemory, herror, fun owned h => ⟨(hok owned h).1, ?_⟩⟩
      rw [(hok owned h).2]
      simp

end Driver

/-! ## The preparation -/

/-- The alias array as `hyper_memory_prepare` copies it in. -/
def MemoryPrepare.aliases (prepare : MemoryPrepare) : List UInt64 :=
  (prepare.pages.getD []).take prepare.count.toNat

/-- The device after a preparation that held `held` at its end: `count` page frames, each of an
aligned page whose granule lies in the aperture, and one reference for each granule of them. -/
structure Prepared (prepare : MemoryPrepare) (memory memory' : GuestMemory) (held : Held) :
    Prop where
  count : prepare.aliases.length = prepare.count.toNat
  positive : 0 < prepare.count.toNat
  length : prepare.length.toNat = 4096 * prepare.count.toNat
  aperture : ∀ address ∈ prepare.aliases,
    InAperture memory.apertureStart memory.apertureEnd address.toNat
  distinct : (held.map Prod.snd).Nodup
  granules : ∀ index, index ∈ held.map Prod.snd ↔
    ∃ address ∈ prepare.aliases, address / 2097152 = index
  state : memory' = { memory with
    pfns := some (prepare.aliases.map fun (address : UInt64) => address >>> 12)
    granules := held.map Prod.fst
    pages := prepare.count.toUInt64, guestBase := prepare.guestBase }

/-- How a preparation ends: it fails and nothing changed, or the device is prepared. -/
def PrepareEndsIn (prepare : MemoryPrepare) (memory : GuestMemory) (r : Except KernelError Unit)
    (memory' : GuestMemory) (held : Held) : Prop :=
  (∀ e, r = .error e → memory' = memory ∧ held = []) ∧
    (r = .ok () → Prepared prepare memory memory' held)

section Preparation

variable {memory : GuestMemory} {prepare : MemoryPrepare}

theorem prepareEndsIn_error (e : KernelError) :
    PrepareEndsIn prepare memory (.error e) memory [] := ⟨fun _ _ => ⟨rfl, rfl⟩, by simp⟩

theorem admitPages_refs (hcount : prepare.aliases.length = prepare.count.toNat)
    (hpos : 0 < prepare.count.toNat) (hlength : prepare.length.toNat = 4096 * prepare.count.toNat) :
    (admitPages prepare prepare.aliases).wp granuleRefs (PrepareEndsIn prepare memory)
      memory [] := by
  unfold admitPages
  simp only [wp_ite]
  split
  · exact prepareEndsIn_error _
  simp only [wp_bind, wp_get, wp_ite]
  split
  · -- a page lies outside of the aperture
    exact prepareEndsIn_error _
  rename_i haperture
  refine kvmallocArray_refs fun r => ?_
  split
  · -- there is no memory for the references
    exact prepareEndsIn_error _
  refine wp_mono (@acquireGranules_refs memory [] _) fun r memory' held' hpost => ?_
  obtain ⟨rfl, herror, hok⟩ := hpost
  cases r with
  -- what was acquired is put again
  | error e =>
    rw [herror e rfl]
    exact prepareEndsIn_error e
  | ok owned =>
    obtain ⟨rfl, hindices⟩ := hok owned rfl
    rw [List.map_nil, List.nil_append] at hindices
    obtain ⟨hincreasing, hmem⟩ := granuleIndices_spec prepare.aliases
    refine ⟨by simp, fun _ => ⟨hcount, hpos, hlength, fun address haddress => ?_, ?_, ?_, rfl⟩⟩
    · -- every page lies in the aperture
      simp only [Bool.not_eq_true', Bool.not_eq_false, List.all_eq_true] at haperture
      exact inAperture (haperture address haddress)
    · rw [hindices]
      exact hincreasing.imp UInt64.ne_of_lt
    · rw [hindices]
      exact hmem

/-- What the first checks establish: the length is that of `count` pages, and not zero. -/
theorem prepare_pages
    (hshape : ¬ (prepare.length == 0 || prepare.length % 4096 != 0 ||
      prepare.guestBase % 4096 != 0 || prepare.reserved != 0 ||
      decide (prepare.guestBase > 0xffffffffffffffff - prepare.length)) = true)
    (hcount : ¬ (prepare.token == 0 || prepare.count == 0 ||
      decide (prepare.count.toNat > hyperIoMaxGrantPages) ||
      prepare.count.toUInt64 != prepare.length >>> 12) = true) :
    0 < prepare.count.toNat ∧ prepare.length.toNat = 4096 * prepare.count.toNat := by
  simp only [Bool.or_eq_true, beq_iff_eq, bne_iff_ne, decide_eq_true_eq, not_or, not_not]
    at hshape hcount
  obtain ⟨⟨⟨⟨hlength, haligned⟩, -⟩, -⟩, -⟩ := hshape
  obtain ⟨⟨⟨-, hzero⟩, -⟩, hequal⟩ := hcount
  have hmod : prepare.length.toNat % 4096 = 0 := by
    simpa [← UInt64.toNat_inj] using haligned
  have hdiv : prepare.count.toNat = prepare.length.toNat / 4096 := by
    have h := congrArg UInt64.toNat hequal
    rw [UInt32.toNat_toUInt64, UInt64.toNat_shiftRight, Nat.shiftRight_eq_div_pow] at h
    exact h
  have hpos : prepare.length.toNat ≠ 0 := by
    simpa [← UInt64.toNat_inj] using hlength
  omega

theorem hyperMemoryPrepare_refs (hdynamic : memory.dynamic = true) :
    (hyperMemoryPrepare prepare).wp granuleRefs (PrepareEndsIn prepare memory) memory [] := by
  unfold hyperMemoryPrepare
  simp only [wp_ite]
  split
  · -- the length, the base or the reserved field is wrong
    exact prepareEndsIn_error _
  rename_i hshape
  simp only [wp_bind, wp_get, wp_ite, hdynamic]
  split
  -- a device with one pool is not prepared
  next h =>
    cases h
  split
  · -- the token or the number of pages is wrong
    exact prepareEndsIn_error _
  rename_i hcount
  split
  · -- it is prepared already
    exact prepareEndsIn_error _
  refine kvmallocArray_refs fun aliases => kvmallocArray_refs fun indices =>
    kvmallocArray_refs fun pfns => ?_
  split
  · -- there is no memory for the arrays
    exact prepareEndsIn_error _
  rw [copyAliases, wp_bind]
  refine copyFromUser_refs fun copied => ?_
  cases hpages : prepare.pages with
  -- there are no pages to be copied
  | none => exact prepareEndsIn_error _
  | some pages =>
    dsimp only
    rw [wp_ite]
    split
    · -- they cannot be copied
      exact prepareEndsIn_error _
    rename_i hcopied
    have haliases : pages.take prepare.count.toNat = prepare.aliases := by
      rw [MemoryPrepare.aliases, hpages, Option.getD_some]
    show (admitPages prepare (pages.take prepare.count.toNat)).wp granuleRefs _ memory []
    rw [haliases]
    refine admitPages_refs ?_ (prepare_pages hshape hcount).1 (prepare_pages hshape hcount).2
    rw [← haliases, List.length_take]
    omega

end Preparation

/-- Preparation is atomic and exact. On a dynamic device a `hyper_memory_prepare` that fails, at
whatever allocation, copy or granule, leaves the device unchanged and has put every reference it
acquired once. One that succeeds has stored the page frame of each of the `count` aliases, all
of them aligned and with their whole granule in the aperture, and holds exactly one reference
for each distinct granule of the pages and no other. -/
theorem preparation_atomic_and_exact (env : Environment Mm) (past : List (Event Mm))
    (memory : GuestMemory) (hdynamic : memory.dynamic = true) (prepare : MemoryPrepare) :
    let run := ((hyperMemoryPrepare prepare).run memory).exec env past
    (∀ e, run.1.1 = .error e → run.1.2 = memory ∧ (acquired run.2).Perm (put run.2)) ∧
    (run.1.1 = .ok () →
      Prepared prepare memory run.1.2 (granuleRefs.after [] run.2) ∧
      (acquired run.2).Perm (put run.2 ++ run.1.2.granules) ∧
      ∃ pfns, run.1.2.pfns = some pfns ∧ pfns.length = prepare.count.toNat ∧
        ∀ i : Nat, pfns[i]?.map UInt64.toNat =
          prepare.aliases[i]?.map fun (address : UInt64) => address.toNat / 4096) := by
  intro run
  obtain ⟨hobeyed, herror, hok⟩ := Program.wp_exec env past
    (@hyperMemoryPrepare_refs memory prepare hdynamic) (granuleRefs_assumed _ _)
  have hperm := hobeyed.granules
  rw [List.map_nil, List.nil_append] at hperm
  refine ⟨fun e he => ?_, fun h => ?_⟩
  · -- what was acquired was put
    obtain ⟨hmemory, hheld⟩ := herror e he
    refine ⟨hmemory, ?_⟩
    rw [hheld, List.map_nil, List.append_nil] at hperm
    exact hperm
  · -- what is held is what the device has now
    have hprepared := hok h
    refine ⟨hprepared, ?_, _, congrArg GuestMemory.pfns hprepared.state, ?_, fun i => ?_⟩
    · rw [congrArg GuestMemory.granules hprepared.state]
      exact hperm
    · rw [List.length_map]
      exact hprepared.count
    · rw [List.getElem?_map, Option.map_map]
      congr 1
      funext address
      show (address >>> 12).toNat = address.toNat / 4096
      rw [UInt64.toNat_shiftRight, Nat.shiftRight_eq_div_pow]
      rfl

/-! ### Two pages of one granule, and one of another -/

/-- Every call succeeds; a granule's pointer is its index. -/
def kindKernel : Environment Mm := fun _ c =>
  match c with
  | .linux c => c.refused
  | .removed => false
  | .kvmallocArray _ | .copyFromUser | .copyToUser => Outcome.ok
  | .hyperGranuleGet index => (.ok index.toNat : Except KernelError GranulePtr)
  | .vmInsertPage _ _ => (.ok () : Except KernelError Unit)
  | .hyperGranulesPut _ | .putPage _ => ()

def unsortedPrepare : MemoryPrepare where
  aliasAddr := 0
  guestBase := 0
  length := 12288
  token := 7
  pages := some [0x401000, 0x200000, 0x400000]
  count := 3

def emptyMemory : GuestMemory where
  dynamic := true
  apertureStart := 0x200000
  apertureEnd := 0x5fffff

theorem preparation_atomic_and_exact_unsorted :
    let run := ((hyperMemoryPrepare unsortedPrepare).run emptyMemory).exec kindKernel []
    run.1.2.granules = [1, 2] ∧
      Prepared unsortedPrepare emptyMemory run.1.2 (granuleRefs.after [] run.2) :=
  ⟨by decide +kernel,
    ((preparation_atomic_and_exact kindKernel [] emptyMemory rfl unsortedPrepare).2
      (by decide +kernel)).1⟩

end HyperIoVm
