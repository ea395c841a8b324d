import HyperIoVm.DeviceCalls
import HyperIoVm.PoolLifetime

/-!
# What a static pool maps (`modules/guest-memory/memory.c`)

A static device has no page frames of its own: the mapping loop counts them from the first page of
the region. Whatever happens to the device, each page of each live area is the page of the pool that
the offset names, and its reference has not been given back.
-/

namespace HyperIoVm

open Effects Routine MemoryDriver MemorySystem MemoryProbe

section Pool

variable {pool : List UInt64} {s : MemoryDevice} {ledger : PoolLedger} {memory : GuestMemory}

/-! ## The mapping loop -/

theorem poolPages_getElem? (hdynamic : memory.dynamic = false) {index : Nat}
    (hindex : index < memory.pages.toNat) :
    memory.poolPages[index]? = some (memory.firstPfn + .ofNat index) := by
  rw [poolPages_static hdynamic, List.getElem?_map, List.getElem?_range hindex, Option.map_some]

theorem length_poolPages (hdynamic : memory.dynamic = false) :
    memory.poolPages.length = memory.pages.toNat := by
  rw [poolPages_static hdynamic, List.length_map, List.length_range]

/-- The frame that the loop computes is the page of the pool at the offset. -/
theorem frame_static (hdynamic : memory.dynamic = false) (pgoff : UInt64) (index : Nat) :
    memory.frame pgoff (0 + .ofNat index) = memory.firstPfn + .ofNat (pgoff.toNat + index) := by
  have hnot : ¬ memory.dynamic = true := by
    rw [hdynamic]
    exact Bool.false_ne_true
  rw [GuestMemory.frame, if_neg hnot, UInt64.zero_add, UInt64.ofNat_add, UInt64.ofNat_toNat,
    UInt64.add_assoc]

/-- A mapping of a static device takes its frames from the pool. -/
theorem hyperMemoryMmap_maps (hdynamic : memory.dynamic = false) (vma : Vma) :
    (hyperMemoryMmap vma).wp (.free Mm) (fun r _ _ => ∀ inserted, r = .ok inserted →
      inserted.length = vma.count.toNat ∧
        MemoryArea.Maps ⟨vma.start, vma.pgoff, inserted⟩ memory.poolPages) memory () := by
  rw [hyperMemoryMmap, wp_ite]
  split
  · exact fun _ h => by cases h
  rw [wp_bind, wp_get, wp_ite]
  split
  · exact fun _ h => by cases h
  rename_i hrange
  rw [wp_ite]
  split
  · exact fun _ h => by cases h
  rw [wp_bind]
  have hinsert := @insertPages_refs memory [] vma vma.count.toNat 0 []
  refine wp_mono (wp_drop hinsert fun _ _ _ => trivial) ?_
  intro r memory' _ hpost
  obtain ⟨_, rfl, -, hframes⟩ := hpost
  cases r with
  | error e => exact fun _ h => by cases h
  | ok frames =>
    rw [wp_bind, hyperVmaOpen, wp_modify, wp_pure]
    intro inserted hinserted
    obtain rfl := Except.ok.inj hinserted
    simp only [Bool.or_eq_true, decide_eq_true_eq, not_or, ge_iff_le, gt_iff_lt, UInt64.not_le,
      UInt64.not_lt] at hrange
    obtain ⟨hoffset, hroom⟩ := hrange
    have hle := UInt64.le_of_lt hoffset
    rw [UInt64.lt_iff_toNat_lt] at hoffset
    rw [UInt64.le_iff_toNat_le, UInt64.toNat_sub_of_le _ _ hle] at hroom
    rw [hframes frames rfl, List.nil_append]
    refine ⟨by simp, fun i hi => ?_⟩
    rw [List.length_map, List.length_range] at hi
    have hinside : vma.pgoff.toNat + i < memory'.pages.toNat := by omega
    refine ⟨?_, ?_⟩
    · rw [length_poolPages hdynamic]
      exact hinside
    · show _ = memory'.poolPages[vma.pgoff.toNat + i]?
      rw [poolPages_getElem? hdynamic hinside, List.getElem?_map, List.getElem?_range hi,
        Option.map_some, frame_static hdynamic]

/-! ## The steps -/

/-- Every area of the files maps pages of the pool. -/
def MapsPool (pool : List UInt64) (files : List OpenFile) : Prop :=
  ∀ f ∈ files, ∀ area ∈ f.areas, area.Maps pool

theorem MapsPool.modify {files : List OpenFile} (h : MapsPool pool files) (file : Nat)
    {f : OpenFile → OpenFile}
    (hf : ∀ o, files[file]? = some o → ∀ area ∈ (f o).areas, area.Maps pool) :
    MapsPool pool (files.modify file f) := by
  intro o ho
  obtain ⟨i, hi⟩ := List.mem_iff_getElem?.mp ho
  rw [List.getElem?_modify] at hi
  obtain ⟨o', ho', rfl⟩ := Option.map_eq_some_iff.mp hi
  split
  next heq =>
    exact hf o' (heq ▸ ho')
  next => exact h o' (List.mem_of_getElem? ho')

theorem mapsPool_shrinking (pool : List UInt64) : Shrinking (MapsPool pool) where
  opened files fd h f hf := by
    rcases List.mem_append.mp hf with hf | hf
    · exact h f hf
    · rw [List.mem_singleton.mp hf]
      exact fun _ harea => absurd harea List.not_mem_nil
  closed files file h := h.modify file fun o ho => h o (List.mem_of_getElem? ho)
  unmapped files file area h := h.modify file fun o ho a ha =>
    h o (List.mem_of_getElem? ho) a (List.mem_of_mem_eraseIdx ha)
  released files file h f hf := h f (List.mem_of_mem_eraseIdx hf)

/-- The pool is held, and all that is mapped is of it. -/
structure PoolMapped (pool : List UInt64) (s : MemoryDevice) (ledger : PoolLedger) : Prop where
  held : PoolHeld pool s ledger
  maps : MapsPool pool s.files

/-- A step that maps nothing keeps what is mapped. -/
theorem poolMapped_of_keeps {α : Type} {m : MemorySystem α}
    (hheld : Keeps poolRefs (PoolHeld pool) m)
    (hmaps : ∀ start stop, DeviceKeeps poolRefs (MapsPool pool) (fun _ => True) start stop m) :
    Keeps poolRefs (PoolMapped pool) m := fun s ledger h =>
  wp_mono (wp_and (hheld s ledger h.held)
    (hmaps s.memory.apertureStart s.memory.apertureEnd s ledger ⟨⟨rfl, rfl⟩, h.maps, trivial⟩))
    fun _ _ _ hpost => ⟨hpost.1, hpost.2.2.1⟩

theorem mmapFile_mapped (file : Nat) (vma : Vma) :
    Keeps poolRefs (PoolMapped pool) (mmapFile file vma) := by
  intro s ledger h
  suffices hmaps :
      (mmapFile file vma).wp (.free Mm) (fun _ s' _ => MapsPool pool s'.files) s () from
    wp_mono (wp_and_free (mmapFile_pool file vma s ledger h.held) hmaps)
      fun _ _ _ hpost => ⟨hpost.1, hpost.2⟩
  rw [mmapFile, wp_bind, wp_get, wp_ite]
  split
  · exact h.maps
  rw [wp_bind, wp_onMemory]
  refine wp_mono (hyperMemoryMmap_maps h.held.dynamic vma) fun r memory' _ hpost => ?_
  cases r with
  | error e => exact h.maps
  | ok frames =>
    rw [wp_bind, modifyFile, wp_modify, wp_pure]
    refine h.maps.modify file fun o ho a ha => ?_
    rcases List.mem_append.mp ha with ha | ha
    · exact h.maps o (List.mem_of_getElem? ho) a ha
    · rw [List.mem_singleton.mp ha, ← h.held.pages]
      exact (hpost frames rfl).2

theorem PoolHeld.length_lt (h : PoolHeld pool s ledger) : pool.length < 2 ^ 64 := by
  rw [← h.pages, length_poolPages h.dynamic]
  exact s.memory.pages.toNat_lt

theorem openArea_mapped (file area : Nat) (cut : Option Nat) :
    Keeps poolRefs (PoolMapped pool) (openArea file area cut) := by
  intro s ledger h
  suffices hmaps : (openArea file area cut).wp (.free Mm)
      (fun _ s' _ => MapsPool pool s'.files) s () from
    wp_mono (wp_and_free (openArea_pool file area cut s ledger h.held) hmaps)
      fun _ _ _ hpost => ⟨hpost.1, hpost.2⟩
  rw [openArea, wp_bind, wp_get]
  cases ha : s.files[file]?.bind (·.areas[area]?) with
  | none => exact h.maps
  | some a =>
    dsimp only
    rw [wp_ite]
    split
    · exact h.maps
    rename_i hcut
    have hcut' (n : Nat) (hn : cut = some n) : 0 < n ∧ n < a.frames.length := by
      rw [hn, Option.any_some, Bool.or_eq_true, not_or, beq_iff_eq, decide_eq_true_eq] at hcut
      omega
    obtain ⟨f, hf, ha⟩ := Option.bind_eq_some_iff.mp ha
    have hold := h.maps f (List.mem_of_getElem? hf)
    rw [wp_bind, wp_onMemory, hyperVmaOpen, wp_modify, wp_bind, modifyFile, wp_modify, wp_pure]
    refine h.maps.modify file fun o ho a' ha' => ?_
    obtain rfl := Option.some.inj (hf.symm.trans ho)
    rw [List.mem_append, List.mem_append] at ha'
    rcases ha' with (ha' | ha') | ha'
    · exact hold a' (List.mem_of_mem_take ha')
    · exact (hold a (List.mem_of_getElem? ha)).opened h.held.length_lt hcut' a' ha'
    · exact hold a' (List.mem_of_mem_drop ha')

/-- Every step keeps the pool and what is mapped of it. -/
theorem DeviceStep.poolMapped (step : DeviceStep) : Keeps poolRefs (PoolMapped pool) step.run := by
  have hquiet (c : MmCall) (_ : c.quiet = true) : Tolerates poolRefs (fun _ => True) c :=
    fun _ _ => ⟨trivial, fun _ _ => trivial⟩
  have hshrinking := mapsPool_shrinking pool
  cases step with
  | openFile fd =>
    exact poolMapped_of_keeps (openFile_pool fd) fun _ _ => openFile_keeps hshrinking fd
  | ioctl file command =>
    exact keeps_bind (poolMapped_of_keeps (ioctlFile_pool file command)
      fun _ _ => ioctlFile_keeps hquiet file command) fun _ => keeps_pure _
  | mmap file vma => exact mmapFile_mapped file vma
  | openArea file area cut => exact openArea_mapped file area cut
  | closeArea file area =>
    exact poolMapped_of_keeps (closeArea_pool file area)
      fun _ _ => closeArea_keeps hshrinking file area
  | closeFile file =>
    exact poolMapped_of_keeps (closeFile_pool file) fun _ _ => closeFile_keeps hshrinking file
  | releaseFile file =>
    exact poolMapped_of_keeps (releaseFile_pool file)
      fun _ _ => releaseFile_keeps hshrinking hquiet file
  | beginRemove =>
    exact poolMapped_of_keeps beginRemove_pool fun _ _ =>
      keeps_bind (onMemory_keeps (keepsAperture_modify (fun _ => rfl) fun _ => rfl)) fun _ =>
        keeps_pure _
  | endRemove =>
    refine poolMapped_of_keeps endRemove_pool fun _ _ => ?_
    exact keeps_bind keeps_get fun _ => keeps_ite (fun _ => keeps_pure _) fun _ =>
      keeps_bind (keeps_modify fun _ _ h => h) fun _ =>
        keeps_bind (onMemory_keeps (krefPut_keeps hquiet)) fun _ => keeps_pure _

end Pool

/-! ## From the probe on -/

/-- Whatever happens to a static device that was probed, page `i` of every live area is the page of
its region at that offset, one that the probe took a reference on; and while any area is live, no
reference has been given back. -/
theorem mapped_pages_referenced (device : String) (env : Environment ProbeBus)
    (env' : Environment Mm) (steps : List DeviceStep) :
    let probe := probeRun device env
    let now := poolRun device env env' steps
    let later := poolLedger device env env' steps
    probe.1.1 = .ok () → probe.1.2.dynamic = false → ∀ area ∈ now.1.areas,
      later.put = [] ∧ ∀ i (hi : i < area.frames.length),
        area.frames[i].toNat = probe.1.2.firstPfn.toNat + area.pgoff.toNat + i ∧
          area.frames[i] ∈ later.taken := by
  intro probe now later hok hdynamic area harea
  have hprobe : ProbeBalanced (Probed CoversRegion) probe.1.1 probe.1.2 (probeLedger device env) :=
    probeRun_balanced
  rw [hok] at hprobe
  have hprobed : Probed CoversRegion probe.1.2 (probeLedger device env) := hprobe
  obtain ⟨resource, -, -, -, hfits⟩ := hprobed.region hdynamic
  have hkeeps : ∀ step ∈ steps, Keeps poolRefs (PoolMapped (probeLedger device env).taken)
      (DeviceStep.run step) := fun step _ => step.poolMapped
  have hstart : PoolMapped (probeLedger device env).taken { memory := probe.1.2 }
      (probeLedger device env) := ⟨hprobed.poolHeld hdynamic, fun _ h => absurd h List.not_mem_nil⟩
  have hlife : PoolMapped (probeLedger device env).taken now.1 later :=
    (points_keeps (k := probeLedger device env) poolRefs_assumed hkeeps
      (p := (({ memory := probe.1.2 } : MemoryDevice), [])) trivial hstart).2
  obtain ⟨f, hf, harea⟩ := List.mem_flatMap.mp harea
  have htaken : later.taken = probe.1.2.poolPages := (poolRefs_taken _).trans hprobed.taken
  refine ⟨hlife.held.held (.inl (List.ne_nil_of_mem hf)), fun i hi => ?_⟩
  obtain ⟨hinside, hget⟩ := hlife.maps f hf area harea i hi
  rw [hprobed.taken] at hinside hget
  rw [length_poolPages hdynamic] at hinside
  rw [List.getElem?_eq_getElem hi] at hget
  have hmem : area.frames[i] ∈ probe.1.2.poolPages := List.mem_of_getElem? hget.symm
  rw [poolPages_getElem? hdynamic hinside] at hget
  refine ⟨?_, htaken ▸ hmem⟩
  rw [Option.some.inj hget, toNat_poolPage hfits hinside, Nat.add_assoc]

theorem mapped_pages_referenced_removed :
    (⟨0x10000, 0, [0x80000, 0x80001]⟩ : MemoryArea) ∈
        (poolRun "pool" twoPages kindKernel (removedFirst.take 6)).1.areas ∧
      (poolLedger "pool" twoPages kindKernel (removedFirst.take 6)).put = [] := by
  have harea : (⟨0x10000, 0, [0x80000, 0x80001]⟩ : MemoryArea) ∈
      (poolRun "pool" twoPages kindKernel (removedFirst.take 6)).1.areas := by
    decide +kernel
  exact ⟨harea, (mapped_pages_referenced "pool" twoPages kindKernel (removedFirst.take 6) rfl rfl
    _ harea).1⟩

end HyperIoVm
