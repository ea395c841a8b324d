import HyperIoVm.MemoryDevice
import HyperIoVm.Preparation

/-!
# The life of a guest-memory device

Whatever happens to a dynamic device, in any order and with any failure, its page frames and the
granules that back them are present together; every live memory area maps frames the device
still holds granules for; and granules are put only when no area is live.
-/

namespace HyperIoVm

open Effects Routine MemoryDriver MemorySystem

/-! ## The invariant -/

/-- Nothing is prepared. -/
structure GuestMemory.Unprepared (memory : GuestMemory) : Prop where
  pfns : memory.pfns = none
  granules : memory.granules = []
  pages : memory.pages = 0

/-- Page frames are prepared, and there is a reference for the granule of each of them. -/
structure GuestMemory.Backed (memory : GuestMemory) (frames : List UInt64) (held : Held) :
    Prop where
  pfns : memory.pfns = some frames
  pages : memory.pages.toNat = frames.length
  positive : 0 < frames.length
  granules : memory.granules ≠ []
  covered : ∀ pfn ∈ frames, ∃ ref ∈ held, ref.2.toNat = pfn.toNat / 512

/-- The frames of the area are those of its pages, all of them inside the prepared range. -/
def MemoryArea.Maps (area : MemoryArea) (frames : List UInt64) : Prop :=
  ∀ i < area.frames.length, area.pgoff.toNat + i < frames.length ∧
    area.frames[i]? = frames[area.pgoff.toNat + i]?

/-- The state of the driver fits the files and areas that refer to it, and the references to
granules it holds. -/
structure Lifetime (s : MemoryDevice) (held : Held) : Prop where
  dynamic : s.memory.dynamic = true
  one : s.files.length ≤ 1
  opened : s.memory.opened = !s.files.isEmpty
  references : s.memory.references = s.registered.toNat + s.files.length
  vmas : s.memory.vmas = s.areas.length
  granules : s.memory.granules = held.map Prod.fst
  prepared : s.memory.Unprepared ∧ s.areas = [] ∨
    s.files ≠ [] ∧ ∃ frames, s.memory.Backed frames held ∧ ∀ area ∈ s.areas, area.Maps frames
  freed : s.memory.freed = true → s.files = [] ∧ s.registered = false

namespace Lifetime

variable {s : MemoryDevice} {held : Held}

/-- No file, or one. -/
theorem files_cases (h : Lifetime s held) : s.files = [] ∨ ∃ f, s.files = [f] := by
  have hone := h.one
  cases hfiles : s.files with
  | nil => exact .inl rfl
  | cons f fs =>
    rw [hfiles, List.length_cons] at hone
    rw [List.length_eq_zero_iff.mp (Nat.le_zero.mp (Nat.le_of_succ_le_succ hone))]
    exact .inr ⟨f, rfl⟩

/-- The device that begins its life. -/
theorem probed (start stop : UInt64) : Lifetime (.probed start stop) [] where
  dynamic := rfl
  one := Nat.zero_le 1
  opened := rfl
  references := rfl
  vmas := rfl
  granules := rfl
  prepared := .inl ⟨⟨rfl, rfl, rfl⟩, rfl⟩
  freed := by
    intro h
    cases h

/-- Without page frames nothing is held. -/
theorem unprepared (h : Lifetime s held) (hpfns : s.memory.pfns = none) :
    s.memory.Unprepared ∧ s.areas = [] ∧ held = [] := by
  rcases h.prepared with ⟨hmemory, hareas⟩ | ⟨-, frames, hbacked, -⟩
  · refine ⟨hmemory, hareas, List.map_eq_nil_iff.mp (h.granules ▸ hmemory.granules)⟩
  · rw [hbacked.pfns] at hpfns
    cases hpfns

/-- While an area is live the device is prepared. -/
theorem pfns_isSome (h : Lifetime s held) (hareas : s.areas ≠ []) :
    s.memory.pfns.isSome = true := by
  rcases h.prepared with ⟨-, hnone⟩ | ⟨-, frames, hbacked, -⟩
  · exact absurd hnone hareas
  · rw [hbacked.pfns]
    rfl

end Lifetime

/-! ## The driver's functions -/

section Driver

variable {K : Type} {C : Contract Mm K} {k : K} {memory : GuestMemory} {held : Held}

theorem wp_onMemory {α : Type} {m : MemoryDriver α} {Q : α → MemoryDevice → K → Prop}
    {s : MemoryDevice} : (onMemory m).wp C Q s k ↔
      m.wp C (fun a memory k' => Q a { s with memory } k') s.memory k := by
  show Program.wp C (_ >>= _) _ k ↔ _
  rw [Program.wp_bind]
  exact Iff.rfl

/-- The state `hyper_memory_unprepare` leaves. -/
def GuestMemory.unprepare (memory : GuestMemory) : GuestMemory :=
  { memory with
    granules := [], pfns := none
    firstPfn := if memory.dynamic then 0 else memory.firstPfn
    pages := if memory.dynamic then 0 else memory.pages }

theorem GuestMemory.unprepare_unprepared (hdynamic : memory.dynamic = true) :
    memory.unprepare.Unprepared := ⟨rfl, rfl, if_pos hdynamic⟩

theorem hyperMemoryUnprepare_refs (hheld : memory.granules = held.map Prod.fst) :
    hyperMemoryUnprepare.wp granuleRefs (fun _ memory' held' =>
      memory' = memory.unprepare ∧ held' = []) memory held := by
  rw [hyperMemoryUnprepare, wp_bind, wp_get, wp_bind, hheld]
  refine wp_mono hyperGranulesPut_refs fun _ memory' held' hput => ?_
  obtain ⟨rfl, rfl⟩ := hput
  exact ⟨rfl, rfl⟩

/-- A dynamic device has no page references of its own to give back. -/
theorem hyperMemoryDestroy_refs (hdynamic : memory.dynamic = true)
    (hheld : memory.granules = held.map Prod.fst) :
    hyperMemoryDestroy.wp granuleRefs (fun _ memory' held' =>
      memory' = { memory.unprepare with freed := true } ∧ held' = []) memory held := by
  have hdynamic' : memory.unprepare.dynamic = true := hdynamic
  rw [hyperMemoryDestroy, wp_bind]
  refine wp_mono (hyperMemoryUnprepare_refs hheld) fun _ memory' held' hpost => ?_
  obtain ⟨rfl, rfl⟩ := hpost
  rw [wp_bind, wp_get, if_pos hdynamic', List.range_zero, List.forM_nil, wp_bind, wp_pure,
    wp_modify]
  exact ⟨rfl, rfl⟩

/-- Only the last reference destroys the device. -/
theorem krefPut_refs (hdynamic : memory.dynamic = true)
    (hheld : memory.granules = held.map Prod.fst) :
    krefPut.wp granuleRefs (fun _ memory' held' =>
      (memory.references - 1 ≠ 0 →
        memory' = { memory with references := memory.references - 1 } ∧ held' = held) ∧
      (memory.references - 1 = 0 →
        memory' = { memory.unprepare with references := 0, freed := true } ∧ held' = []))
      memory held := by
  rw [krefPut, wp_bind, wp_modify, wp_bind, wp_get, wp_ite]
  split
  next hlast =>
    refine wp_mono (hyperMemoryDestroy_refs hdynamic hheld) fun _ memory' held' hpost => ?_
    obtain ⟨rfl, rfl⟩ := hpost
    refine ⟨fun h => absurd hlast h, fun h => ⟨?_, rfl⟩⟩
    rw [GuestMemory.unprepare, GuestMemory.unprepare, h]
  next hlast =>
    exact ⟨fun _ => ⟨rfl, rfl⟩, fun h => absurd h hlast⟩

/-- `hyper_memory_release` unprepares the device; if the file was the last reference, it also
destroys it. -/
theorem hyperMemoryRelease_refs (hdynamic : memory.dynamic = true)
    (hheld : memory.granules = held.map Prod.fst) :
    hyperMemoryRelease.wp granuleRefs (fun _ memory' held' => ∃ freed,
      memory' = { memory.unprepare with
        references := memory.references - 1, opened := false, freed := freed } ∧
      (freed = true → memory.freed = true ∨ memory.references - 1 = 0) ∧ held' = [])
      memory held := by
  rw [hyperMemoryRelease, wp_bind, wp_get, if_pos hdynamic, wp_bind]
  refine wp_mono (hyperMemoryUnprepare_refs hheld) fun _ memory' held' hpost => ?_
  obtain ⟨rfl, rfl⟩ := hpost
  rw [wp_bind, wp_modify]
  refine wp_mono (krefPut_refs hdynamic (show _ = List.map Prod.fst ([] : Held) from rfl))
    fun _ memory' held' hpost => ?_
  obtain ⟨hmore, hlast⟩ := hpost
  by_cases h : memory.references - 1 = 0
  · obtain ⟨rfl, rfl⟩ := hlast h
    refine ⟨true, ?_, fun _ => .inr h, rfl⟩
    simp [GuestMemory.unprepare, hdynamic, h]
  · obtain ⟨rfl, rfl⟩ := hmore h
    exact ⟨memory.freed, rfl, fun h => .inl h, rfl⟩

/-- A second preparation fails, and neither changes nor calls anything. -/
theorem hyperMemoryPrepare_busy (prepare : MemoryPrepare) (hdynamic : memory.dynamic = true)
    (hpfns : memory.pfns.isSome = true) : (hyperMemoryPrepare prepare).wp C
      (fun r memory' k' => memory' = memory ∧ k' = k ∧ ∃ e, r = .error e) memory k := by
  unfold hyperMemoryPrepare
  simp only [wp_ite, wp_bind, wp_get, wp_pure, hdynamic, hpfns, Bool.not_true, Bool.false_eq_true,
    if_false, if_true]
  split
  · exact ⟨trivial, trivial, _, rfl⟩
  split
  · exact ⟨trivial, trivial, _, rfl⟩
  · exact ⟨trivial, trivial, _, rfl⟩

/-- The mapping loop inserts the frames of consecutive pages. -/
theorem insertPages_refs (vma : Vma) (rounds : Nat) (index : UInt64) (inserted : List UInt64) :
    (insertPages vma rounds index inserted).wp granuleRefs (fun r memory' held' =>
      memory' = memory ∧ held' = held ∧ ∀ frames, r = .ok frames → frames = inserted ++
        (List.range rounds).map fun j => memory.frame vma.pgoff (index + .ofNat j))
          memory held := by
  induction rounds generalizing index inserted with
  | zero =>
    refine ⟨rfl, rfl, fun frames h => ?_⟩
    rw [← Except.ok.inj h]
    simp
  | succ rounds ih =>
    rw [insertPages, wp_bind, wp_get, wp_bind]
    refine MemoryDriver.wp_call trivial fun r _ => ?_
    cases r with
    | error e => exact ⟨rfl, rfl, by simp⟩
    | ok done =>
      refine wp_mono (ih (index + 1) (inserted ++ [memory.frame vma.pgoff index])) ?_
      intro r memory' held' hpost
      obtain ⟨rfl, rfl, hframes⟩ := hpost
      refine ⟨rfl, rfl, fun frames h => ?_⟩
      have hindex (j : Nat) : index + 1 + UInt64.ofNat j = index + UInt64.ofNat (j + 1) := by
        rw [UInt64.ofNat_add, UInt64.add_assoc, UInt64.add_comm 1]
        rfl
      have hfirst : index + UInt64.ofNat 0 = index := UInt64.add_zero index
      rw [hframes frames h, List.append_assoc, List.singleton_append, List.range_succ_eq_map,
        List.map_cons, List.map_map, hfirst]
      simp only [hindex, Function.comp_def]

end Driver

/-! ## The steps -/

section Steps

variable {s : MemoryDevice} {held : Held}

theorem openFile_lifetime (fd : Fd) : Keeps granuleRefs Lifetime (openFile fd) := by
  intro s held h
  rw [openFile, wp_bind, wp_get, wp_ite]
  split
  · -- the device is not registered
    exact h
  rename_i hregistered
  simp only [Bool.not_eq_true', Bool.not_eq_false] at hregistered
  rw [wp_bind, wp_onMemory, hyperMemoryOpen, wp_bind, wp_get, wp_ite]
  split
  · -- the device is no longer live
    exact h
  rw [wp_ite, h.dynamic]
  split
  · -- another file is open
    exact h
  rename_i hopened
  -- so this file is the only one
  have hfiles : s.files = [] := by
    have hclosed := h.opened
    simp only [Bool.true_and, Bool.not_eq_true] at hopened
    rw [hopened] at hclosed
    simpa using hclosed
  rw [wp_bind, wp_modify, wp_pure, wp_bind, wp_modify, wp_pure]
  have hareas : s.areas = [] := by rw [MemoryDevice.areas, hfiles]; rfl
  have hunprepared : s.memory.Unprepared := by
    rcases h.prepared with ⟨hmemory, -⟩ | ⟨hopen, -⟩
    · exact hmemory
    · exact absurd hfiles hopen
  refine ⟨h.dynamic, ?_, ?_, ?_, ?_, h.granules,
    .inl ⟨⟨hunprepared.1, hunprepared.2, hunprepared.3⟩,
    -- the new file counts as a reference
    ?_⟩, fun hfreed => ?_⟩
  · simp [hfiles]
  · simp
  · show s.memory.references + 1 = _
    rw [h.references, hfiles]
    rfl
  · show s.memory.vmas = _
    rw [h.vmas, hareas, MemoryDevice.areas, hfiles]
    rfl
  · rw [MemoryDevice.areas, hfiles]
    rfl
  · rw [(h.freed hfreed).2] at hregistered
    cases hregistered

/-- A release of the granules, when no area is live. -/
theorem Lifetime.unprepare (h : Lifetime s held) (hareas : s.areas = []) :
    Lifetime { s with memory := s.memory.unprepare } [] where
  dynamic := h.dynamic
  one := h.one
  opened := h.opened
  references := h.references
  vmas := h.vmas
  granules := rfl
  prepared := .inl ⟨GuestMemory.unprepare_unprepared h.dynamic, hareas⟩
  freed := h.freed

/-- A preparation, when nothing was prepared. -/
theorem Lifetime.prepare (h : Lifetime s held) (hpfns : s.memory.pfns = none)
    (hfiles : s.files ≠ []) {prepare : MemoryPrepare} {memory : GuestMemory} {held' : Held}
    (hprepared : Prepared prepare s.memory memory held') :
    Lifetime { s with memory } held' := by
  obtain ⟨hcount, hpos, -, -, -, hgranules, rfl⟩ := hprepared
  obtain ⟨-, hareas, -⟩ := h.unprepared hpfns
  -- each frame lies in a granule that was acquired
  have hcovered (address : UInt64) (haddress : address ∈ prepare.aliases) :
      ∃ ref ∈ held', ref.2 = address / 2097152 := by
    obtain ⟨ref, href, hindex⟩ := List.mem_map.mp ((hgranules _).mpr ⟨address, haddress, rfl⟩)
    exact ⟨ref, href, hindex⟩
  have hlength : 0 < prepare.aliases.length := hcount ▸ hpos
  obtain ⟨ref, href, -⟩ := hcovered _ (List.getElem_mem hlength)
  refine ⟨h.dynamic, h.one, h.opened, h.references, h.vmas, rfl, .inr ⟨hfiles, _,
    ⟨rfl, ?_, ?_, ?_, fun pfn hpfn => ?_⟩, ?_⟩, h.freed⟩
  · show prepare.count.toUInt64.toNat = _
    rw [UInt32.toNat_toUInt64, List.length_map, hcount]
  · rwa [List.length_map]
  · show held'.map Prod.fst ≠ []
    exact List.ne_nil_of_mem (List.mem_map.mpr ⟨ref, href, rfl⟩)
  · obtain ⟨address, haddress, rfl⟩ := List.mem_map.mp hpfn
    obtain ⟨ref, href, hindex⟩ := hcovered address haddress
    refine ⟨ref, href, ?_⟩
    have htwo : (2097152 : UInt64).toNat = 2097152 := rfl
    have htwelve : (12 : UInt64).toNat % 64 = 12 := rfl
    rw [hindex, UInt64.toNat_div, htwo, UInt64.toNat_shiftRight, htwelve,
      Nat.shiftRight_eq_div_pow, Nat.div_div_eq_div_mul]
  · -- nothing is mapped before the frames are there
    show ∀ area ∈ s.areas, _
    rw [hareas]
    simp

theorem MemoryDevice.hasDescriptor_ne_nil {file : Nat} (h : s.hasDescriptor file = true) :
    s.files ≠ [] := by
  rintro hnil
  rw [MemoryDevice.hasDescriptor, hnil] at h
  cases h

theorem hyperMemoryIoctl_lifetime (command : MemoryCommand) (hfiles : s.files ≠ [])
    (h : Lifetime s held) : (hyperMemoryIoctl command).wp granuleRefs
      (fun _ memory held' => Lifetime { s with memory } held') s.memory held := by
  cases command with
  | unknown => exact h
  | info =>
    rw [hyperMemoryIoctl, wp_bind, wp_get, wp_ite]
    split
    · exact h
    rw [ioctlMemoryInfo, wp_bind, wp_get, wp_bind]
    refine copyToUser_refs fun r => ?_
    rw [wp_ite]
    split
    · exact h
    · exact h
  | release =>
    rw [hyperMemoryIoctl, wp_bind, wp_get, wp_ite]
    split
    · exact h
    rw [ioctlMemoryRelease, wp_bind, wp_get, wp_ite]
    split
    · -- something is still mapped
      exact h
    rename_i hvmas
    rw [wp_bind]
    refine wp_mono (hyperMemoryUnprepare_refs h.granules) fun _ memory held' hpost => ?_
    obtain ⟨rfl, rfl⟩ := hpost
    refine h.unprepare (List.length_eq_zero_iff.mp ?_)
    rw [← h.vmas]
    exact not_not.mp hvmas
  | prepare prepare =>
    rw [hyperMemoryIoctl, wp_bind]
    refine copyFromUser_refs fun r => ?_
    rw [wp_ite]
    split
    · exact h
    rw [wp_bind, wp_get, wp_ite]
    split
    · exact h
    rw [ioctlMemoryPrepare, wp_bind]
    cases hpfns : s.memory.pfns with
    -- it has its frames already
    | some frames =>
      refine wp_mono (hyperMemoryPrepare_busy prepare h.dynamic (by rw [hpfns]; rfl)) ?_
      intro r memory held' hpost
      obtain ⟨rfl, rfl, -⟩ := hpost
      exact h
    | none =>
      obtain ⟨-, -, rfl⟩ := h.unprepared hpfns
      refine wp_mono (hyperMemoryPrepare_refs h.dynamic) fun r memory held' hpost => ?_
      obtain ⟨herror, hok⟩ := hpost
      cases r with
      -- what was acquired has been put
      | error e =>
        obtain ⟨rfl, rfl⟩ := herror e rfl
        exact h
      | ok done => exact h.prepare hpfns hfiles (hok rfl)

theorem ioctlFile_lifetime (file : Nat) (command : MemoryCommand) :
    Keeps granuleRefs Lifetime (ioctlFile file command) := by
  intro s held h
  rw [ioctlFile, wp_bind, wp_get, wp_ite]
  split
  · exact h
  rename_i hdescriptor
  simp only [Bool.not_eq_true', Bool.not_eq_false] at hdescriptor
  rw [wp_onMemory]
  exact hyperMemoryIoctl_lifetime command (MemoryDevice.hasDescriptor_ne_nil hdescriptor) h

/-- The one file there is. -/
theorem Lifetime.file_eq (h : Lifetime s held) {file : Nat} {f : OpenFile}
    (hf : s.files[file]? = some f) : s.files = [f] ∧ file = 0 := by
  rcases h.files_cases with hnil | ⟨g, hg⟩
  · rw [hnil] at hf
    cases hf
  · rw [hg] at hf ⊢
    cases file with
    | zero =>
      rw [Option.some.inj hf]
      exact ⟨rfl, rfl⟩
    | succ n => cases hf

theorem areas_of_files {f : OpenFile} (hfiles : s.files = [f]) : s.areas = f.areas := by
  rw [MemoryDevice.areas, hfiles]
  exact List.append_nil _

/-- The areas of the file change, and the driver counts them. -/
theorem Lifetime.setAreas (h : Lifetime s held) {f : OpenFile} (hfiles : s.files = [f])
    (areas : List MemoryArea) {count : Nat} (hcount : count = areas.length)
    (hnone : s.memory.pfns = none → areas = [])
    (hmaps : ∀ frames, s.memory.pfns = some frames → ∀ area ∈ areas, area.Maps frames) :
    Lifetime { s with
      memory := { s.memory with vmas := count }
      files := [{ f with areas := areas }] } held := by
  have hareas : [{ f with areas := areas }].flatMap (·.areas) = areas := List.append_nil _
  refine ⟨h.dynamic, Nat.le_refl 1, ?_, ?_, ?_, h.granules, ?_, fun hfreed => ?_⟩
  · rw [h.opened, hfiles]
    rfl
  · rw [h.references, hfiles]
    rfl
  · rw [MemoryDevice.areas, hareas]
    exact hcount
  · rcases h.prepared with ⟨hmemory, -⟩ | ⟨-, frames, hbacked, -⟩
    · refine .inl ⟨⟨hmemory.1, hmemory.2, hmemory.3⟩, ?_⟩
      rw [MemoryDevice.areas, hareas]
      exact hnone hmemory.pfns
    · refine .inr ⟨List.cons_ne_nil _ _, frames, ⟨hbacked.1, hbacked.2, hbacked.3, hbacked.4,
        hbacked.5⟩, ?_⟩
      rw [MemoryDevice.areas, hareas]
      exact hmaps frames hbacked.pfns
  · rw [(h.freed hfreed).1] at hfiles
    cases hfiles

/-- The areas of the file map frames of the device. -/
theorem Lifetime.maps (h : Lifetime s held) {frames : List UInt64}
    (hpfns : s.memory.pfns = some frames) : ∀ area ∈ s.areas, area.Maps frames := by
  rcases h.prepared with ⟨hmemory, -⟩ | ⟨-, frames', hbacked, hmaps⟩
  · rw [hmemory.pfns] at hpfns
    cases hpfns
  · rw [hbacked.pfns] at hpfns
    rwa [← Option.some.inj hpfns]

theorem Lifetime.frames_lt (h : Lifetime s held) {frames : List UInt64}
    (hpfns : s.memory.pfns = some frames) : frames.length < 2 ^ 64 := by
  rcases h.prepared with ⟨hmemory, -⟩ | ⟨-, frames', hbacked, -⟩
  · rw [hmemory.pfns] at hpfns
    cases hpfns
  · rw [hbacked.pfns] at hpfns
    rw [← Option.some.inj hpfns, ← hbacked.pages]
    exact s.memory.pages.toNat_lt

/-- A mapping takes its frames from inside the prepared range. -/
theorem hyperMemoryMmap_refs {vma : Vma} (h : Lifetime s held) :
    (hyperMemoryMmap vma).wp granuleRefs (fun r memory held' => held' = held ∧
      (∀ e, r = .error e → memory = s.memory) ∧
      ∀ inserted, r = .ok inserted → memory = { s.memory with vmas := s.memory.vmas + 1 } ∧
        ∃ frames, s.memory.pfns = some frames ∧
          MemoryArea.Maps ⟨vma.start, vma.pgoff, inserted⟩ frames) s.memory held := by
  have herror (e : KernelError) : held = held ∧
      (∀ e', (.error e : Except KernelError (List UInt64)) = .error e' → s.memory = s.memory) ∧
      ∀ inserted, (.error e : Except KernelError (List UInt64)) = .ok inserted →
        s.memory = { s.memory with vmas := s.memory.vmas + 1 } ∧
          ∃ frames, s.memory.pfns = some frames ∧
            MemoryArea.Maps ⟨vma.start, vma.pgoff, inserted⟩ frames :=
    ⟨rfl, fun _ _ => rfl, by simp⟩
  rw [hyperMemoryMmap, wp_ite]
  split
  · -- the area is not shared, or is executable
    exact herror _
  rw [wp_bind, wp_get, wp_ite]
  split
  · -- the range does not lie in the region
    exact herror _
  rename_i hrange
  rw [wp_ite]
  split
  · -- the device is no longer live
    exact herror _
  rw [wp_bind]
  refine wp_mono (insertPages_refs vma _ 0 []) fun r memory held' hpost => ?_
  obtain ⟨rfl, rfl, hframes⟩ := hpost
  cases r with
  | error e => exact herror e
  | ok inserted =>
    rw [wp_bind, hyperVmaOpen, wp_modify, wp_pure]
    refine ⟨rfl, by simp, fun inserted' h' => ⟨rfl, ?_⟩⟩
    obtain rfl := Except.ok.inj h'
    simp only [Bool.or_eq_true, decide_eq_true_eq, not_or, ge_iff_le, gt_iff_lt,
      UInt64.not_le, UInt64.not_lt] at hrange
    obtain ⟨hoffset, hroom⟩ := hrange
    have hle := UInt64.le_of_lt hoffset
    rw [UInt64.lt_iff_toNat_lt] at hoffset
    rw [UInt64.le_iff_toNat_le, UInt64.toNat_sub_of_le _ _ hle] at hroom
    -- a region with pages has been prepared
    obtain ⟨frames, hbacked⟩ : ∃ frames, s.memory.Backed frames held' := by
      rcases h.prepared with ⟨hmemory, -⟩ | ⟨-, frames, hbacked, -⟩
      · rw [hmemory.pages] at hoffset
        exact absurd hoffset (Nat.not_lt_zero _)
      · exact ⟨frames, hbacked⟩
    refine ⟨frames, hbacked.pfns, fun i hi => ?_⟩
    have hpages := hbacked.pages
    have hlt := s.memory.pages.toNat_lt
    rw [hframes inserted rfl, List.nil_append] at hi ⊢
    rw [List.length_map, List.length_range] at hi
    -- no offset wraps: the range lies in the region
    have hindex : (vma.pgoff + (0 + UInt64.ofNat i)).toNat = vma.pgoff.toNat + i := by
      rw [UInt64.zero_add, UInt64.toNat_add, UInt64.toNat_ofNat_of_lt' (show i < 2 ^ 64 by omega),
        Nat.mod_eq_of_lt (by omega)]
    have hinside : vma.pgoff.toNat + i < frames.length := by omega
    refine ⟨hinside, ?_⟩
    show _ = frames[vma.pgoff.toNat + i]?
    rw [List.getElem?_map, List.getElem?_range hi, Option.map_some, GuestMemory.frame,
      if_pos h.dynamic, hbacked.pfns, Option.getD_some, hindex, List.getD_eq_getElem?_getD,
      List.getElem?_eq_getElem hinside,
      Option.getD_some]

theorem mmapFile_lifetime (file : Nat) (vma : Vma) :
    Keeps granuleRefs Lifetime (mmapFile file vma) := by
  intro s held h
  rw [mmapFile, wp_bind, wp_get, wp_ite]
  split
  · exact h
  rename_i hdescriptor
  simp only [Bool.not_eq_true', Bool.not_eq_false] at hdescriptor
  rw [wp_bind, wp_onMemory]
  refine wp_mono (hyperMemoryMmap_refs h) fun r memory held' hpost => ?_
  obtain ⟨rfl, herror, hok⟩ := hpost
  cases r with
  -- nothing is mapped
  | error e =>
    rw [herror e rfl]
    exact h
  | ok inserted =>
    obtain ⟨rfl, frames, hpfns, hmaps⟩ := hok inserted rfl
    obtain ⟨f, hf⟩ : ∃ f, s.files[file]? = some f := by
      cases hfile : s.files[file]? with
      | none =>
        rw [MemoryDevice.hasDescriptor, hfile] at hdescriptor
        cases hdescriptor
      | some f => exact ⟨f, rfl⟩
    obtain ⟨hfiles, rfl⟩ := h.file_eq hf
    -- the area counts as one more user of the frames
    have hcount : s.memory.vmas + 1 =
        (f.areas ++ [(⟨vma.start, vma.pgoff, inserted⟩ : MemoryArea)]).length := by
      rw [List.length_append, h.vmas, areas_of_files hfiles]
      rfl
    have hnew := h.setAreas hfiles _ hcount
      (fun hnone => by rw [hpfns] at hnone; cases hnone) (fun frames' hpfns' area harea => ?_)
    · rw [wp_bind, modifyFile, wp_modify, wp_pure]
      simpa [hfiles] using hnew
    · rcases List.mem_append.mp harea with harea | harea
      · -- an area that was there before
        exact h.maps hpfns' area (areas_of_files hfiles ▸ harea)
      · -- the new area
        rw [List.mem_singleton.mp harea]
        rw [hpfns] at hpfns'
        rwa [← Option.some.inj hpfns']

/-- Splitting or duplicating an area gives areas of the same frames. -/
theorem MemoryArea.Maps.opened {area : MemoryArea} {frames : List UInt64} (h : area.Maps frames)
    (hframes : frames.length < 2 ^ 64) {cut : Option Nat}
    (hcut : ∀ n, cut = some n → 0 < n ∧ n < area.frames.length) :
    ∀ a ∈ area.opened cut, a.Maps frames := by
  cases cut with
  -- the same area twice
  | none =>
    intro a ha
    simp only [MemoryArea.opened, List.mem_cons, List.not_mem_nil, or_false, or_self] at ha
    rwa [ha]
  | some n =>
    obtain ⟨hpos, hlt⟩ := hcut n rfl
    intro a ha
    simp only [MemoryArea.opened, MemoryArea.split, List.mem_cons, List.not_mem_nil, or_false] at ha
    rcases ha with rfl | rfl
    · -- the part before the cut
      intro i hi
      rw [List.length_take] at hi
      obtain ⟨hinside, heq⟩ := h i (by omega)
      refine ⟨hinside, ?_⟩
      rw [List.getElem?_take_of_lt (by omega)]
      exact heq
    · -- the part behind it
      intro i hi
      rw [List.length_drop] at hi
      obtain ⟨hinside, heq⟩ := h (n + i) (by omega)
      have hoffset : (area.pgoff + UInt64.ofNat n).toNat = area.pgoff.toNat + n := by
        rw [UInt64.toNat_add, UInt64.toNat_ofNat_of_lt' (show n < 2 ^ 64 by omega),
          Nat.mod_eq_of_lt (by omega)]
      show (area.pgoff + UInt64.ofNat n).toNat + i < _ ∧ (area.frames.drop n)[i]? =
        frames[(area.pgoff + UInt64.ofNat n).toNat + i]?
      rw [hoffset, Nat.add_assoc, List.getElem?_drop]
      exact ⟨hinside, heq⟩

/-- An area of a file, and the one file it is of. -/
theorem Lifetime.area_eq (h : Lifetime s held) {file area : Nat} {a : MemoryArea}
    (ha : s.files[file]?.bind (·.areas[area]?) = some a) :
    file = 0 ∧ ∃ f, s.files = [f] ∧ f.areas[area]? = some a := by
  obtain ⟨f, hf, ha⟩ := Option.bind_eq_some_iff.mp ha
  obtain ⟨hfiles, hfile⟩ := h.file_eq hf
  exact ⟨hfile, f, hfiles, ha⟩

theorem openArea_lifetime (file area : Nat) (cut : Option Nat) :
    Keeps granuleRefs Lifetime (openArea file area cut) := by
  intro s held h
  rw [openArea, wp_bind, wp_get]
  cases ha : s.files[file]?.bind (·.areas[area]?) with
  -- there is no such area
  | none => exact h
  | some a =>
    obtain ⟨rfl, f, hfiles, ha⟩ := h.area_eq ha
    obtain ⟨hlt, hget⟩ := List.getElem?_eq_some_iff.mp ha
    have hmem : a ∈ s.areas := by
      rw [areas_of_files hfiles, ← hget]
      exact List.getElem_mem hlt
    dsimp only
    rw [wp_ite]
    split
    · exact h
    rename_i hcut
    have hcut' (n : Nat) (hn : cut = some n) : 0 < n ∧ n < a.frames.length := by
      rw [hn, Option.any_some, Bool.or_eq_true, not_or, beq_iff_eq, decide_eq_true_eq] at hcut
      omega
    rw [wp_bind, wp_onMemory, hyperVmaOpen, wp_modify, wp_bind, modifyFile, wp_modify, wp_pure]
    -- one area more, whether it is copied or cut
    have hlength : (a.opened cut).length = 2 := by
      cases cut with
      | none => rfl
      | some n => rfl
    have hcount : s.memory.vmas + 1 =
        (f.areas.take area ++ a.opened cut ++ f.areas.drop (area + 1)).length := by
      rw [h.vmas, areas_of_files hfiles, List.length_append, List.length_append, hlength,
        List.length_take, List.length_drop]
      omega
    have hnew := h.setAreas hfiles _ hcount (fun hnone => ?_) (fun frames hpfns area' harea => ?_)
    · simpa [hfiles] using hnew
    · -- no area is there before the frames are
      rw [(h.unprepared hnone).2.1] at hmem
      cases hmem
    · have hold := h.maps hpfns
      rw [areas_of_files hfiles] at hold
      rw [List.mem_append, List.mem_append] at harea
      rcases harea with (harea | harea) | harea
      · -- the areas before it
        exact hold _ (List.mem_of_mem_take harea)
      · -- the area itself, or its parts
        refine (h.maps hpfns a hmem).opened ?_ hcut' area' harea
        exact h.frames_lt hpfns
      · -- the areas behind it
        exact hold _ (List.mem_of_mem_drop harea)

theorem closeArea_lifetime (file area : Nat) :
    Keeps granuleRefs Lifetime (closeArea file area) := by
  intro s held h
  rw [closeArea, wp_bind, wp_get]
  cases ha : s.files[file]?.bind (·.areas[area]?) with
  | none => exact h
  | some a =>
    obtain ⟨rfl, f, hfiles, ha⟩ := h.area_eq ha
    obtain ⟨hlt, hget⟩ := List.getElem?_eq_some_iff.mp ha
    dsimp only
    rw [wp_bind, wp_onMemory, hyperVmaClose, wp_modify, wp_bind, modifyFile, wp_modify, wp_pure]
    have hcount : s.memory.vmas - 1 = (f.areas.eraseIdx area).length := by
      rw [h.vmas, areas_of_files hfiles, List.length_eraseIdx_of_lt hlt]
    have hnew := h.setAreas hfiles _ hcount (fun hnone => ?_) (fun frames hpfns area' harea => ?_)
    · simpa [hfiles] using hnew
    · have hareas := (h.unprepared hnone).2.1
      rw [areas_of_files hfiles] at hareas
      rw [hareas]
      rfl
    · refine h.maps hpfns area' ?_
      rw [areas_of_files hfiles]
      exact List.mem_of_mem_eraseIdx harea

/-- The driver does not know how its files are named. -/
theorem Lifetime.setFiles (h : Lifetime s held) {files : List OpenFile}
    (hlength : files.length = s.files.length) (hareas : files.flatMap (·.areas) = s.areas) :
    Lifetime { s with files } held := by
  have hempty : files = [] ↔ s.files = [] := by
    rw [← List.length_eq_zero_iff, hlength, List.length_eq_zero_iff]
  refine ⟨h.dynamic, hlength ▸ h.one, ?_, ?_, ?_, h.granules, ?_, fun hfreed => ?_⟩
  · rw [h.opened, Bool.eq_iff_iff]
    simp [hempty]
  · rw [h.references, hlength]
  · rw [MemoryDevice.areas, hareas]
    exact h.vmas
  · rw [MemoryDevice.areas, hareas]
    exact h.prepared.imp_right fun hsome => ⟨fun hnil => hsome.1 (hempty.mp hnil), hsome.2⟩
  · exact ⟨hempty.mpr (h.freed hfreed).1, (h.freed hfreed).2⟩

theorem closeFile_lifetime (file : Nat) : Keeps granuleRefs Lifetime (closeFile file) := by
  intro s held h
  rw [closeFile, wp_bind, modifyFile, wp_modify, wp_pure]
  refine h.setFiles (List.length_modify _ _ _) ?_
  rcases h.files_cases with hfiles | ⟨f, hfiles⟩
  · simp [hfiles, MemoryDevice.areas]
  · cases file with
    | zero => simp [hfiles, MemoryDevice.areas]
    | succ n => simp [hfiles, MemoryDevice.areas]

theorem releaseFile_lifetime (file : Nat) : Keeps granuleRefs Lifetime (releaseFile file) := by
  intro s held h
  rw [releaseFile, wp_bind, wp_get]
  cases hf : s.files[file]? with
  -- there is no such file
  | none => exact h
  | some f =>
    obtain ⟨hfiles, rfl⟩ := h.file_eq hf
    dsimp only
    rw [wp_ite]
    split
    · -- a descriptor or an area of it is still there
      exact h
    rename_i hunused
    rw [Bool.or_eq_true, not_or] at hunused
    have hareas : s.areas = [] := by
      rw [areas_of_files hfiles]
      simpa using hunused.2
    rw [wp_bind, wp_onMemory]
    refine wp_mono (hyperMemoryRelease_refs h.dynamic h.granules) fun _ memory held' hpost => ?_
    obtain ⟨freed, rfl, hfreed, rfl⟩ := hpost
    rw [wp_bind, wp_modify, wp_pure]
    -- it was the only file
    have hnil : s.files.eraseIdx 0 = [] := by rw [hfiles]; rfl
    have hreferences : s.memory.references - 1 = s.registered.toNat := by
      rw [h.references, hfiles]
      rfl
    refine ⟨h.dynamic, ?_, ?_, ?_, ?_, rfl, .inl ⟨⟨rfl, rfl, if_pos h.dynamic⟩, ?_⟩,
      fun hdestroyed => ⟨hnil, ?_⟩⟩
    · rw [hnil]
      exact Nat.zero_le 1
    · rw [hnil]
      rfl
    · rw [hnil]
      exact hreferences
    · show s.memory.vmas = _
      rw [h.vmas, hareas, MemoryDevice.areas, hnil]
      rfl
    · rw [MemoryDevice.areas, hnil]
      rfl
    · -- the device was freed before, or by this put
      rcases hfreed hdestroyed with hbefore | hlast
      · exact (h.freed hbefore).2
      · rw [hreferences] at hlast
        exact Bool.toNat_eq_zero.mp hlast

theorem beginRemove_lifetime : Keeps granuleRefs Lifetime beginRemove := by
  intro s held h
  rw [beginRemove, wp_bind, wp_onMemory, wp_modify, wp_pure]
  refine ⟨h.dynamic, h.one, h.opened, h.references, h.vmas, h.granules, ?_, h.freed⟩
  refine h.prepared.imp (fun hnone => ?_) fun hsome => ?_
  · exact ⟨⟨hnone.1.1, hnone.1.2, hnone.1.3⟩, hnone.2⟩
  · obtain ⟨hfiles, frames, hbacked, hmaps⟩ := hsome
    exact ⟨hfiles, frames, ⟨hbacked.1, hbacked.2, hbacked.3, hbacked.4, hbacked.5⟩, hmaps⟩

theorem endRemove_lifetime : Keeps granuleRefs Lifetime endRemove := by
  intro s held h
  rw [endRemove, wp_bind, wp_get, wp_ite]
  split
  · exact h
  rename_i hremoving
  simp only [Bool.or_eq_true, Bool.not_eq_true', not_or, Bool.not_eq_true, Bool.not_eq_false]
    at hremoving
  rw [wp_bind, wp_modify, wp_bind, wp_onMemory]
  refine wp_mono (krefPut_refs h.dynamic h.granules) fun _ memory held' hpost => ?_
  obtain ⟨hmore, hlast⟩ := hpost
  have hreferences : s.memory.references - 1 = s.files.length := by
    rw [h.references, hremoving.2]
    show 1 + _ - 1 = _
    omega
  rw [wp_pure]
  -- the reference of the probe is the last one
  by_cases hfiles : s.files = []
  · obtain ⟨rfl, rfl⟩ := hlast (by rw [hreferences, hfiles]; rfl)
    have hareas : s.areas = [] := by rw [MemoryDevice.areas, hfiles]; rfl
    refine ⟨h.dynamic, h.one, h.opened, ?_, h.vmas, rfl,
      .inl ⟨⟨rfl, rfl, if_pos h.dynamic⟩, hareas⟩, fun _ => ⟨hfiles, rfl⟩⟩
    rw [hfiles]
    rfl
  · -- an open file keeps the device
    obtain ⟨rfl, rfl⟩ := hmore (by rw [hreferences]; simpa using hfiles)
    refine ⟨h.dynamic, h.one, h.opened, ?_, h.vmas, h.granules, ?_,
      fun hfreed => absurd (h.freed hfreed).1 hfiles⟩
    · rw [hreferences]
      exact (Nat.zero_add _).symm
    · refine h.prepared.imp (fun hnone => ?_) fun hsome => ?_
      · exact ⟨⟨hnone.1.1, hnone.1.2, hnone.1.3⟩, hnone.2⟩
      · obtain ⟨_, frames, hbacked, hmaps⟩ := hsome
        exact ⟨hfiles, frames, ⟨hbacked.1, hbacked.2, hbacked.3, hbacked.4, hbacked.5⟩, hmaps⟩

/-- Every step keeps the invariant. -/
theorem DeviceStep.lifetime (step : DeviceStep) : Keeps granuleRefs Lifetime step.run := by
  cases step with
  | openFile fd => exact openFile_lifetime fd
  | ioctl file command => exact keeps_bind (ioctlFile_lifetime file command) fun _ => keeps_pure _
  | mmap file vma => exact mmapFile_lifetime file vma
  | openArea file area cut => exact openArea_lifetime file area cut
  | closeArea file area => exact closeArea_lifetime file area
  | closeFile file => exact closeFile_lifetime file
  | releaseFile file => exact releaseFile_lifetime file
  | beginRemove => exact beginRemove_lifetime
  | endRemove => exact endRemove_lifetime

end Steps

end HyperIoVm
