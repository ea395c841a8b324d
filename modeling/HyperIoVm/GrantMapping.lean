import HyperIoVm.DeviceCalls
import HyperIoVm.Purpose

/-!
# Mapping a grant

What the calls of `prepare_memory` on the guest-memory device leave there: an opened file, the page
frames of the array that the service hands over, and one memory area of exactly these frames. A
release maps nothing.
-/

namespace HyperIoVm

open Effects Routine MemoryDriver MemorySystem

/-! ## The calls one by one -/

section Calls

variable {s : MemoryDevice} {held : Held} {es : List (Event Mm)} {fd : Fd}

theorem wp_linux {K : Type} {C : Contract Mm K} {c : Call} {Q : c.Reply → MemoryDevice → K → Prop}
    {k : K} (hallow : C.allows k (.linux c))
    (h : ∀ r : c.Reply, C.assumes k (.linux c) r → Q r s (C.next k (.linux c) r)) :
    (MemorySystem.linux c).wp C Q s k := ⟨hallow, h⟩

/-- The only file of the device, just opened. -/
def MemoryDevice.Opened (s : MemoryDevice) (fd : Fd) : Prop :=
  s.memory.dynamic = true ∧ s.files = [{ descriptor := some fd }]

theorem MemoryDevice.Opened.fileOf (h : s.Opened fd) : s.fileOf fd = some 0 := by
  rw [MemoryDevice.fileOf, h.2, List.findIdx?_cons]
  simp

theorem MemoryDevice.Opened.hasDescriptor (h : s.Opened fd) : s.hasDescriptor 0 = true := by
  rw [MemoryDevice.hasDescriptor, h.2]
  rfl

theorem wp_onFile {K : Type} {C : Contract Mm K} {c : Call} {m : Nat → MemorySystem c.Reply}
    {Q : c.Reply → MemoryDevice → K → Prop} {k : K} (h : s.Opened fd) :
    (onFile fd c m).wp C Q s k ↔ (m 0).wp C Q s k := by
  rw [onFile, wp_bind, wp_get, h.fileOf]

/-- A file that can be opened is the only one. -/
theorem openMemory_opens (h : Lifetime s held) (path : String) : (openMemory path).wp (.free Mm)
    (fun r s' _ => ∀ fd, r = .ok fd → s'.Opened fd) s () := by
  rw [openMemory, wp_bind]
  refine wp_linux trivial fun (r : Except Errno Fd) _ => ?_
  cases r with
  | error e => simp
  | ok fd =>
    dsimp only
    rw [openFile, wp_bind, wp_bind, wp_get, wp_ite]
    split
    · -- the device is not registered
      simp
    rw [wp_bind, wp_onMemory, hyperMemoryOpen, wp_bind, wp_get, wp_ite]
    split
    · -- it is no longer live
      simp
    rw [wp_ite]
    split
    · -- another file is open
      simp
    rename_i hopened
    -- so this file is the only one
    have hfiles : s.files = [] := by
      have hclosed := h.opened
      rw [h.dynamic, Bool.true_and, Bool.not_eq_true] at hopened
      rw [hopened] at hclosed
      simpa using hclosed
    rw [wp_bind, wp_modify, wp_pure]
    dsimp only
    rw [wp_bind, wp_modify, wp_pure]
    intro fd' hfd
    obtain rfl := Except.ok.inj hfd
    refine ⟨h.dynamic, ?_⟩
    show s.files ++ _ = _
    rw [hfiles, List.nil_append]

theorem memoryCall_openMemory (path : String) :
    memoryCall path (.openNode (.memory path)) = openMemory path := if_pos rfl

theorem infoFile_state : (infoFile 0).wp (.free Mm) (fun _ s' _ => s' = s) s () := by
  rw [infoFile, ioctlFile, wp_bind, wp_bind, wp_get, wp_ite]
  split
  · rfl
  rw [wp_onMemory, hyperMemoryIoctl, wp_bind, wp_get, wp_ite]
  split
  · rfl
  rw [ioctlMemoryInfo, wp_bind, wp_get, wp_bind]
  refine MemoryDriver.wp_call trivial fun (r : Outcome) _ => ?_
  rw [wp_ite]
  split <;> rfl

/-- What the device holds once it is prepared. -/
structure GrantHeld (prepare : MemoryPrepare) (fd : Fd) (start stop : UInt64) (s : MemoryDevice) :
    Prop where
  opened : s.Opened fd
  pfns : s.memory.pfns = some (prepare.aliases.map fun (address : UInt64) => address >>> 12)
  length : prepare.length.toNat = 4096 * prepare.aliases.length
  aperture : ∀ address ∈ prepare.aliases, InAperture start stop address.toNat

theorem prepareFile_grants {prepare : MemoryPrepare} {start stop : UInt64} (h : s.Opened fd)
    (haperture : s.memory.HasAperture start stop) :
    (commandFile 0 (.memoryPrepare prepare)).wp (.free Mm)
      (fun r s' _ => r = .ok → GrantHeld prepare fd start stop s') s () := by
  rw [commandFile, ioctlFile, wp_bind, wp_bind, wp_get, if_neg (by simp [h.hasDescriptor]),
    wp_onMemory, hyperMemoryIoctl, wp_bind]
  refine MemoryDriver.wp_call trivial fun (r : Outcome) _ => ?_
  rw [wp_ite]
  split
  · simp
  rw [wp_bind, wp_get, wp_ite]
  split
  · simp
  rw [ioctlMemoryPrepare, wp_bind]
  refine wp_mono (wp_drop (hyperMemoryPrepare_refs h.1) fun _ _ _ => trivial) ?_
  intro r memory' _ hpost
  obtain ⟨held, -, hok⟩ := hpost
  cases r with
  | error e => simp [Except.map]
  | ok done =>
    intro _
    have hprepared := hok rfl
    have hstate := hprepared.state
    refine ⟨⟨?_, h.2⟩, ?_, ?_, fun address haddress => ?_⟩
    · exact (congrArg GuestMemory.dynamic hstate).trans h.1
    · exact congrArg GuestMemory.pfns hstate
    · rw [hprepared.length, hprepared.count]
    · rw [← haperture.1, ← haperture.2]
      exact hprepared.aperture address haddress

end Calls

/-! ## The mapping -/

/-- The pages of an area that begins at `address`, with the addresses they are inserted at. -/
def placedPages (address : UInt64) (frames : List UInt64) : List (UInt64 × UInt64) :=
  frames.mapIdx fun k frame => (address + .ofNat (4096 * k), frame)

/-- The mapping loop inserts the frames of consecutive pages at consecutive addresses. -/
theorem insertPages_places {memory : GuestMemory} (vma : Vma) (rounds : Nat) (index : UInt64)
    (inserted : List UInt64) (es : List (Event Mm)) : (insertPages vma rounds index inserted).wp
      (.history Mm) (fun r memory' es' => memory' = memory ∧ reported es' = reported es ∧
        ∀ frames, r = .ok frames → ∃ more : List (UInt64 × UInt64),
          frames = inserted ++ more.map Prod.snd ∧ insertions es' = insertions es ++ more ∧
          more = (List.range rounds).map fun j => (vma.start + ((index + .ofNat j) <<< 12),
            memory.frame vma.pgoff (index + .ofNat j))) memory es := by
  induction rounds generalizing index inserted es with
  | zero =>
    refine ⟨rfl, rfl, fun frames h => ⟨[], ?_, ?_, rfl⟩⟩
    · rw [← Except.ok.inj h, List.map_nil, List.append_nil]
    · rw [List.append_nil]
  | succ rounds ih =>
    rw [insertPages, wp_bind, wp_get, wp_bind]
    refine MemoryDriver.wp_call trivial fun (r : Except KernelError Unit) _ => ?_
    -- the page of this round
    let e : Event Mm :=
      ⟨.vmInsertPage (vma.start + (index <<< 12)) (memory.frame vma.pgoff index), r⟩
    have hreported : reported (es ++ [e]) = reported es := by
      rw [reported_concat]
      exact List.append_nil _
    cases r with
    | error error =>
      -- the page could not be inserted
      refine ⟨rfl, hreported, fun frames h => ?_⟩
      cases h
    | ok done =>
      refine wp_mono (ih (index + 1) (inserted ++ [memory.frame vma.pgoff index]) (es ++ [e])) ?_
      intro r memory' es' hpost
      obtain ⟨rfl, hreported', hframes⟩ := hpost
      refine ⟨rfl, hreported'.trans hreported, fun frames h => ?_⟩
      obtain ⟨more, hmore, hinsertions, hpages⟩ := hframes frames h
      -- the rounds behind this one have the next indices
      have hindex (j : Nat) : index + 1 + UInt64.ofNat j = index + UInt64.ofNat (j + 1) := by
        rw [UInt64.ofNat_add, UInt64.add_assoc, UInt64.add_comm 1]
        rfl
      have hfirst : index + UInt64.ofNat 0 = index := UInt64.add_zero index
      refine ⟨(vma.start + (index <<< 12), memory'.frame vma.pgoff index) :: more, ?_, ?_, ?_⟩
      · rw [hmore, List.map_cons, List.append_assoc, List.singleton_append]
      · rw [hinsertions, insertions_concat, List.append_assoc]
        rfl
      · rw [hpages, List.range_succ_eq_map, List.map_cons, List.map_map, hfirst]
        simp only [hindex, Function.comp_def]

theorem shiftLeft_eq_ofNat_mul (k : Nat) : UInt64.ofNat k <<< 12 = UInt64.ofNat (4096 * k) := by
  rw [← UInt64.toNat_inj, UInt64.toNat_shiftLeft, UInt64.toNat_ofNat', UInt64.toNat_ofNat',
    Nat.shiftLeft_eq]
  show k % 2 ^ 64 * 2 ^ 12 % 2 ^ 64 = 4096 * k % 2 ^ 64
  rw [Nat.mul_comm 4096 k, Nat.mod_mul_mod]

/-- What the loop inserts for an area at the beginning of the file is all of its frames. -/
theorem range_map_frame {memory : GuestMemory} {frames : List UInt64} (address : UInt64)
    (hdynamic : memory.dynamic = true) (hpfns : memory.pfns = some frames)
    (hfits : frames.length < 2 ^ 64) :
    ((List.range frames.length).map fun j => (address + (((0 : UInt64) + .ofNat j) <<< 12),
      memory.frame 0 (0 + .ofNat j))) = placedPages address frames := by
  rw [placedPages, List.mapIdx_eq_zipIdx_map, List.zipIdx_eq_zip_range']
  refine List.ext_getElem (by simp) fun k hk hk' => ?_
  simp only [List.length_map, List.length_range] at hk
  have hindex : ((0 : UInt64) + UInt64.ofNat k).toNat = k := by
    rw [UInt64.zero_add, UInt64.toNat_ofNat_of_lt' (show k < 2 ^ 64 by omega)]
  have hframe : memory.frame 0 (0 + .ofNat k) = frames[k] := by
    rw [GuestMemory.frame, if_pos hdynamic, hpfns, Option.getD_some, UInt64.zero_add, hindex,
      List.getD_eq_getElem?_getD, List.getElem?_eq_getElem hk, Option.getD_some]
  simp only [List.getElem_map, List.getElem_range, hframe]
  rw [UInt64.zero_add, shiftLeft_eq_ofNat_mul]
  simp

theorem mapFile_maps {s : MemoryDevice} {es : List (Event Mm)} {fd : Fd} {frames : List UInt64}
    {length : UInt64} (h : s.Opened fd) (hpfns : s.memory.pfns = some frames)
    (hlength : (length.toNat + 4095) / 4096 = frames.length) :
    (mapFile 0 fd length).wp (.history Mm) (fun r s' es' => reported es' = reported es ∧
      (r = none → s'.areas = []) ∧ ∀ address, r = some address →
        s'.areas = [⟨address, 0, frames⟩] ∧
          insertions es' = insertions es ++ placedPages address frames) s es := by
  have hareas : s.areas = [] := by
    rw [MemoryDevice.areas, h.2]
    rfl
  -- what fails leaves nothing mapped
  have hnone (es' : List (Event Mm)) (hreported : reported es' = reported es) :
      reported es' = reported es ∧ ((none : Option UInt64) = none → s.areas = []) ∧
        ∀ address, none = some address → s.areas = [⟨address, 0, frames⟩] ∧
          insertions es' = insertions es ++ placedPages address frames :=
    ⟨hreported, fun _ => hareas, by simp⟩
  rw [mapFile, wp_bind]
  refine wp_linux trivial fun (r : Option UInt64) _ => ?_
  let e : Event Mm := ⟨.linux (.mmap fd length), r⟩
  have hquiet : Quiet es (es ++ [e]) := (Quiet.refl es).concat rfl
  cases r with
  -- there is no room in the address space
  | none => exact hnone _ hquiet.1
  | some address =>
    dsimp only
    rw [mmapFile, wp_bind, wp_bind, wp_get, if_neg (by simp [h.hasDescriptor]), wp_bind,
      wp_onMemory, hyperMemoryMmap, wp_ite]
    split
    · -- the area is not shared, or is executable
      exact hnone _ hquiet.1
    rw [wp_bind, wp_get, wp_ite]
    split
    · -- it is longer than the region
      exact hnone _ hquiet.1
    rw [wp_ite]
    split
    · -- the device is no longer live
      exact hnone _ hquiet.1
    rw [wp_bind]
    refine wp_mono (insertPages_places _ _ 0 [] (es ++ [e])) fun r memory' es' hpost => ?_
    obtain ⟨rfl, hreported, hframes⟩ := hpost
    cases r with
    -- a page could not be inserted
    | error error => exact hnone _ (hreported.trans hquiet.1)
    | ok inserted =>
      obtain ⟨more, hmore, hinsertions, hpages⟩ := hframes inserted rfl
      have hlt := length.toNat_lt
      have hcount : (UInt64.ofNat ((length.toNat + 4095) / 4096)).toNat = frames.length := by
        rw [UInt64.toNat_ofNat_of_lt' (show (length.toNat + 4095) / 4096 < 2 ^ 64 by omega),
          hlength]
      rw [hcount, range_map_frame address h.1 hpfns (by omega)] at hpages
      -- the frames of the area are all the frames
      have hinserted : inserted = frames := by
        rw [hmore, hpages, List.nil_append, placedPages]
        exact List.ext_getElem (by simp) fun k _ _ => by simp
      rw [wp_bind, hyperVmaOpen, wp_modify, wp_pure]
      dsimp only
      rw [wp_bind, modifyFile, wp_modify, wp_pure]
      dsimp only
      rw [wp_pure]
      refine ⟨hreported.trans hquiet.1, by simp, fun address' haddress => ?_⟩
      obtain rfl := Option.some.inj haddress
      refine ⟨?_, ?_⟩
      · show List.flatMap _ (s.files.modify 0 _) = _
        rw [h.2, hinserted]
        rfl
      · rw [hinsertions, hpages, hquiet.2]

/-! ## What maps nothing -/

theorem Issues_plain_of_uses {α : Type} {m : Service α} (h : Uses [.common] m) :
    Issues (I := Sys) (fun c => Call.plain c = true) m :=
  Issues.mono h fun c hc => by
    cases c <;> first | rfl | exact absurd hc (by simp)

/-- A release neither asks for an extent nor maps. -/
theorem rollbackMemory_plain :
    Issues (I := Sys) (fun c => Call.plain c = true) rollbackMemory := by
  have hquiesce : Issues (I := Sys) (fun c => Call.plain c = true) quiesceAll :=
    .bind (Issues_plain_of_uses quiesceDisk_uses) fun _ =>
      .bind (Issues_plain_of_uses quiesceNetwork_uses) fun _ => .pure _
  have hunmap : Issues (I := Sys) (fun c => Call.plain c = true) unmapMemory := by
    refine .bind .get fun b => ?_
    cases b.memory with
    | none => exact .pure _
    | some address =>
      exact .bind (.perform rfl) fun _ => .ite (.pure _) <| .bind (.modify _) fun _ => .pure _
  have hclose : Issues (I := Sys) (fun c => Call.plain c = true) closeMemory := by
    refine .bind .get fun b => ?_
    cases b.memoryFd with
    | none => exact .pure _
    | some fd =>
      exact .bind (.ite (.ioctl _ fun _ => rfl) (.pure _)) fun _ => .ite (.pure _) <|
        .bind (.perform rfl) fun _ => .bind (.modify _) fun _ => .pure _
  have hretire : Issues (I := Sys) (fun c => Call.plain c = true) retireToken :=
    .bind .get fun _ => .ite (.pure _) (.ioctl _ fun _ => rfl)
  have hrelease : Issues (I := Sys) (fun c => Call.plain c = true) releaseMemory :=
    .bind hquiesce fun _ => .ite (.pure _) <| .bind hunmap fun _ => .ite (.pure _) <|
      .bind hclose fun _ => .ite (.pure _) <| .bind hretire fun _ => .ite (.pure _) <|
        .bind (.modify _) fun _ => .pure _
  exact .bind hrelease fun _ => .pure _

/-- The files map these areas at most. -/
def MapsWithin (areas : List MemoryArea) (files : List OpenFile) : Prop :=
  files.flatMap (·.areas) ⊆ areas

theorem flatMap_modify_subset {f : OpenFile → OpenFile} (hf : ∀ o, (f o).areas ⊆ o.areas)
    (files : List OpenFile) (file : Nat) :
    (files.modify file f).flatMap (·.areas) ⊆ files.flatMap (·.areas) := by
  intro a ha
  obtain ⟨o, ho, ha⟩ := List.mem_flatMap.mp ha
  obtain ⟨i, hi⟩ := List.mem_iff_getElem?.mp ho
  rw [List.getElem?_modify] at hi
  obtain ⟨o', ho', rfl⟩ := Option.map_eq_some_iff.mp hi
  refine List.mem_flatMap.mpr ⟨o', List.mem_of_getElem? ho', ?_⟩
  split at ha
  · exact hf o' ha
  · exact ha

theorem mapsWithin_shrinking (areas : List MemoryArea) : Shrinking (MapsWithin areas) where
  opened files fd h := by
    rw [MapsWithin, List.flatMap_append]
    simpa [MapsWithin] using h
  closed files file h := by
    refine List.Subset.trans (flatMap_modify_subset (fun o => ?_) files file) h
    exact List.Subset.refl o.areas
  unmapped files file area h := by
    refine List.Subset.trans (flatMap_modify_subset (fun o => ?_) files file) h
    exact List.eraseIdx_subset
  released files file h := by
    intro a ha
    obtain ⟨o, ho, ha⟩ := List.mem_flatMap.mp ha
    exact h (List.mem_flatMap.mpr ⟨o, List.eraseIdx_subset ho, ha⟩)

/-- The state of the device and of the events after calls that map nothing. -/
abbrev NothingMapped (start stop : UInt64) (areas : List MemoryArea) (es : List (Event Mm))
    (s : MemoryDevice) (es' : List (Event Mm)) : Prop :=
  s.memory.HasAperture start stop ∧ MapsWithin areas s.files ∧ Quiet es es'

theorem plain_unmapped {start stop : UInt64} {areas : List MemoryArea} {es : List (Event Mm)}
    (path : String) {c : Call} (hc : c.plain = true) :
    Keeps (.history Mm) (NothingMapped start stop areas es) (memoryCall path c) :=
  memoryCall_keeps (mapsWithin_shrinking areas)
    (fun _ hquiet _ hk => ⟨trivial, fun _ _ => hk.concat hquiet⟩) path hc

/-- A preparation that is given up has mapped nothing. -/
theorem rollbackMemory_unmapped {start stop : UInt64} {areas : List MemoryArea}
    {es es' : List (Event Mm)} {b : Backend} {s : MemoryDevice} {path : String}
    (h : NothingMapped start stop areas es s es') :
    (rollbackMemory.layered (overMemory path)).wp (.history Mm)
      (fun r st es' => NothingMapped start stop areas es st.2 es' ∧ r ≠ .ok) (b, s) es' := by
  refine Issues.wp_layered (h := overMemory path) (R := fun r _ => r ≠ .ok) rollbackMemory_plain ?_
    (fun c hc => plain_unmapped path hc) h
  rw [rollbackMemory, wp_bind]
  refine wp_mono (wp_free (Q := fun _ _ => True) fun _ _ => trivial) fun r b' _ _ => ?_
  rw [wp_pure]
  split <;> simp

end HyperIoVm
