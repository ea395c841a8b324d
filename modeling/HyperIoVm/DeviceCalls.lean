import HyperIoVm.Effects.Issues
import HyperIoVm.MemoryService
import HyperIoVm.Teardown

/-!
# What the device calls, and what it leaves alone

The extents that the host reports and the pages that the driver inserts, read off the events of a
run. No function of the driver changes the aperture, and only `mmap` inserts pages.
-/

namespace HyperIoVm

open Effects Routine MemoryDriver MemorySystem

/-! ## What is read off the events -/

/-- The extent that an event reports. -/
def reportedBy : Event Mm → Option Extent
  | ⟨.linux (.extent _ _), r⟩ => r
  | _ => none

/-- The address and the page frame that an event inserts. -/
def insertedBy : Event Mm → Option (UInt64 × UInt64)
  | ⟨.vmInsertPage address pfn, .ok ()⟩ => some (address, pfn)
  | _ => none

/-- The extents that the host reported, in order. -/
def reported (es : List (Event Mm)) : List Extent := es.filterMap reportedBy

/-- The pages that the driver inserted, in order. -/
def insertions (es : List (Event Mm)) : List (UInt64 × UInt64) := es.filterMap insertedBy

/-- The call neither reports an extent nor inserts a page. -/
def MmCall.quiet : MmCall → Bool
  | .linux (.extent _ _) | .vmInsertPage _ _ => false
  | _ => true

/-- No extent was reported and no page inserted since `es`. -/
def Quiet (es es' : List (Event Mm)) : Prop :=
  reported es' = reported es ∧ insertions es' = insertions es

theorem Quiet.refl (es : List (Event Mm)) : Quiet es es := ⟨rfl, rfl⟩

theorem Quiet.trans {es es' es'' : List (Event Mm)} (h : Quiet es es') (h' : Quiet es' es'') :
    Quiet es es'' := ⟨h'.1.trans h.1, h'.2.trans h.2⟩

theorem reported_concat (es : List (Event Mm)) (e : Event Mm) :
    reported (es ++ [e]) = reported es ++ (reportedBy e).toList := by
  rw [reported, List.filterMap_append, reported]
  cases h : reportedBy e <;> simp [h]

theorem insertions_concat (es : List (Event Mm)) (e : Event Mm) :
    insertions (es ++ [e]) = insertions es ++ (insertedBy e).toList := by
  rw [insertions, List.filterMap_append, insertions]
  cases h : insertedBy e <;> simp [h]

theorem Quiet.concat {es es' : List (Event Mm)} {c : MmCall} {r : c.Reply} (h : Quiet es es')
    (hc : c.quiet = true) : Quiet es (es' ++ [⟨c, r⟩]) := by
  have hreported : reportedBy ⟨c, r⟩ = none := by
    cases c with
    | linux c => cases c <;> first | rfl | exact absurd hc Bool.false_ne_true
    | _ => rfl
  have hinserted : insertedBy ⟨c, r⟩ = none := by
    cases c with
    | vmInsertPage address pfn => exact absurd hc Bool.false_ne_true
    | _ => rfl
  refine ⟨?_, ?_⟩
  · rw [reported_concat, hreported, Option.toList_none, List.append_nil, h.1]
  · rw [insertions_concat, hinserted, Option.toList_none, List.append_nil, h.2]

/-! ## The driver -/

/-- The device has this aperture. -/
def GuestMemory.HasAperture (start stop : UInt64) (memory : GuestMemory) : Prop :=
  memory.apertureStart = start ∧ memory.apertureEnd = stop

section Driver

variable {K : Type} {C : Contract Mm K} {J : K → Prop} {start stop : UInt64}

/-- The contract allows the call, and `J` is true after it. -/
def Tolerates (C : Contract Mm K) (J : K → Prop) (c : MmCall) : Prop :=
  ∀ k, J k → C.allows k c ∧ ∀ r, C.assumes k c r → J (C.next k c r)

/-- The function keeps the aperture, and what its calls keep. -/
abbrev KeepsAperture (C : Contract Mm K) (J : K → Prop) (start stop : UInt64) {α : Type}
    (m : MemoryDriver α) : Prop :=
  Keeps C (fun memory k => memory.HasAperture start stop ∧ J k) m

theorem keepsAperture_call {c : MmCall} (h : Tolerates C J c) :
    KeepsAperture C J start stop (MemoryDriver.call c) := fun _ k hk =>
  MemoryDriver.wp_call (h k hk.2).1 fun r hr => ⟨hk.1, (h k hk.2).2 r hr⟩

theorem keepsAperture_modify {f : GuestMemory → GuestMemory}
    (hstart : ∀ memory, (f memory).apertureStart = memory.apertureStart)
    (hend : ∀ memory, (f memory).apertureEnd = memory.apertureEnd) :
    KeepsAperture C J start stop (modify f) :=
  keeps_modify fun memory _ h => ⟨⟨(hstart memory).trans h.1.1, (hend memory).trans h.1.2⟩, h.2⟩

section Quiet

variable (hquiet : ∀ c : MmCall, c.quiet = true → Tolerates C J c)

include hquiet

theorem hyperGranulesPut_keeps (owned : List GranulePtr) :
    KeepsAperture C J start stop (hyperGranulesPut owned) := by
  cases owned with
  | nil => exact keeps_pure _
  | cons granule owned => exact keepsAperture_call (hquiet _ rfl)

theorem hyperMemoryUnprepare_keeps : KeepsAperture C J start stop hyperMemoryUnprepare :=
  keeps_bind keeps_get fun _ => keeps_bind (hyperGranulesPut_keeps hquiet _) fun _ =>
    keepsAperture_modify (fun _ => rfl) fun _ => rfl

theorem krefPut_keeps : KeepsAperture C J start stop krefPut := by
  have hdestroy : KeepsAperture C J start stop hyperMemoryDestroy :=
    keeps_bind (hyperMemoryUnprepare_keeps hquiet) fun _ => keeps_bind keeps_get fun _ =>
      keeps_bind (keeps_forM fun _ => keepsAperture_call (hquiet _ rfl)) fun _ =>
        keepsAperture_modify (fun _ => rfl) fun _ => rfl
  exact keeps_bind (keepsAperture_modify (fun _ => rfl) fun _ => rfl) fun _ =>
    keeps_bind keeps_get fun _ => keeps_ite (fun _ => hdestroy) fun _ => keeps_pure _

theorem hyperMemoryRelease_keeps : KeepsAperture C J start stop hyperMemoryRelease :=
  keeps_bind keeps_get fun _ =>
    keeps_bind (keeps_ite (fun _ => hyperMemoryUnprepare_keeps hquiet) fun _ => keeps_pure _)
      fun _ => keeps_bind (keepsAperture_modify (fun _ => rfl) fun _ => rfl) fun _ =>
        krefPut_keeps hquiet

theorem acquireGranules_keeps (indices : List UInt64) (owned : List GranulePtr) :
    KeepsAperture C J start stop (acquireGranules indices owned) := by
  induction indices generalizing owned with
  | nil => exact keeps_pure _
  | cons index indices ih =>
    refine keeps_bind (keepsAperture_call (hquiet _ rfl)) fun r => ?_
    cases r with
    | error e => exact keeps_bind (hyperGranulesPut_keeps hquiet _) fun _ => keeps_pure _
    | ok granule => exact ih _

theorem admitPages_keeps (prepare : MemoryPrepare) (aliases : List UInt64) :
    KeepsAperture C J start stop (admitPages prepare aliases) := by
  refine keeps_ite (fun _ => keeps_pure _) fun _ => keeps_bind keeps_get fun _ =>
    keeps_ite (fun _ => keeps_pure _) fun _ =>
      keeps_bind (keepsAperture_call (hquiet _ rfl)) fun _ =>
        keeps_ite (fun _ => keeps_pure _) fun _ =>
          keeps_bind (acquireGranules_keeps hquiet _ _) fun r => ?_
  cases r with
  | error e => exact keeps_pure _
  | ok owned =>
    exact keeps_bind (keepsAperture_modify (fun _ => rfl) fun _ => rfl) fun _ => keeps_pure _

theorem copyAliases_keeps (prepare : MemoryPrepare) :
    KeepsAperture C J start stop (copyAliases prepare) := by
  refine keeps_bind (keepsAperture_call (hquiet _ rfl)) fun _ => ?_
  cases prepare.pages with
  | none => exact keeps_pure _
  | some pages => exact keeps_ite (fun _ => keeps_pure _) fun _ => keeps_pure _

theorem hyperMemoryPrepare_keeps (prepare : MemoryPrepare) :
    KeepsAperture C J start stop (hyperMemoryPrepare prepare) := by
  have hmalloc (count : Nat) : KeepsAperture C J start stop (kvmallocArray count) :=
    keepsAperture_call (hquiet _ rfl)
  refine keeps_ite (fun _ => keeps_pure _) fun _ => keeps_bind keeps_get fun _ =>
    keeps_ite (fun _ => keeps_pure _) fun _ => keeps_ite (fun _ => keeps_pure _) fun _ =>
      keeps_ite (fun _ => keeps_pure _) fun _ =>
        keeps_bind (hmalloc _) fun _ => keeps_bind (hmalloc _) fun _ =>
          keeps_bind (hmalloc _) fun _ => keeps_ite (fun _ => keeps_pure _) fun _ =>
            keeps_bind (copyAliases_keeps hquiet prepare) fun aliases => ?_
  cases aliases with
  | none => exact keeps_pure _
  | some aliases => exact admitPages_keeps hquiet prepare aliases

theorem hyperMemoryIoctl_keeps (command : MemoryCommand) :
    KeepsAperture C J start stop (hyperMemoryIoctl command) := by
  cases command with
  | unknown => exact keeps_pure _
  | prepare prepare =>
    exact keeps_bind (keepsAperture_call (hquiet _ rfl)) fun _ =>
      keeps_ite (fun _ => keeps_pure _) fun _ => keeps_bind keeps_get fun _ =>
        keeps_ite (fun _ => keeps_pure _) fun _ =>
          keeps_bind (hyperMemoryPrepare_keeps hquiet prepare) fun _ => keeps_pure _
  | release =>
    exact keeps_bind keeps_get fun _ => keeps_ite (fun _ => keeps_pure _) fun _ =>
      keeps_bind keeps_get fun _ => keeps_ite (fun _ => keeps_pure _) fun _ =>
        keeps_bind (hyperMemoryUnprepare_keeps hquiet) fun _ => keeps_pure _
  | info =>
    exact keeps_bind keeps_get fun _ => keeps_ite (fun _ => keeps_pure _) fun _ =>
      keeps_bind keeps_get fun _ => keeps_bind (keepsAperture_call (hquiet _ rfl)) fun _ =>
        keeps_ite (fun _ => keeps_pure _) fun _ => keeps_pure _

end Quiet

theorem hyperMemoryOpen_keeps : KeepsAperture C J start stop hyperMemoryOpen :=
  keeps_bind keeps_get fun _ => keeps_ite (fun _ => keeps_pure _) fun _ =>
    keeps_ite (fun _ => keeps_pure _) fun _ =>
      keeps_bind (keepsAperture_modify (fun _ => rfl) fun _ => rfl) fun _ => keeps_pure _

theorem hyperMemoryMmap_keeps (hcall : ∀ c : MmCall, Tolerates C J c) (vma : Vma) :
    KeepsAperture C J start stop (hyperMemoryMmap vma) := by
  have hinsert (rounds : Nat) (index : UInt64) (inserted : List UInt64) :
      KeepsAperture C J start stop (insertPages vma rounds index inserted) := by
    induction rounds generalizing index inserted with
    | zero => exact keeps_pure _
    | succ rounds ih =>
      refine keeps_bind keeps_get fun _ => keeps_bind (keepsAperture_call (hcall _)) fun r => ?_
      cases r with
      | error e => exact keeps_pure _
      | ok done => exact ih _ _
  refine keeps_ite (fun _ => keeps_pure _) fun _ => keeps_bind keeps_get fun _ =>
    keeps_ite (fun _ => keeps_pure _) fun _ => keeps_ite (fun _ => keeps_pure _) fun _ =>
      keeps_bind (hinsert _ _ _) fun r => ?_
  cases r with
  | error e => exact keeps_pure _
  | ok frames =>
    exact keeps_bind (keepsAperture_modify (fun _ => rfl) fun _ => rfl) fun _ => keeps_pure _

end Driver

/-! ## The device -/

/-- A property of the files that no call but a mapping can end. -/
structure Shrinking (P : List OpenFile → Prop) : Prop where
  opened : ∀ files fd, P files → P (files ++ [{ descriptor := some fd }])
  closed : ∀ files file, P files → P (files.modify file fun f => { f with descriptor := none })
  unmapped : ∀ files file area, P files →
    P (files.modify file fun f => { f with areas := f.areas.eraseIdx area })
  released : ∀ files file, P files → P (files.eraseIdx file)

section Device

variable {K : Type} {C : Contract Mm K} {P : List OpenFile → Prop} {J : K → Prop}
  {start stop : UInt64} {α : Type}

/-- The operation keeps the aperture, `P` of the files, and what its calls keep. -/
abbrev DeviceKeeps (C : Contract Mm K) (P : List OpenFile → Prop) (J : K → Prop)
    (start stop : UInt64) {α : Type} (m : MemorySystem α) : Prop :=
  Keeps C (fun s k => s.memory.HasAperture start stop ∧ P s.files ∧ J k) m

theorem onMemory_keeps {m : MemoryDriver α} (h : KeepsAperture C J start stop m) :
    DeviceKeeps C P J start stop (onMemory m) := by
  intro s k hs
  rw [wp_onMemory]
  refine wp_mono (h s.memory k ⟨hs.1, hs.2.2⟩) fun a memory k' hpost => ?_
  exact ⟨hpost.1, hs.2.1, hpost.2⟩

theorem modifyFiles_keeps {f : List OpenFile → List OpenFile} (h : ∀ files, P files → P (f files)) :
    DeviceKeeps C P J start stop (modify fun s => { s with files := f s.files }) :=
  keeps_modify fun s _ hs => ⟨hs.1, h s.files hs.2.1, hs.2.2⟩

theorem linux_keeps {c : Call} (h : Tolerates C J (.linux c)) :
    DeviceKeeps C P J start stop (MemorySystem.linux c) := fun _ k hk =>
  ⟨(h k hk.2.2).1, fun r hr => ⟨hk.1, hk.2.1, (h k hk.2.2).2 r hr⟩⟩

section Shrinking

variable (hshrinking : Shrinking P)

include hshrinking

theorem openFile_keeps (fd : Fd) : DeviceKeeps C P J start stop (openFile fd) := by
  refine keeps_bind keeps_get fun _ => keeps_ite (fun _ => keeps_pure _) fun _ =>
    keeps_bind (onMemory_keeps hyperMemoryOpen_keeps) fun r => ?_
  cases r with
  | error e => exact keeps_pure _
  | ok opened =>
    exact keeps_bind (modifyFiles_keeps fun _ h => hshrinking.opened _ fd h) fun _ => keeps_pure _

theorem closeFile_keeps (file : Nat) : DeviceKeeps C P J start stop (closeFile file) :=
  keeps_bind (modifyFiles_keeps fun _ h => hshrinking.closed _ file h) fun _ => keeps_pure _

theorem closeArea_keeps (file area : Nat) :
    DeviceKeeps C P J start stop (closeArea file area) := by
  refine keeps_bind keeps_get fun s => ?_
  cases s.files[file]?.bind (·.areas[area]?) with
  | none => exact keeps_pure _
  | some a =>
    exact keeps_bind (onMemory_keeps (keepsAperture_modify (fun _ => rfl) fun _ => rfl)) fun _ =>
      keeps_bind (modifyFiles_keeps fun _ h => hshrinking.unmapped _ file area h) fun _ =>
        keeps_pure _

variable (hquiet : ∀ c : MmCall, c.quiet = true → Tolerates C J c)

include hquiet

theorem releaseFile_keeps (file : Nat) : DeviceKeeps C P J start stop (releaseFile file) := by
  refine keeps_bind keeps_get fun s => ?_
  cases s.files[file]? with
  | none => exact keeps_pure _
  | some f =>
    exact keeps_ite (fun _ => keeps_pure _) fun _ =>
      keeps_bind (onMemory_keeps (hyperMemoryRelease_keeps hquiet)) fun _ =>
        keeps_bind (modifyFiles_keeps fun _ h => hshrinking.released _ file h) fun _ =>
          keeps_pure _

omit hshrinking in
theorem ioctlFile_keeps (file : Nat) (command : MemoryCommand) :
    DeviceKeeps C P J start stop (ioctlFile file command) :=
  keeps_bind keeps_get fun _ => keeps_ite (fun _ => keeps_pure _) fun _ =>
    onMemory_keeps (hyperMemoryIoctl_keeps hquiet command)

/-- The call neither reports an extent nor maps the device. -/
def Call.plain : Call → Bool
  | .extent _ _ | .mmap _ _ => false
  | _ => true

/-- Whatever the service calls, but `mmap` and the ioctl for an extent, it maps nothing new. -/
theorem memoryCall_keeps (path : String) {c : Call} (hc : c.plain = true) :
    DeviceKeeps C P J start stop (memoryCall path c) := by
  have hlinux (c : Call) (hc : (MmCall.linux c).quiet = true) :
      DeviceKeeps C P J start stop (MemorySystem.linux c) := linux_keeps (hquiet _ hc)
  have hfile (fd : Fd) (c : Call) (m : Nat → MemorySystem c.Reply)
      (hc : (MmCall.linux c).quiet = true) (hm : ∀ file, DeviceKeeps C P J start stop (m file)) :
      DeviceKeeps C P J start stop (onFile fd c m) := by
    refine keeps_bind keeps_get fun s => ?_
    cases s.fileOf fd with
    | none => exact hlinux c hc
    | some file => exact hm file
  cases c with
  | openNode node =>
    refine keeps_ite (fun _ => keeps_bind (hlinux _ rfl) fun r => ?_) fun _ => hlinux _ rfl
    cases r with
    | error e => exact keeps_pure _
    | ok fd =>
      refine keeps_bind (openFile_keeps hshrinking fd) fun r => ?_
      cases r <;> exact keeps_pure _
  | ioctl fd command =>
    exact hfile fd _ _ rfl fun file =>
      keeps_bind (ioctlFile_keeps hquiet file _) fun _ => keeps_pure _
  | memoryInfo fd =>
    refine hfile fd _ _ rfl fun file => keeps_bind (ioctlFile_keeps hquiet file _) fun r => ?_
    cases r <;> exact keeps_pure _
  | munmap address length =>
    refine keeps_bind keeps_get fun s => ?_
    cases s.areaAt address length with
    | none => exact hlinux _ rfl
    | some found =>
      exact keeps_bind (hlinux _ rfl) fun _ => keeps_ite (fun _ => keeps_pure _) fun _ =>
        keeps_bind (closeArea_keeps hshrinking _ _) fun _ =>
          keeps_bind (releaseFile_keeps hshrinking hquiet _) fun _ => keeps_pure _
  | close fd =>
    exact hfile fd _ _ rfl fun file => keeps_bind (hlinux _ rfl) fun _ =>
      keeps_bind (closeFile_keeps hshrinking file) fun _ =>
        keeps_bind (releaseFile_keeps hshrinking hquiet file) fun _ => keeps_pure _
  | extent fd index => exact absurd hc Bool.false_ne_true
  | mmap fd length => exact absurd hc Bool.false_ne_true
  | _ => exact hlinux _ rfl

end Shrinking

/-- No step of the device changes its aperture. -/
theorem DeviceStep.keepsAperture (hcall : ∀ c : MmCall, Tolerates C J c)
    (hfiles : ∀ files, P files) (step : DeviceStep) :
    DeviceKeeps C P J start stop step.run := by
  have hquiet (c : MmCall) (_ : c.quiet = true) : Tolerates C J c := hcall c
  have hshrinking : Shrinking P := ⟨fun _ _ _ => hfiles _, fun _ _ _ => hfiles _,
    fun _ _ _ _ => hfiles _, fun _ _ _ => hfiles _⟩
  cases step with
  | openFile fd => exact openFile_keeps hshrinking fd
  | ioctl file command =>
    exact keeps_bind (ioctlFile_keeps hquiet file command) fun _ => keeps_pure _
  | mmap file vma =>
    refine keeps_bind keeps_get fun _ => keeps_ite (fun _ => keeps_pure _) fun _ =>
      keeps_bind (onMemory_keeps (hyperMemoryMmap_keeps hcall vma)) fun r => ?_
    cases r with
    | error e => exact keeps_pure _
    | ok frames => exact keeps_bind (modifyFiles_keeps fun _ _ => hfiles _) fun _ => keeps_pure _
  | openArea file area cut =>
    refine keeps_bind keeps_get fun s => ?_
    cases s.files[file]?.bind (·.areas[area]?) with
    | none => exact keeps_pure _
    | some a =>
      exact keeps_ite (fun _ => keeps_pure _) fun _ =>
        keeps_bind (onMemory_keeps (keepsAperture_modify (fun _ => rfl) fun _ => rfl)) fun _ =>
          keeps_bind (modifyFiles_keeps fun _ _ => hfiles _) fun _ => keeps_pure _
  | closeArea file area => exact closeArea_keeps hshrinking file area
  | closeFile file => exact closeFile_keeps hshrinking file
  | releaseFile file => exact releaseFile_keeps hshrinking hquiet file
  | beginRemove =>
    exact keeps_bind (onMemory_keeps (keepsAperture_modify (fun _ => rfl) fun _ => rfl)) fun _ =>
      keeps_pure _
  | endRemove =>
    exact keeps_bind keeps_get fun _ => keeps_ite (fun _ => keeps_pure _) fun _ =>
      keeps_bind (keeps_modify fun _ _ h => h) fun _ =>
        keeps_bind (onMemory_keeps (krefPut_keeps hquiet)) fun _ => keeps_pure _

theorem deviceRun_aperture (env : Environment Mm) (steps : List DeviceStep) :
    (deviceRun start stop env steps).1.memory.HasAperture start stop := by
  have hkeeps (step : DeviceStep) :
      DeviceKeeps (.free Mm) (fun _ => True) (fun _ => True) start stop step.run :=
    step.keepsAperture (fun _ _ _ => ⟨trivial, fun _ _ => trivial⟩) fun _ => trivial
  exact (points_keeps (p := (MemoryDevice.probed start stop, [])) (k := ())
    Contract.free_assumed (fun step _ => hkeeps step) trivial ⟨⟨rfl, rfl⟩, trivial, trivial⟩).2.1

end Device

end HyperIoVm
