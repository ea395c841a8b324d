import HyperIoVm.GuestMemory

/-!
# The guest-memory device and its files

When Linux runs the file operations of the guest-memory driver. An open file lives until its
descriptors and its memory areas are gone, since an area pins the file it maps; only then is it
released. An area can be duplicated (`fork`, `mremap`) and split (`munmap` or `mprotect` of a part
of it), and each new area is opened.
-/

namespace HyperIoVm

open Effects

/-- A memory area of the device: where it begins, and the page frames inserted into it, the first
of them for page `pgoff` of the file. -/
structure MemoryArea where
  start : UInt64
  pgoff : UInt64
  frames : List UInt64
  deriving DecidableEq, Repr

/-- An open file of the device, with the areas that map it. -/
structure OpenFile where
  /-- A descriptor of the file, `none` once all of them are closed. -/
  descriptor : Option Fd
  areas : List MemoryArea := []
  deriving DecidableEq, Repr

/-- The device as Linux sees it. -/
structure MemoryDevice where
  memory : GuestMemory
  /-- The miscdevice can be opened. -/
  registered : Bool := true
  files : List OpenFile := []
  deriving DecidableEq, Repr

/-- All memory areas of the device that are live. -/
def MemoryDevice.areas (s : MemoryDevice) : List MemoryArea := s.files.flatMap (·.areas)

/-- A dynamic device as `hyper_memory_probe` registers it. -/
def MemoryDevice.probed (start stop : UInt64) : MemoryDevice where
  memory := { dynamic := true, apertureStart := start, apertureEnd := stop }

/-- A computation of Linux and the driver over the device. -/
abbrev MemorySystem := Routine Mm MemoryDevice

namespace MemorySystem

/-- A file operation of the driver. -/
def onMemory {α : Type} (m : MemoryDriver α) : MemorySystem α := fun s => do
  let (a, memory) ← m.run s.memory
  return (a, { s with memory })

def modifyFile (file : Nat) (f : OpenFile → OpenFile) : MemorySystem Unit :=
  modify fun s => { s with files := s.files.modify file f }

end MemorySystem

open MemorySystem

/-! ## The steps -/

/-- `misc_open`. -/
def openFile (fd : Fd) : MemorySystem (Except KernelError Unit) := do
  if !(← get).registered then return .error .enodev
  match ← onMemory hyperMemoryOpen with
  | .error e => return .error e
  | .ok () => do
    modify fun s => { s with files := s.files ++ [{ descriptor := some fd }] }
    return .ok ()

/-- The file can be named by a descriptor. -/
def MemoryDevice.hasDescriptor (s : MemoryDevice) (file : Nat) : Bool :=
  (s.files[file]?.bind (·.descriptor)).isSome

/-- `ioctl` on a descriptor of the file. -/
def ioctlFile (file : Nat) (command : MemoryCommand) :
    MemorySystem (Except KernelError (Option MemoryInfo)) := do
  if !(← get).hasDescriptor file then return .error .other
  onMemory (hyperMemoryIoctl command)

/-- `mmap` of a descriptor of the file. Linux drops an area that could not be filled. -/
def mmapFile (file : Nat) (vma : Vma) : MemorySystem (Except KernelError Unit) := do
  if !(← get).hasDescriptor file then return .error .other
  match ← onMemory (hyperMemoryMmap vma) with
  | .error e => return .error e
  | .ok frames => do
    modifyFile file fun f => { f with areas := f.areas ++ [⟨vma.start, vma.pgoff, frames⟩] }
    return .ok ()

/-- The two areas that a split after `cut` pages leaves. -/
def MemoryArea.split (area : MemoryArea) (cut : Nat) : List MemoryArea :=
  [{ area with frames := area.frames.take cut },
    { start := area.start + .ofNat (4096 * cut), pgoff := area.pgoff + .ofNat cut,
      frames := area.frames.drop cut }]

/-- What replaces an area when a second one is made of it: `none` duplicates it, `some cut`
splits it after `cut` pages. -/
def MemoryArea.opened (area : MemoryArea) : (cut : Option Nat) → List MemoryArea
  | none => [area, area]
  | some cut => area.split cut

/-- A memory area is duplicated or split. Linux splits strictly inside an area. -/
def openArea (file area : Nat) (cut : Option Nat) : MemorySystem (Except KernelError Unit) := do
  match (← get).files[file]?.bind (·.areas[area]?) with
  | none => return .error .other
  | some a => do
    if cut.any fun cut => cut == 0 || cut ≥ a.frames.length then return .error .other
    onMemory hyperVmaOpen
    modifyFile file fun f => { f with
      areas := f.areas.take area ++ a.opened cut ++ f.areas.drop (area + 1) }
    return .ok ()

/-- A memory area is unmapped. -/
def closeArea (file area : Nat) : MemorySystem (Except KernelError Unit) := do
  match (← get).files[file]?.bind (·.areas[area]?) with
  | none => return .error .other
  | some _ => do
    onMemory hyperVmaClose
    modifyFile file fun f => { f with areas := f.areas.eraseIdx area }
    return .ok ()

/-- The last descriptor of the file is closed. -/
def closeFile (file : Nat) : MemorySystem (Except KernelError Unit) := do
  modifyFile file fun f => { f with descriptor := none }
  return .ok ()

/-- `__fput`: nothing refers to the file any more. -/
def releaseFile (file : Nat) : MemorySystem (Except KernelError Unit) := do
  match (← get).files[file]? with
  | none => return .error .other
  | some f => do
    if f.descriptor.isSome || !f.areas.isEmpty then return .error .other
    onMemory hyperMemoryRelease
    modify fun s => { s with files := s.files.eraseIdx file }
    return .ok ()

/-- The first part of `hyper_memory_remove`, under the lock. -/
def beginRemove : MemorySystem (Except KernelError Unit) := do
  onMemory (modify fun memory => { memory with live := false })
  return .ok ()

/-- The rest of `hyper_memory_remove`: `misc_deregister`, and the reference of the driver. -/
def endRemove : MemorySystem (Except KernelError Unit) := do
  let s ← get
  if s.memory.live || !s.registered then return .error .other
  modify fun s => { s with registered := false }
  onMemory krefPut
  return .ok ()

/-- What can happen to the device, in any order. -/
inductive DeviceStep where
  | openFile (fd : Fd)
  | ioctl (file : Nat) (command : MemoryCommand)
  | mmap (file : Nat) (vma : Vma)
  | openArea (file area : Nat) (cut : Option Nat)
  | closeArea (file area : Nat)
  | closeFile (file : Nat)
  | releaseFile (file : Nat)
  | beginRemove
  | endRemove

/-- One step; a step that Linux would not take does nothing. -/
def DeviceStep.run : DeviceStep → MemorySystem (Except KernelError Unit)
  | .openFile fd => HyperIoVm.openFile fd
  | .ioctl file command => return (← ioctlFile file command).map fun _ => ()
  | .mmap file vma => mmapFile file vma
  | .openArea file area cut => HyperIoVm.openArea file area cut
  | .closeArea file area => HyperIoVm.closeArea file area
  | .closeFile file => HyperIoVm.closeFile file
  | .releaseFile file => HyperIoVm.releaseFile file
  | .beginRemove => HyperIoVm.beginRemove
  | .endRemove => HyperIoVm.endRemove

end HyperIoVm
