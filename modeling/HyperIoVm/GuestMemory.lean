import Mathlib.Data.List.Sort
import HyperIoVm.Effects.Handler
import HyperIoVm.Layout
import HyperIoVm.Sys

/-!
# The guest-memory driver (`modules/guest-memory/memory.c`)

The device through which the service maps a client's memory: the driver's own state, its file
operations, and the part of Linux that decides when they run. A file operation runs to its end
under the device's lock, so each one is a single computation; the kernel functions it calls are
calls of the interface `Mm` and may fail at any of them.
-/

namespace HyperIoVm

open Effects

/-! ## The driver's environment -/

/-- The error codes of the driver. -/
inductive KernelError where
  | einval | ebusy | enomem | efault | enodev | enotty | other
  deriving DecidableEq, Repr

/-- A pointer to a `struct hyper_granule`. -/
abbrev GranulePtr := Nat

/-- What the driver calls, and the calls that do not reach it. -/
inductive MmCall where
  /-- A call of the service that Linux answers, or begins to answer, itself. -/
  | linux (c : Call)
  /-- Has the removal of the device begun? -/
  | removed
  | kvmallocArray (count : Nat)
  | copyFromUser
  | copyToUser
  | hyperGranuleGet (index : UInt64)
  | hyperGranulesPut (owned : List GranulePtr)
  | vmInsertPage (address pfn : UInt64)
  | putPage (pfn : UInt64)

def MmCall.Reply : MmCall → Type
  | .linux c => c.Reply
  | .removed => Bool
  | .kvmallocArray _ | .copyFromUser | .copyToUser => Outcome
  | .hyperGranuleGet _ => Except KernelError GranulePtr
  | .vmInsertPage _ _ => Except KernelError Unit
  | .hyperGranulesPut _ | .putPage _ => Unit

/-- The interface below the guest-memory driver. -/
def Mm : Interface := ⟨MmCall, MmCall.Reply⟩

/-- `struct hyper_guest_memory`. Its lock and its device node have no state of their own here;
`granule_count` is the length of `granules`, and null pointers are `none` and `[]`. -/
structure GuestMemory where
  references : Nat := 1
  firstPfn : UInt64 := 0
  pages : UInt64 := 0
  live : Bool := true
  dynamic : Bool
  opened : Bool := false
  vmas : Nat := 0
  apertureStart : UInt64 := 0
  apertureEnd : UInt64 := 0
  pfns : Option (List UInt64) := none
  granules : List GranulePtr := []
  guestBase : UInt64 := 0
  /-- `kfree` was called on it. -/
  freed : Bool := false
  deriving DecidableEq, Repr

/-- A computation of the driver. -/
abbrev MemoryDriver := Routine Mm GuestMemory

namespace MemoryDriver

def call (c : MmCall) : MemoryDriver c.Reply := Routine.perform (I := Mm) c

theorem wp_call {K : Type} {C : Contract Mm K} {c : MmCall} {Q : c.Reply → GuestMemory → K → Prop}
    {memory : GuestMemory} {k : K} (hallow : C.allows k c)
    (h : ∀ r, C.assumes k c r → Q r memory (C.next k c r)) : (call c).wp C Q memory k := ⟨hallow, h⟩

def kvmallocArray (count : Nat) : MemoryDriver Outcome := call (.kvmallocArray count)
def copyFromUser : MemoryDriver Outcome := call .copyFromUser
def copyToUser : MemoryDriver Outcome := call .copyToUser
def hyperGranuleGet (index : UInt64) : MemoryDriver (Except KernelError GranulePtr) :=
  call (.hyperGranuleGet index)
def vmInsertPage (address pfn : UInt64) : MemoryDriver (Except KernelError Unit) :=
  call (.vmInsertPage address pfn)
def putPage (pfn : UInt64) : MemoryDriver Unit := call (.putPage pfn)

/-- `hyper_granules_put`; its loop does not run for an empty array. -/
def hyperGranulesPut : List GranulePtr → MemoryDriver Unit
  | [] => pure ()
  | granule :: owned => call (.hyperGranulesPut (granule :: owned))

end MemoryDriver

open MemoryDriver

/-! ## Lifetime -/

/-- `hyper_memory_unprepare`. -/
def hyperMemoryUnprepare : MemoryDriver Unit := do
  hyperGranulesPut (← get).granules
  modify fun memory => { memory with
    granules := [], pfns := none
    firstPfn := if memory.dynamic then 0 else memory.firstPfn
    pages := if memory.dynamic then 0 else memory.pages }

/-- `hyper_memory_destroy`: a static pool also gives back its page references. -/
def hyperMemoryDestroy : MemoryDriver Unit := do
  hyperMemoryUnprepare
  let memory ← get
  forM (List.range (if memory.dynamic then 0 else memory.pages.toNat)) fun index =>
    putPage (memory.firstPfn + .ofNat index)
  modify fun memory => { memory with freed := true }

/-- `kref_put` with `hyper_memory_destroy`. -/
def krefPut : MemoryDriver Unit := do
  modify fun memory => { memory with references := memory.references - 1 }
  if (← get).references = 0 then hyperMemoryDestroy

/-- `hyper_memory_open`. -/
def hyperMemoryOpen : MemoryDriver (Except KernelError Unit) := do
  let memory ← get
  if !memory.live then return .error .enodev
  if memory.dynamic && memory.opened then return .error .ebusy
  modify fun memory => { memory with references := memory.references + 1, opened := true }
  return .ok ()

/-- `hyper_memory_release`. -/
def hyperMemoryRelease : MemoryDriver Unit := do
  let _ ← (if (← get).dynamic then hyperMemoryUnprepare else pure ())
  modify fun memory => { memory with opened := false }
  krefPut

/-- `hyper_vma_open`. -/
def hyperVmaOpen : MemoryDriver Unit :=
  modify fun memory => { memory with vmas := memory.vmas + 1 }

/-- `hyper_vma_close`. -/
def hyperVmaClose : MemoryDriver Unit :=
  modify fun memory => { memory with vmas := memory.vmas - 1 }

/-! ## Mapping -/

/-- `struct vm_area_struct`, as Linux hands it to `mmap`. -/
structure Vma where
  start : UInt64
  count : UInt64
  pgoff : UInt64 := 0
  shared : Bool := true
  exec : Bool := false
  deriving DecidableEq, Repr

/-- The page frame the mapping loop takes for page `index` of the area. -/
def GuestMemory.frame (memory : GuestMemory) (pgoff index : UInt64) : UInt64 :=
  if memory.dynamic then (memory.pfns.getD []).getD (pgoff + index).toNat 0
  else memory.firstPfn + pgoff + index

/-- The mapping loop of `hyper_memory_mmap`, `rounds` pages from `index` on; what it answers is
the page frames it inserted. -/
def insertPages (vma : Vma) : (rounds : Nat) → (index : UInt64) → (inserted : List UInt64) →
    MemoryDriver (Except KernelError (List UInt64))
  | 0, _, inserted => pure (.ok inserted)
  | rounds + 1, index, inserted => do
    let pfn := (← get).frame vma.pgoff index
    match ← vmInsertPage (vma.start + (index <<< 12)) pfn with
    | .error e => return .error e
    | .ok () => insertPages vma rounds (index + 1) (inserted ++ [pfn])

/-- `hyper_memory_mmap`. -/
def hyperMemoryMmap (vma : Vma) : MemoryDriver (Except KernelError (List UInt64)) := do
  if !vma.shared || vma.exec then return .error .einval
  let memory ← get
  if vma.pgoff ≥ memory.pages || vma.count > memory.pages - vma.pgoff then return .error .einval
  if !memory.live then return .error .enodev
  match ← insertPages vma vma.count.toNat 0 [] with
  | .error e => return .error e
  | .ok frames => do
    hyperVmaOpen
    return .ok frames

/-! ## Preparation -/

/-- One round after the other of the loop that moves the distinct indices of the sorted array to
its front: `unique` of them so far, round `i` next. -/
def compactIndices : (rounds i unique : Nat) → (indices : List UInt64) → Nat × List UInt64
  | 0, _, unique, indices => (unique, indices)
  | rounds + 1, i, unique, indices =>
    if i = 0 ∨ indices.getD i 0 ≠ indices.getD (i - 1) 0 then
      compactIndices rounds (i + 1) (unique + 1) (indices.set unique (indices.getD i 0))
    else compactIndices rounds (i + 1) unique indices

/-- The distinct granule indices of the pages, as `hyper_memory_prepare` computes them in place. -/
def granuleIndices (aliases : List UInt64) : List UInt64 :=
  let sorted := (aliases.map (· / 2097152)).insertionSort (· ≤ ·)
  let (unique, indices) := compactIndices aliases.length 0 0 sorted
  indices.take unique

/-- The acquisition loop. At a failure the granules acquired so far are put. -/
def acquireGranules : (indices : List UInt64) → (acquired : List GranulePtr) →
    MemoryDriver (Except KernelError (List GranulePtr))
  | [], acquired => pure (.ok acquired)
  | index :: indices, acquired => do
    match ← hyperGranuleGet index with
    | .error e => do
      hyperGranulesPut acquired
      return .error e
    | .ok granule => acquireGranules indices (acquired ++ [granule])

/-- The part of `hyper_memory_prepare` after the aliases are copied in. It publishes only after
every page and granule has been admitted. -/
def admitPages (prepare : MemoryPrepare) (aliases : List UInt64) :
    MemoryDriver (Except KernelError Unit) := do
  if prepare.aliasAddr ≠ 0 then return .error .einval
  let memory ← get
  if !(aliases.all (hyperIoPageAperture · memory.apertureStart memory.apertureEnd)) then
    return .error .einval
  let indices := granuleIndices aliases
  if (← kvmallocArray indices.length) = .failed then return .error .enomem
  match ← acquireGranules indices [] with
  | .error e => return .error e
  | .ok acquired => do
    modify fun memory => { memory with
      pfns := some (aliases.map fun (address : UInt64) => address >>> 12)
      granules := acquired
      pages := prepare.count.toUInt64, guestBase := prepare.guestBase }
    return .ok ()

/-- `copy_from_user` of the alias array. It faults where the caller's memory ends. -/
def copyAliases (prepare : MemoryPrepare) : MemoryDriver (Option (List UInt64)) := do
  let copied ← copyFromUser
  match prepare.pages with
  | none => return none
  | some pages =>
    if copied = .failed ∨ pages.length < prepare.count.toNat then return none
    return some (pages.take prepare.count.toNat)

/-- `hyper_memory_prepare`. -/
def hyperMemoryPrepare (prepare : MemoryPrepare) : MemoryDriver (Except KernelError Unit) := do
  if prepare.length == 0 || prepare.length % 4096 != 0 || prepare.guestBase % 4096 != 0 ||
      prepare.reserved != 0 || prepare.guestBase > 0xffffffffffffffff - prepare.length then
    return .error .einval
  let memory ← get
  if !memory.dynamic then
    return if prepare.token == 0 && prepare.count == 0 && prepare.pages.isNone &&
        prepare.aliasAddr == memory.firstPfn <<< 12 && prepare.length ≤ memory.pages <<< 12 then
      .ok () else .error .einval
  if prepare.token == 0 || prepare.count == 0 || prepare.count.toNat > hyperIoMaxGrantPages ||
      prepare.count.toUInt64 != prepare.length >>> 12 then
    return .error .einval
  if memory.pfns.isSome then return .error .ebusy
  let aliases ← kvmallocArray prepare.count.toNat
  let indices ← kvmallocArray prepare.count.toNat
  let pfns ← kvmallocArray prepare.count.toNat
  if aliases = .failed ∨ indices = .failed ∨ pfns = .failed then return .error .enomem
  match ← copyAliases prepare with
  | none => return .error .efault
  | some aliases => admitPages prepare aliases

/-! ## The ioctl -/

/-- The command word of an ioctl; the argument of `PREPARE` is the structure behind it. -/
inductive MemoryCommand where
  | info
  | prepare (prepare : MemoryPrepare)
  | release
  | unknown

/-- `HYPER_MEMORY_RELEASE`. -/
def ioctlMemoryRelease : MemoryDriver (Except KernelError (Option MemoryInfo)) := do
  if (← get).vmas ≠ 0 then return .error .ebusy
  hyperMemoryUnprepare
  return .ok none

/-- `HYPER_MEMORY_INFO`; `resource_size` is the length of the inclusive aperture. -/
def ioctlMemoryInfo : MemoryDriver (Except KernelError (Option MemoryInfo)) := do
  let memory ← get
  if (← copyToUser) = .failed then return .error .efault
  return .ok (some {
    guestBase := memory.guestBase
    length := if memory.dynamic then memory.apertureEnd - memory.apertureStart + 1
      else memory.pages <<< 12 })

/-- `HYPER_MEMORY_PREPARE`. -/
def ioctlMemoryPrepare (prepare : MemoryPrepare) :
    MemoryDriver (Except KernelError (Option MemoryInfo)) := do
  return (← hyperMemoryPrepare prepare).map fun _ => none

/-- `hyper_memory_ioctl`. `PREPARE` copies its argument in before it takes the lock. -/
def hyperMemoryIoctl (command : MemoryCommand) :
    MemoryDriver (Except KernelError (Option MemoryInfo)) := do
  match command with
  | .unknown => return .error .enotty
  | .prepare prepare =>
    if (← copyFromUser) = .failed then return .error .efault
    if !(← get).live then return .error .enodev
    ioctlMemoryPrepare prepare
  | .release =>
    if !(← get).live then return .error .enodev
    ioctlMemoryRelease
  | .info =>
    if !(← get).live then return .error .enodev
    ioctlMemoryInfo

end HyperIoVm
