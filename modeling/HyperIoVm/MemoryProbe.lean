import HyperIoVm.MemoryDevice

/-!
# The probe of a guest-memory node (`modules/guest-memory/memory.c`)

`hyper_memory_probe` makes a device of a node of the device tree. A dynamic node describes an
address aperture only; a static one names a reserved region, and the driver takes a reference on
every page of it before it registers the device. What fails gives everything back.
-/

namespace HyperIoVm

open Effects MemoryDriver

/-! ## The calls of the probe -/

/-- The node of the device, and the one that its `memory-region` refers to. -/
inductive ProbeNode where
  | device | region
  deriving DecidableEq, Repr

/-- `struct resource`, a range with its last address. -/
structure MemoryResource where
  start : UInt64
  stop : UInt64
  deriving DecidableEq, Repr

/-- `resource_size`. -/
def MemoryResource.size (resource : MemoryResource) : UInt64 := resource.stop - resource.start + 1

/-- What the probe calls; the clean-up calls what the other operations of the driver call. -/
inductive ProbeCall where
  | mm (c : MmCall)
  | ofPropertyReadBool (node : ProbeNode) (name : String)
  | ofParsePhandle (name : String)
  | ofNodePut
  | ofAddressToResource (node : ProbeNode)
  | ofFindProperty (name : String)
  | ofPropertyReadU64 (name : String)
  | ofPropertyReadU32 (name : String)
  | kzalloc
  | pfnValid (pfn : UInt64)
  | pageReserved (pfn : UInt64)
  | pageCompound (pfn : UInt64)
  | getPageUnlessZero (pfn : UInt64)
  | kasprintf (name : String)
  | miscRegister

def ProbeCall.Reply : ProbeCall → Type
  | .mm c => c.Reply
  | .ofPropertyReadBool _ _ | .ofParsePhandle _ | .ofFindProperty _ => Bool
  | .ofNodePut => Unit
  | .ofAddressToResource _ => Except KernelError MemoryResource
  | .ofPropertyReadU64 _ => Option UInt64
  | .ofPropertyReadU32 _ => Option UInt32
  | .kzalloc | .kasprintf _ => Outcome
  | .pfnValid _ | .pageReserved _ | .pageCompound _ | .getPageUnlessZero _ => Bool
  | .miscRegister => Except KernelError Unit

/-- The interface below the probe. -/
def ProbeBus : Interface := ⟨ProbeCall, ProbeCall.Reply⟩

/-- What the probe fails with. -/
inductive ProbeError where
  | kernel (e : KernelError)
  | eoverflow
  deriving DecidableEq, Repr

/-- A computation of the probe, over the structure that it allocates. -/
abbrev MemoryProbe := Routine ProbeBus GuestMemory

namespace MemoryProbe

def call (c : ProbeCall) : MemoryProbe c.Reply := Routine.perform (I := ProbeBus) c

def ofPropertyReadBool (node : ProbeNode) (name : String) : MemoryProbe Bool :=
  call (.ofPropertyReadBool node name)
def ofParsePhandle (name : String) : MemoryProbe Bool := call (.ofParsePhandle name)
def ofNodePut : MemoryProbe Unit := call .ofNodePut
def ofAddressToResource (node : ProbeNode) : MemoryProbe (Except KernelError MemoryResource) :=
  call (.ofAddressToResource node)
def ofFindProperty (name : String) : MemoryProbe Bool := call (.ofFindProperty name)
def ofPropertyReadU64 (name : String) : MemoryProbe (Option UInt64) :=
  call (.ofPropertyReadU64 name)
def ofPropertyReadU32 (name : String) : MemoryProbe (Option UInt32) :=
  call (.ofPropertyReadU32 name)
def kzalloc : MemoryProbe Outcome := call .kzalloc
def pfnValid (pfn : UInt64) : MemoryProbe Bool := call (.pfnValid pfn)
def pageReserved (pfn : UInt64) : MemoryProbe Bool := call (.pageReserved pfn)
def pageCompound (pfn : UInt64) : MemoryProbe Bool := call (.pageCompound pfn)
def getPageUnlessZero (pfn : UInt64) : MemoryProbe Bool := call (.getPageUnlessZero pfn)
def kasprintf (name : String) : MemoryProbe Outcome := call (.kasprintf name)
def miscRegister : MemoryProbe (Except KernelError Unit) := call .miscRegister

/-- A call of the driver is one of the probe. -/
def driverCalls : Handler Mm ProbeBus PUnit := fun c => Routine.perform (I := ProbeBus) (.mm c)

/-- A function of the driver. -/
def onDriver {α : Type} (m : MemoryDriver α) : MemoryProbe α := fun memory => do
  let (r, _) ← ((m.run memory).handle driverCalls).run ⟨⟩
  return r

end MemoryProbe

open MemoryProbe

/-! ## The probe -/

/-- The label `fail`. -/
def probeFail (e : ProbeError) : MemoryProbe (Except ProbeError Unit) := do
  onDriver krefPut
  return .error e

/-- The loop that takes a reference on every page: whether all of `rounds` more pages have one. -/
def takePages : (rounds : Nat) → MemoryProbe Bool
  | 0 => pure true
  | rounds + 1 => do
    let memory ← get
    let pfn := memory.firstPfn + memory.pages
    if !(← pfnValid pfn) then return false
    if !(← pageReserved pfn) then return false
    if ← pageCompound pfn then return false
    if !(← getPageUnlessZero pfn) then return false
    modify fun memory => { memory with pages := memory.pages + 1 }
    takePages rounds

/-- The name of the device: `none` when the property of the client is not one. -/
def probeName (device : String) : MemoryProbe (Option String) := do
  if ← ofFindProperty "hyper,client-id" then
    match ← ofPropertyReadU32 "hyper,client-id" with
    | none => return none
    | some client =>
      if client ≥ 128 then return none
      return some ("hyper-memory-" ++ toString client.toNat)
  else return some ("hyper-memory-" ++ device)

/-- The label `register_device`. -/
def registerDevice (device : String) : MemoryProbe (Except ProbeError Unit) := do
  match ← probeName device with
  | none => probeFail (.kernel .einval)
  | some name =>
    if (← kasprintf name) = .failed then probeFail (.kernel .enomem)
    else
      modify fun memory => { memory with live := true }
      match ← miscRegister with
      | .error e => probeFail (.kernel e)
      | .ok () => return .ok ()

/-- The branch of `hyper,dynamic-memory`. -/
def probeDynamic (device : String) : MemoryProbe (Except ProbeError Unit) := do
  if (← kzalloc) = .failed then return .error (.kernel .enomem)
  set ({ dynamic := true, live := false } : GuestMemory)
  match ← ofAddressToResource .device with
  | .error _ => probeFail (.kernel .einval)
  | .ok resource =>
    if resource.size = 0 then probeFail (.kernel .einval)
    else
      modify fun memory => { memory with
        apertureStart := resource.start, apertureEnd := resource.stop }
      registerDevice device

/-- `ULONG_MAX`, which is also `U64_MAX`. -/
def ulongMax : UInt64 := 0xffffffffffffffff

/-- A static pool, once its region has passed the checks. -/
def probePool (device : String) (start bytes : UInt64) :
    MemoryProbe (Except ProbeError Unit) := do
  if (← kzalloc) = .failed then return .error (.kernel .enomem)
  set ({ dynamic := false, live := false, guestBase := start } : GuestMemory)
  let readable ← (do
    if ← ofFindProperty "hyper,guest-base" then
      match ← ofPropertyReadU64 "hyper,guest-base" with
      | none => return false
      | some guestBase =>
        modify fun memory => { memory with guestBase }
        return true
    else return true : MemoryProbe Bool)
  if !readable then probeFail (.kernel .einval)
  else
    let memory ← get
    if memory.guestBase % 4096 ≠ 0 ∨ memory.guestBase > ulongMax - bytes then
      probeFail (.kernel .einval)
    else
      modify fun memory => { memory with firstPfn := start >>> 12 }
      if ← takePages (bytes >>> 12).toNat then registerDevice device
      else probeFail (.kernel .einval)

/-- The branch of a static pool, `memory-region`. -/
def probeStatic (device : String) : MemoryProbe (Except ProbeError Unit) := do
  if !(← ofParsePhandle "memory-region") then return .error (.kernel .einval)
  let unusable ← (do
    if ← ofPropertyReadBool .region "no-map" then return true
    else ofPropertyReadBool .region "reusable" : MemoryProbe Bool)
  if unusable then do
    ofNodePut
    return .error (.kernel .einval)
  else
    let result ← ofAddressToResource .region
    ofNodePut
    match result with
    | .error e => return .error (.kernel e)
    | .ok resource =>
      let bytes := resource.size
      if bytes = 0 ∨ resource.start % 4096 ≠ 0 ∨ bytes % 4096 ≠ 0 ∨
          resource.start >>> 12 > ulongMax ∨ bytes >>> 12 > ulongMax then
        return .error (.kernel .einval)
      else if bytes >>> 12 > ulongMax - resource.start >>> 12 then return .error .eoverflow
      else probePool device resource.start bytes

/-- `hyper_memory_probe`. -/
def hyperMemoryProbe (device : String) : MemoryProbe (Except ProbeError Unit) := do
  if ← ofPropertyReadBool .device "hyper,dynamic-memory" then probeDynamic device
  else probeStatic device

end HyperIoVm
