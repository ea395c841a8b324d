import HyperIoVm.Layout
import HyperIoVm.Network

/-!
# Client memory (`service/memory.c`)

`prepareMemory` admits a scatter grant, expands its extents into pages and maps them;
`releaseMemory` retires everything in the one safe order: devices, mapping, memory
descriptor, token.
-/

namespace HyperIoVm

open Effects

/-! ## Release -/

/-- `quiesce_all` (`service/vhost.c`): both drains are tried even if one fails. -/
def quiesceAll : Service Outcome := do
  let disk ← quiesceDisk
  let network ← quiesceNetwork
  return if disk = .failed ∨ network = .failed then .failed else .ok

def unmapMemory : Service Outcome := do
  let b ← get
  match b.memory with
  | none => return .ok
  | some address =>
    if (← munmap address b.region.length) = .failed then return .failed
    modify fun b => { b with memory := none }
    return .ok

def closeMemory : Service Outcome := do
  let b ← get
  match b.memoryFd with
  | none => return .ok
  | some fd =>
    let released ← (if b.managed then ioctl (some fd) .memoryRelease else pure .ok)
    if released = .failed then return .failed
    let _ ← close fd
    modify fun b => { b with memoryFd := none }
    return .ok

/-- Also retires an admission that failed before `mmap`: the host still needs a proof. -/
def retireToken : Service Outcome := do
  let b ← get
  if b.token = 0 then return .ok
  ioctl b.memoryEndpoint.notification (.quiescent b.token)

/-- `release_memory`. -/
def releaseMemory : Service Status := do
  if (← quiesceAll) = .failed then return .quiescenceFailed
  if (← unmapMemory) = .failed then return .quiescenceFailed
  if (← closeMemory) = .failed then return .quiescenceFailed
  if (← retireToken) = .failed then return .quiescenceFailed
  modify fun b => { b with token := 0, region := ⟨0, 0⟩ }
  return .ok

/-! ## Prepare -/

def ioAdmit (fd : Option Fd) (admission : Admission) : Service (Option UInt64) :=
  match fd with
  | none => pure none
  | some fd => sys (.ioAdmit fd admission)

def extent (fd : Option Fd) (index : UInt64) : Service (Option Extent) :=
  match fd with
  | none => pure none
  | some fd => sys (.extent fd index)

def memoryInfo (fd : Fd) : Service (Option MemoryInfo) := sys (.memoryInfo fd)

/-- The stores of the page-expansion loop for one extent, in order: index and page. -/
def extentStores (cursor : UInt64) (e : Extent) : List (Nat × UInt64) :=
  (List.range ((e.length.toNat + 4095) / 4096)).map fun j =>
    let offset : UInt64 := .ofNat (4096 * j)
    (((cursor + offset) / 4096).toNat, e.aliasAddr + offset)

/-- The `pages` array after the stores of one extent. -/
def storeExtent (pages : List UInt64) (cursor : UInt64) (e : Extent) : List UInt64 :=
  (extentStores cursor e).foldl (fun pages store => pages.set store.1 store.2) pages

/-- The extent walk, `rounds` extents from `index` on: the cursor and the pages it ends
with, `none` when an extent cannot be read or does not continue the walk. -/
def walkExtents (route : Option Fd) (total : UInt64) :
    (rounds : Nat) → (index cursor : UInt64) → (pages : List UInt64) →
      Service (Option (UInt64 × List UInt64))
  | 0, _, cursor, pages => pure (some (cursor, pages))
  | rounds + 1, index, cursor, pages => do
    match ← extent route index with
    | none => return none
    | some e =>
      if !hyperIoExtentValid cursor total e.aliasAddr e.offset e.length then return none
      walkExtents route total rounds (index + 1) (cursor + e.length) (storeExtent pages cursor e)

/-- What `prepare_memory` answers after it has begun to acquire: release what was acquired. -/
def rollbackMemory : Service Status := do
  return if (← releaseMemory) = .ok then .backendFailure else .quiescenceFailed

/-- The part of `prepare_memory` shared by page grants and alias windows. -/
def mapMemory (prepare : MemoryPrepare) : Service Status := do
  diagnostic
  match ← openNode (.memory (← get).memoryPath) with
  | .error _ => rollbackMemory
  | .ok fd => do
    modify fun b => { b with memoryFd := some fd }
    diagnostic
    match ← memoryInfo fd with
    | none => rollbackMemory
    | some window => do
      if prepare.length > window.length then return ← rollbackMemory
      if (← ioctl (some fd) (.memoryPrepare prepare)) = .failed then return ← rollbackMemory
      diagnostic
      match ← mmap fd prepare.length with
      | none => rollbackMemory
      | some memory => do
        diagnostic
        modify fun b => { b with
          memory := some memory, memoryFd := some fd, token := prepare.token,
          region := ⟨prepare.guestBase, prepare.length⟩ }
        return .ok

/-- The page-grant part of `prepare_memory`. -/
def grantMemory (prepare : MemoryPrepare) : Service Status := do
  let route := (← get).memoryEndpoint.notification
  let length := prepare.length
  match ← ioAdmit route ⟨prepare.token, prepare.guestBase, length⟩ with
  | none => return .invalid
  | some extentCount => do
    modify fun b => { b with token := prepare.token }
    if (← calloc (length / 4096)) = .failed then return ← rollbackMemory
    match ← walkExtents route length extentCount.toNat 0 0
        (List.replicate (length / 4096).toNat 0) with
    | none => rollbackMemory
    | some (cursor, pages) => do
      if cursor ≠ length then return ← rollbackMemory
      mapMemory { prepare with pages := some pages, count := (length / 4096).toUInt32 }

/-- `prepare_memory`. The test `(uint64_t)(size_t)length != length` is never true where
`size_t` has 64 bits. -/
def prepareMemory (request : PrepareMemory) : Service Status := do
  let base := request.guestBase
  let length := request.length
  let prepare : MemoryPrepare :=
    { aliasAddr := request.aliasAddr, guestBase := base, length, token := request.token }
  let b ← get
  if !b.managed || b.memory.isSome || b.memoryFd.isSome || b.token != 0 then return .busy
  if length == 0 || length % 4096 != 0 || base % 4096 != 0 || base > 0xffffffffffffffff - length ||
      (b.blocks.isSome && (length > hyperIoBlockMaxRead || prepare.token != 0)) then
    return .invalid
  if prepare.token = 0 then return ← mapMemory prepare
  if prepare.aliasAddr ≠ 0 ∨ (length / 4096).toNat > hyperIoMaxGrantPages then return .invalid
  grantMemory prepare

end HyperIoVm
