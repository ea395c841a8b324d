import HyperIoVm.BlockPolicy
import HyperIoVm.BlockTarget

/-!
# The block owner (`service/block.c`)

Control endpoint zero: enumeration of the physical disks, bounded metadata reads and the
binding of per-client ranges. The disk table is append-only and keeps the open files, so
that an identifier cannot silently select a replacement device.
-/

namespace HyperIoVm

open Effects

def blkGetSize64 (fd : Fd) : Service (Option UInt64) := sys (.blkGetSize64 fd)
def blkGetDiskSeq (fd : Fd) : Service (Option UInt64) := sys (.blkGetDiskSeq fd)
def blkSszGet (fd : Fd) : Service (Option UInt32) := sys (.blkSszGet fd)
def blkPbszGet (fd : Fd) : Service (Option UInt32) := sys (.blkPbszGet fd)
def blkRoGet (fd : Fd) : Service (Option UInt32) := sys (.blkRoGet fd)
def fstat (fd : Fd) : Service (Option Stat) := sys (.fstat fd)
def scandir (path : String) : Service (Option (List String)) := sys (.scandir path)
def pread (fd : Fd) (destination length offset : UInt64) : Service (Option Bytes) :=
  sys (.pread fd destination length offset)

def modifyBlocks (f : BlockOwner → BlockOwner) : Service Unit :=
  modify fun b => { b with blocks := b.blocks.map f }

/-! ## Discovery -/

/-- The geometry `discover_disks` accepts. -/
def PhysicalDisk.geometryValid (disk : PhysicalDisk) : Bool :=
  disk.bytes != 0 && disk.logical ≥ 512 && disk.logical ≤ 65536 &&
    disk.logical &&& (disk.logical - 1) == 0 && disk.bytes % disk.logical.toUInt64 == 0 &&
    disk.physical ≥ disk.logical && disk.physical &&& (disk.physical - 1) == 0

/-- The queries on a freshly opened disk node; `none` when one fails or the geometry is
refused. -/
def probeDisk (fd : Fd) : Service (Option PhysicalDisk) := do
  let some status ← fstat fd | return none
  if !status.isBlock then return none
  let some bytes ← blkGetSize64 fd | return none
  let some sequence ← blkGetDiskSeq fd | return none
  let some logical ← blkSszGet fd | return none
  let some physical ← blkPbszGet fd | return none
  let some readOnly ← blkRoGet fd | return none
  let disk : PhysicalDisk :=
    { fd, device := status.rdev, bytes, sequence, logical, physical, readOnly }
  return if disk.geometryValid then some disk else none

/-- Look a probed disk up by its device number; append it when it is new. A known number
with another sequence, capacity or sector size is a replacement, and refused. -/
def recordDisk (disk : PhysicalDisk) : Service Outcome := do
  let disks := ((← get).blocks.map (·.disks)).getD []
  match disks.find? (·.device = disk.device) with
  | some known => do
    let _ ← close disk.fd
    return if known.sequence ≠ disk.sequence ∨ known.bytes ≠ disk.bytes ∨
      known.logical ≠ disk.logical then .failed else .ok
  | none =>
    if disks.length = hyperBlockDisks then
      let _ ← close disk.fd
      return .failed
    modifyBlocks fun owner => { owner with disks := owner.disks ++ [disk] }
    return .ok

/-- One directory entry of `discover_disks`; `failed` ends the scan. -/
def discoverDisk (name : String) : Service Outcome := do
  if name.startsWith "." then return .ok
  if (← access s!"/sys/class/block/{name}/partition") = .ok then return .ok
  -- virtual mapper, loop and RAM devices are not backing hardware
  if (← access s!"/sys/class/block/{name}/device") = .failed then return .ok
  match ← openNode (.disk name) with
  -- devtmpfs publication can lag asynchronous driver discovery
  | .error errno => return if errno = .other ∨ errno = .eexist then .failed else .ok
  | .ok fd =>
    match ← probeDisk fd with
    | none => do
      let _ ← close fd
      return .failed
    | some disk => recordDisk disk

/-- `discover_disks`. -/
def discoverDisks : Service Outcome := do
  match ← scandir "/sys/class/block" with
  | none => return .failed
  | some names => firstFailure (names.map discoverDisk)

/-- `disk_current`: the retained descriptor still reports the recorded medium. -/
def diskCurrent (disk : PhysicalDisk) : Service Bool := do
  let some sequence ← blkGetDiskSeq disk.fd | return false
  let some bytes ← blkGetSize64 disk.fd | return false
  return sequence == disk.sequence && bytes == disk.bytes

/-! ## Binding -/

/-- The range a `BLOCK_BIND` request asks for. -/
def BlockBind.range (request : BlockBind) : BlockRange :=
  { disk := request.disk, first := request.firstLba, count := request.sectors,
    readOnly := request.flags }

/-- Some client's recorded range conflicts with `range`; slot 0 is the owner's. -/
def BlockOwner.conflicts (owner : BlockOwner) (range : BlockRange) : Bool :=
  (List.finRange 128).any fun i => i != 0 && hyperBlockRangesConflict (owner.bindings i) range

/-- The end of `bind_range`: publish a validated range of an unbound client and record it. -/
def publishRange (client : Fin 128) (disk : PhysicalDisk) (range : BlockRange) :
    Service Status := do
  if (← blockTargetPublish (.ofNat client) disk.device disk.logical range) = .failed then
    return .backendFailure
  modifyBlocks fun owner => { owner with bindings := Function.update owner.bindings client range }
  return .ok

/-- `bind_range`. -/
def bindRange (owner : BlockOwner) (request : BlockBind) : Service Status := do
  let range := request.range
  if h : request.client.toNat < 128 then
    let client : Fin 128 := ⟨request.client.toNat, h⟩
    if client = 0 ∨ !owner.clients client ∨ range.disk = 0 then return .invalid
    match owner.disks[range.disk.toNat - 1]? with
    | none => return .invalid
    | some disk => do
      if !(← diskCurrent disk) then return .backendFailure
      if !hyperBlockRangeValid disk.bytes disk.logical disk.readOnly range then return .invalid
      let old := owner.bindings client
      if old.disk ≠ 0 then return if old = range then .ok else .busy
      if owner.conflicts range then return .busy
      publishRange client disk range
  else return .invalid

/-! ## The requests -/

/-- `BLOCK_ENUM` after the refresh: the disk at the cursor. -/
def enumerateDisk (owner : BlockOwner) (cursor : UInt32) : Answer :=
  if cursor.toNat > owner.disks.length then { status := .invalid }
  else
    match owner.disks[cursor.toNat]? with
    | none => { status := .ok, size := 80 }
    | some disk =>
      { status := .ok, size := 80,
        tail := blockInfo (cursor.toUInt64 + 1) disk.bytes disk.logical disk.physical
          (if disk.readOnly ≠ 0 then hyperIoBlockReadOnly else 0) (cursor + 1) }

def blockEnum (owner : BlockOwner) (request : BlockEnum) : Service Answer := do
  if request.reserved ≠ 0 then return { status := .invalid }
  -- each enumeration starts with an append-only hardware refresh
  let refreshed ← (if request.cursor = 0 then discoverDisks else pure .ok)
  if refreshed = .failed then return { status := .backendFailure }
  return enumerateDisk ((← get).blocks.getD owner) request.cursor

/-- The loop of `BLOCK_READ`. Every round that goes on has read at least one byte, so that
`length` rounds are enough. -/
def readLoop (disk : PhysicalDisk) (destination length offset : UInt64) :
    (rounds : Nat) → (done : UInt64) → Service Status
  | 0, _ => pure .ok
  | rounds + 1, done => do
    if done ≥ length then return .ok
    match ← pread disk.fd (destination + done) (length - done) (offset + done) with
    | none => return .backendFailure
    | some bytes =>
      if bytes.isEmpty then return .backendFailure
      readLoop disk destination length offset rounds (done + .ofNat bytes.length)

def blockRead (owner : BlockOwner) (request : BlockRead) : Service Status := do
  let b ← get
  match b.memory with
  | none => return .invalid
  | some memory =>
    if request.disk = 0 then return .invalid
    match owner.disks[request.disk.toNat - 1]? with
    | none => return .invalid
    | some disk => do
      if !(← diskCurrent disk) then return .backendFailure
      if !hyperBlockReadValid disk.bytes disk.logical request.offset request.length
            b.region.length request.memoryOffset ||
          request.offset > 0x7fffffffffffffff ||
          request.length > 0x7fffffffffffffff - request.offset then return .invalid
      readLoop disk (memory + request.memoryOffset) request.length request.offset
        request.length.toNat 0

/-- `block_dispatch`. -/
def blockDispatch (m : Bytes) : Service Answer := do
  match (← get).blocks with
  | none => return { status := .unsupported }
  | some owner =>
    match operationOf m, m.length with
    | .blockHello, 40 =>
      return { status := .ok, size := 64,
               tail := capabilities 7 hyperIoBlockMaxRead.toUInt32 0 (List.replicate 6 0) 0 }
    | .blockEnum, 48 => blockEnum owner (.decode m)
    | .blockRead, 72 => return { status := ← blockRead owner (.decode m) }
    | .blockBind, 72 => return { status := ← bindRange owner (.decode m) }
    | _, _ => return { status := .invalid }

end HyperIoVm
