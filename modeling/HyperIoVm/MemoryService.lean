import HyperIoVm.Effects.Layered
import HyperIoVm.Memory
import HyperIoVm.MemoryDevice

/-!
# The service on the guest-memory device

The calls of the service on the device of its client are the file operations of the driver: what
the service opens is a file of the device, and what it maps is a memory area of that file. Linux
itself picks descriptors and addresses, and answers every other call.
-/

namespace HyperIoVm

open Effects MemorySystem

/-- The open file that a descriptor names. -/
def MemoryDevice.fileOf (s : MemoryDevice) (fd : Fd) : Option Nat :=
  s.files.findIdx? fun f => f.descriptor == some fd

/-- The memory area of exactly these bytes, and its file. -/
def MemoryDevice.areaAt (s : MemoryDevice) (address length : UInt64) : Option (Nat × Nat) :=
  (List.range s.files.length).findSome? fun file =>
    (s.files[file]?.bind fun f => f.areas.findIdx? fun a =>
      a.start == address && 4096 * a.frames.length == length.toNat).map fun area => (file, area)

/-- A call that Linux answers itself. -/
def MemorySystem.linux (c : Call) : MemorySystem c.Reply := Routine.perform (I := Mm) (.linux c)

/-- `open` of the device node; the service tells none of the driver's errors apart. -/
def openMemory (path : String) : MemorySystem (Except Errno Fd) := do
  match ← MemorySystem.linux (.openNode (.memory path)) with
  | .error e => return .error e
  | .ok fd => do
    match ← openFile fd with
    | .error _ => return .error .other
    | .ok () => return .ok fd

/-- An ioctl on the file; the driver knows two of the commands that answer no data. -/
def commandFile (file : Nat) (command : Command) : MemorySystem Outcome := do
  let result ← ioctlFile file (match command with
    | .memoryPrepare prepare => .prepare prepare
    | .memoryRelease => .release
    | _ => .unknown)
  return match result with
    | .error _ => .failed
    | .ok _ => .ok

/-- `HYPER_MEMORY_INFO` on the file. -/
def infoFile (file : Nat) : MemorySystem (Option MemoryInfo) := do
  match ← ioctlFile file .info with
  | .error _ => return none
  | .ok info => return info

/-- `mmap` of the file: shared, readable and writable, from its first page on. -/
def mapFile (file : Nat) (fd : Fd) (length : UInt64) : MemorySystem (Option UInt64) := do
  match ← MemorySystem.linux (.mmap fd length) with
  | none => return none
  | some address => do
    let count : UInt64 := .ofNat ((length.toNat + 4095) / 4096)
    match ← mmapFile file { start := address, count } with
    | .error _ => return none
    | .ok () => return some address

/-- `munmap` of a whole memory area. -/
def unmapArea (file area : Nat) (address length : UInt64) : MemorySystem Outcome := do
  let unmapped : Outcome ← MemorySystem.linux (.munmap address length)
  if unmapped = .failed then return .failed
  let _ ← closeArea file area
  let _ ← releaseFile file
  return .ok

/-- `close` of the descriptor of a file. The descriptor is gone whatever `close` answers. -/
def closeDescriptor (file : Nat) (fd : Fd) : MemorySystem Outcome := do
  let closed ← MemorySystem.linux (.close fd)
  let _ ← closeFile file
  let _ ← releaseFile file
  return closed

/-- A call on a descriptor: `m` for a file of the device, and Linux for any other. -/
def onFile (fd : Fd) (c : Call) (m : Nat → MemorySystem c.Reply) : MemorySystem c.Reply := do
  match (← get).fileOf fd with
  | none => MemorySystem.linux c
  | some file => m file

/-- `munmap` of a memory area of the device, or of anything else. -/
def unmapRange (address length : UInt64) : MemorySystem Outcome := do
  match (← get).areaAt address length with
  | none => MemorySystem.linux (.munmap address length)
  | some (file, area) => unmapArea file area address length

/-- The calls of the service, with the device behind the node `path`. -/
def memoryCall (path : String) (c : Call) : MemorySystem c.Reply :=
  match c with
  | .openNode node =>
    if node = .memory path then openMemory path else MemorySystem.linux (.openNode node)
  | .ioctl fd command => onFile fd (.ioctl fd command) fun file => commandFile file command
  | .memoryInfo fd => onFile fd (.memoryInfo fd) infoFile
  | .mmap fd length => onFile fd (.mmap fd length) fun file => mapFile file fd length
  | .munmap address length => unmapRange address length
  | .close fd => onFile fd (.close fd) fun file => closeDescriptor file fd
  | c => MemorySystem.linux c

/-- The service's calls, implemented on the device. -/
def overMemory (path : String) : Handler Sys Mm MemoryDevice := memoryCall path

end HyperIoVm
