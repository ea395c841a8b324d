import Mathlib.Data.Fintype.Pi
import HyperIoVm.Effects.Routine
import HyperIoVm.Sys

/-!
# The backend of one client (`service/backend.h`)

`Backend` is the state a service process works on. One client owns the guest memory; its
two devices borrow it until they are drained. `Service` is a computation over this state
that may call Linux.
-/

namespace HyperIoVm

open Effects

/-- `struct endpoint`: one device's notification route, its vhost descriptor and the
eventfds of its queues. -/
structure Endpoint where
  notification : Option Fd := none
  fd : Option Fd := none
  kick : Fin 6 → Option Fd := fun _ => none
  call : Fin 6 → Option Fd := fun _ => none
  bound : Bool := false
  attached : Bool := false
  deriving DecidableEq

/-- `struct hyper_network_resources`. -/
structure NetworkResources where
  rxBacklogPackets : UInt32
  txBufferBytes : UInt32
  deriving DecidableEq, Repr

/-- `struct physical_disk`. -/
structure PhysicalDisk where
  fd : Fd
  device : Dev
  bytes : UInt64
  sequence : UInt64
  logical : UInt32
  physical : UInt32
  readOnly : UInt32
  deriving DecidableEq, Repr

/-- `struct hyper_block_range`; `disk` 0 means no range. -/
structure BlockRange where
  disk : UInt64 := 0
  first : UInt64 := 0
  count : UInt64 := 0
  readOnly : UInt32 := 0
  deriving DecidableEq, Repr

def hyperBlockClients : Nat := 128
def hyperBlockDisks : Nat := 128

/-- `struct block_owner`; the disk with identifier `i + 1` is at index `i`. -/
structure BlockOwner where
  disks : List PhysicalDisk := []
  clients : Fin 128 → Bool
  bindings : Fin 128 → BlockRange := fun _ => {}
  deriving DecidableEq

/-- `struct backend`. `memory` is `none` for `MAP_FAILED`; `wwpn` is the name in `target`,
empty when the client has no storage. -/
structure Backend where
  disk : Endpoint := {}
  net : Endpoint := {}
  memoryFd : Option Fd := none
  tap : Option Fd := none
  memory : Option UInt64 := none
  region : MemoryInfo := ⟨0, 0⟩
  wwpn : String := ""
  managed : Bool
  network : Bool := false
  memoryPath : String
  bridge : String := ""
  mac : Bytes := List.replicate 6 0
  token : UInt64 := 0
  diagnostics : Nat := 0
  scsi : ScsiResources := ⟨4, 128⟩
  netResources : NetworkResources := ⟨1000, 0⟩
  blocks : Option BlockOwner := none
  deriving DecidableEq

/-- A computation of the service process. -/
abbrev Service := Routine Sys Backend

namespace Backend

def endpoint (b : Backend) : Device → Endpoint
  | .storage => b.disk
  | .network => b.net

def setEndpoint (b : Backend) (d : Device) (e : Endpoint) : Backend :=
  match d with
  | .storage => { b with disk := e }
  | .network => { b with net := e }

/-- `memory_endpoint`: the endpoint whose notification route carries the memory proofs. -/
def memoryEndpoint (b : Backend) : Endpoint := if b.wwpn ≠ "" then b.disk else b.net

/-- `diagnostic`: at most 128 lines, counted; the text itself goes to `stderr`. -/
def diagnostic (b : Backend) : Backend :=
  if !b.managed || b.diagnostics ≥ 128 then b else { b with diagnostics := b.diagnostics + 1 }

end Backend

/-! ## Calls, as the service issues them -/

/-- Issue one system call. -/
def sys (c : Call) : Service c.Reply := Routine.perform (I := Sys) c

def openNode (node : Node) : Service (Except Errno Fd) := sys (.openNode node)
def close (fd : Fd) : Service Outcome := sys (.close fd)
def calloc (count : UInt64) : Service Outcome := sys (.calloc count)
def mmap (fd : Fd) (length : UInt64) : Service (Option UInt64) := sys (.mmap fd length)
def munmap (address length : UInt64) : Service Outcome := sys (.munmap address length)
def eventfd : Service (Option Fd) := sys .eventfd
def socket : Service (Option Fd) := sys .socket
def access (path : String) : Service Outcome := sys (.access path)

/-- An ioctl; on a field that holds -1 the kernel answers `EBADF`. -/
def ioctl (fd : Option Fd) (command : Command) : Service Outcome :=
  match fd with
  | none => pure .failed
  | some fd => sys (.ioctl fd command)

def diagnostic : Service Unit := modify Backend.diagnostic

/-- Close the descriptor a field holds, if any. -/
def closeIfOpen (fd : Option Fd) : Service Unit :=
  match fd with
  | none => pure ()
  | some fd => do let _ ← close fd

def modifyEndpoint (d : Device) (f : Endpoint → Endpoint) : Service Unit :=
  modify fun b => b.setEndpoint d (f (b.endpoint d))

/-- The C idiom `if (a || b || c)` over calls that answer non-zero on failure: issue them in
order until one fails. -/
def firstFailure : List (Service Outcome) → Service Outcome
  | [] => pure .ok
  | m :: ms => do
    if (← m) = .failed then return .failed
    firstFailure ms

end HyperIoVm
