import Mathlib.Data.Fintype.Pi
import HyperIoVm.Effects.Program
import HyperIoVm.Wire

/-!
# The system calls of the I/O service

The interface between the service and Linux: every system call, ioctl and allocation the
service makes, with the arguments the service passes and the type of the answers. Calls
that only succeed or fail answer an `Outcome`; calls that return data answer an `Option`,
or an `Except` where the service looks at `errno`.

A call interrupted by a signal (`EINTR`) is reissued by the service with the same
arguments; the reply below is the one of the call that was not interrupted.
-/

namespace HyperIoVm

open Effects

/-- An open file descriptor. A C field holding -1 is `none` of `Option Fd`. -/
abbrev Fd := Nat

/-- A call that succeeds or fails. -/
inductive Outcome where
  | ok | failed
  deriving DecidableEq, Repr

/-- The values of `errno` the service distinguishes. -/
inductive Errno where
  | enoent | enxio | enomedium | eexist | other
  deriving DecidableEq, Repr

/-- A client's two virtual devices, each with an endpoint of its own. -/
inductive Device where
  | storage | network
  deriving DecidableEq, Repr

/-- The device nodes and files the service opens while it serves. -/
inductive Node where
  | memory (path : String)
  | vhost (device : Device)
  | tun
  | disk (name : String)
  | mapperControl
  | attribute (path : String)
  deriving DecidableEq, Repr

/-- The path handed to `open`. -/
def Node.path : Node → String
  | .memory path => path
  | .vhost .storage => "/dev/vhost-scsi"
  | .vhost .network => "/dev/vhost-net"
  | .tun => "/dev/net/tun"
  | .disk name => "/dev/" ++ name
  | .mapperControl => "/dev/mapper/control"
  | .attribute path => path

/-! ## Arguments and results -/

/-- `struct hyper_memory_info`. -/
structure MemoryInfo where
  guestBase : UInt64
  length : UInt64
  deriving DecidableEq, Repr

/-- `struct hyper_memory_prepare`; `pages` is the array behind the user pointer, `none` for
a null pointer. -/
structure MemoryPrepare where
  aliasAddr : UInt64
  guestBase : UInt64
  length : UInt64
  token : UInt64
  pages : Option (List UInt64) := none
  count : UInt32 := 0
  reserved : UInt32 := 0
  deriving DecidableEq, Repr

/-- `struct hyper_io_admission` as the service fills it in. -/
structure Admission where
  token : UInt64
  guestBase : UInt64
  length : UInt64
  deriving DecidableEq, Repr

/-- `struct hyper_io_extent` as the driver returns it. -/
structure Extent where
  aliasAddr : UInt64
  offset : UInt64
  length : UInt64
  deriving DecidableEq, Repr

/-- `struct hyper_io_eventfds`. -/
structure Eventfds where
  epoch : UInt32
  reserved : UInt32 := 0
  kick : Fin 6 → Int := fun _ => -1
  call : Fin 6 → Int := fun _ => -1
  deriving DecidableEq

/-- `struct hyper_scsi_resources`. -/
structure ScsiResources where
  requestQueues : UInt32
  sgPrealloc : UInt32
  deriving DecidableEq, Repr

/-- `dev_t`. -/
structure Dev where
  major : UInt32
  minor : UInt32
  deriving DecidableEq, Repr

/-- What `fstat` reports of a disk node. -/
structure Stat where
  isBlock : Bool
  rdev : Dev
  deriving DecidableEq, Repr

/-- The one-target `linear` table loaded into a device-mapper device: `length` sectors of
512 bytes, from sector `start` of `device`. -/
structure DmTable where
  device : Dev
  start : UInt64
  length : UInt64
  readOnly : Bool
  deriving DecidableEq, Repr

/-- The ioctls that answer only success or failure. -/
inductive Command where
  -- notification driver
  | bind (fds : Eventfds)
  | unbind
  | quiescent (token : UInt64)
  -- guest-memory driver
  | memoryPrepare (prepare : MemoryPrepare)
  | memoryRelease
  -- vhost
  | setResources (resources : ScsiResources)
  | setOwner
  | setFeatures (features : UInt64)
  | setMemTable (guestPhysAddr memorySize userspaceAddr : UInt64)
  | setVringNum (index : Nat) (num : UInt32)
  | setVringAddr (index : Nat) (desc avail used : UInt64)
  | setVringBase (index : Nat) (num : UInt32)
  | setVringKick (index : Nat) (fd : Fd)
  | setVringCall (index : Nat) (fd : Fd)
  | setEndpoint (wwpn : String)
  | clearEndpoint (wwpn : String)
  | resetOwner
  | netSetBackend (index : Nat) (tap : Option Fd)
  -- TAP and bridge
  | tunSetVnetHdrSz (size : Nat)
  | tunSetVnetLe (value : Nat)
  | tunSetOffload (flags : Nat)
  | tunSetSndBuf (bytes : UInt32)
  | setTxQueueLength (name : String) (length : UInt32)
  | bridgeAddInterface (bridge : String) (index : UInt32)
  | setFlags (name : String) (flags : UInt16)
  -- device mapper
  | dmTableLoad (name : String) (table : DmTable)
  | dmDevSuspend (name : String) (readOnly : Bool)
  | dmDevRemove (name : String)
  deriving DecidableEq

/-- Every call the service makes. -/
inductive Call where
  | openNode (node : Node)
  | close (fd : Fd)
  | ioctl (fd : Fd) (command : Command)
  | ioAdmit (fd : Fd) (admission : Admission)
  | extent (fd : Fd) (index : UInt64)
  | memoryInfo (fd : Fd)
  | calloc (count : UInt64)
  | mmap (fd : Fd) (length : UInt64)
  | munmap (address length : UInt64)
  | eventfd
  | socket
  | ifNametoindex (name : String)
  | tunSetIff (fd : Fd) (name : String)
  | getFlags (fd : Fd) (name : String)
  | access (path : String)
  | scandir (path : String)
  | fstat (fd : Fd)
  | blkGetSize64 (fd : Fd)
  | blkGetDiskSeq (fd : Fd)
  | blkSszGet (fd : Fd)
  | blkPbszGet (fd : Fd)
  | blkRoGet (fd : Fd)
  | pread (fd : Fd) (destination length offset : UInt64)
  | mkdir (path : String)
  | rmdir (path : String)
  | mknod (path : String) (device : Dev)
  | unlink (path : String)
  | symlink (target path : String)
  | write (fd : Fd) (value : String)
  | dmDevCreate (fd : Fd) (name : String)
  deriving DecidableEq

/-- The answer to each call. `pread` answers the bytes it read, none at end of file;
`write` the number of bytes written; `scandir` the names in the directory, sorted. -/
def Call.Reply : Call → Type
  | .openNode _ => Except Errno Fd
  | .ioAdmit _ _ => Option UInt64
  | .extent _ _ => Option Extent
  | .memoryInfo _ => Option MemoryInfo
  | .mmap _ _ => Option UInt64
  | .eventfd => Option Fd
  | .socket => Option Fd
  | .ifNametoindex _ => Option UInt32
  | .tunSetIff _ _ => Option String
  | .getFlags _ _ => Option UInt16
  | .scandir _ => Option (List String)
  | .fstat _ => Option Stat
  | .blkGetSize64 _ => Option UInt64
  | .blkGetDiskSeq _ => Option UInt64
  | .blkSszGet _ => Option UInt32
  | .blkPbszGet _ => Option UInt32
  | .blkRoGet _ => Option UInt32
  | .pread _ _ _ _ => Option Bytes
  | .mkdir _ => Except Errno Unit
  | .write _ _ => Option Nat
  | .dmDevCreate _ _ => Option Dev
  | .close _ | .ioctl _ _ | .calloc _ | .munmap _ _ | .access _ | .rmdir _ | .mknod _ _
  | .unlink _ | .symlink _ _ => Outcome

/-- The interface between the service and Linux. -/
def Sys : Interface := ⟨Call, Call.Reply⟩

/-- The replies of a Linux that refuses every call. -/
def Call.refused : (c : Call) → c.Reply
  | .openNode _ | .mkdir _ => .error .other
  | .ioAdmit _ _ | .extent _ _ | .memoryInfo _ | .mmap _ _ | .eventfd | .socket | .ifNametoindex _
  | .tunSetIff _ _ | .getFlags _ _ | .scandir _ | .fstat _ | .blkGetSize64 _ | .blkGetDiskSeq _
  | .blkSszGet _ | .blkPbszGet _ | .blkRoGet _ | .pread _ _ _ _ | .write _ _ | .dmDevCreate _ _ =>
    none
  | .close _ | .ioctl _ _ | .calloc _ | .munmap _ _ | .access _ | .rmdir _ | .mknod _ _
  | .unlink _ | .symlink _ _ => .failed

end HyperIoVm
