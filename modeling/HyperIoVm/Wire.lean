import Mathlib.Algebra.Group.Nat.Defs

/-!
# The control protocol's records (`include/hyper_io.h`)

A request is the byte string the control channel delivers; a reply is a 48-byte prefix
(the echoed header, a status) followed by up to 32 bytes whose layout depends on the
operation. All integers are little-endian. The structures below are read from, or written
to, fixed offsets, as the C code copies records into its structures.
-/

namespace HyperIoVm

/-- Bytes in the order they lie in memory. -/
abbrev Bytes := List UInt8

/-! ## Little-endian integers -/

/-- The value of a little-endian byte string. -/
def leValue : Bytes → Nat
  | [] => 0
  | b :: bs => b.toNat + 256 * leValue bs

/-- The `n` low bytes of `v`, least significant first. -/
def leBytes : (n : Nat) → (v : Nat) → Bytes
  | 0, _ => []
  | n + 1, v => UInt8.ofNat v :: leBytes n (v / 256)

def le16toh (m : Bytes) (offset : Nat) : UInt16 := .ofNat (leValue ((m.drop offset).take 2))
def le32toh (m : Bytes) (offset : Nat) : UInt32 := .ofNat (leValue ((m.drop offset).take 4))
def le64toh (m : Bytes) (offset : Nat) : UInt64 := .ofNat (leValue ((m.drop offset).take 8))

def htole16 (v : UInt16) : Bytes := leBytes 2 v.toNat
def htole32 (v : UInt32) : Bytes := leBytes 4 v.toNat
def htole64 (v : UInt64) : Bytes := leBytes 8 v.toNat

@[simp] theorem length_leBytes (n v : Nat) : (leBytes n v).length = n := by
  induction n generalizing v with
  | zero => rfl
  | succ n ih => simp [leBytes, ih]

/-- Reading back what was written gives the value, cut to the width. -/
theorem leValue_leBytes (n v : Nat) : leValue (leBytes n v) = v % 256 ^ n := by
  induction n generalizing v with
  | zero => simp [leBytes, leValue, Nat.mod_one]
  | succ n ih =>
    have hbyte : (UInt8.ofNat v).toNat = v % 256 := by simp
    rw [leBytes, leValue, ih, hbyte, Nat.pow_succ, Nat.mul_comm (256 ^ n) 256, Nat.mod_mul]

/-! ## Constants -/

def hyperIoMagic : UInt32 := 0x314f4948
def hyperIoVersion : UInt16 := 3
def hyperIoQueues : Nat := 6
def hyperIoRecord : Nat := 256
def hyperIoMaxGrantPages : Nat := 1 <<< 20
def hyperIoReply : UInt32 := 1
def hyperIoBlockReadOnly : UInt32 := 1
def hyperIoBlockMaxRead : UInt64 := 0x100000
def hyperIoNetworkQueues : Nat := 2

/-- The operations of protocol version 3, by their codes. -/
inductive Operation where
  | hello | activate | reset | stopQueue | prepareMemory | releaseMemory
  | networkHello | networkActivate | networkReset | networkStopQueue
  | blockHello | blockEnum | blockRead | blockBind
  | unknown (code : UInt16)
  deriving DecidableEq, Repr

/-- The operation a code stands for. -/
def Operation.ofCode (code : UInt16) : Operation :=
  match code.toNat with
  | 1 => .hello
  | 2 => .activate
  | 3 => .reset
  | 4 => .stopQueue
  | 5 => .prepareMemory
  | 6 => .releaseMemory
  | 7 => .networkHello
  | 8 => .networkActivate
  | 9 => .networkReset
  | 10 => .networkStopQueue
  | 11 => .blockHello
  | 12 => .blockEnum
  | 13 => .blockRead
  | 14 => .blockBind
  | _ => .unknown code

/-- Codes from `HYPER_IO_NETWORK_HELLO` to `HYPER_IO_NETWORK_STOP_QUEUE`. -/
def Operation.isNetwork : Operation → Bool
  | .networkHello | .networkActivate | .networkReset | .networkStopQueue => true
  | _ => false

/-- Codes from `HYPER_IO_BLOCK_HELLO` to `HYPER_IO_BLOCK_BIND`. -/
def Operation.isBlock : Operation → Bool
  | .blockHello | .blockEnum | .blockRead | .blockBind => true
  | _ => false

/-- How a request is answered. -/
inductive Status where
  | ok | unsupported | invalid | busy | backendFailure | quiescenceFailed
  deriving DecidableEq, Repr

def Status.code : Status → UInt32
  | .ok => 0
  | .unsupported => 1
  | .invalid => 2
  | .busy => 3
  | .backendFailure => 4
  | .quiescenceFailed => 5

theorem Status.code_injective {s t : Status} (h : s.code = t.code) : s = t := by
  cases s <;> cases t <;> first | rfl | exact absurd h (by decide)

/-! ## Requests -/

/-- `struct hyper_io_header`: the first 40 bytes of every record. -/
structure Header where
  magic : UInt32
  version : UInt16
  operation : UInt16
  length : UInt32
  flags : UInt32
  binding : UInt64
  epoch : UInt64
  transaction : UInt64
  deriving DecidableEq, Repr

def Header.decode (m : Bytes) : Header where
  magic := le32toh m 0
  version := le16toh m 4
  operation := le16toh m 6
  length := le32toh m 8
  flags := le32toh m 12
  binding := le64toh m 16
  epoch := le64toh m 24
  transaction := le64toh m 32

def Header.encode (h : Header) : Bytes :=
  htole32 h.magic ++ htole16 h.version ++ htole16 h.operation ++ htole32 h.length ++
    htole32 h.flags ++ htole64 h.binding ++ htole64 h.epoch ++ htole64 h.transaction

@[simp] theorem Header.length_encode (h : Header) : h.encode.length = 40 := by
  simp [Header.encode, htole16, htole32, htole64]

/-- `struct hyper_io_queue`. -/
structure Queue where
  size : UInt32
  reserved : UInt32
  descriptor : UInt64
  available : UInt64
  used : UInt64
  deriving DecidableEq, Repr

/-- The all-zero queue record of a queue that is not configured. -/
def Queue.zero : Queue := ⟨0, 0, 0, 0, 0⟩

def Queue.decode (m : Bytes) (offset : Nat) : Queue where
  size := le32toh m offset
  reserved := le32toh m (offset + 4)
  descriptor := le64toh m (offset + 8)
  available := le64toh m (offset + 16)
  used := le64toh m (offset + 24)

/-- The activation records: `features`, then the queues (six for storage, two for
network). -/
structure Activate where
  header : Header
  features : UInt64
  queues : List Queue
  deriving DecidableEq, Repr

def Activate.decode (m : Bytes) (queues : Nat) : Activate where
  header := .decode m
  features := le64toh m 40
  queues := (List.range queues).map fun i => .decode m (48 + 32 * i)

/-- `struct hyper_io_prepare_memory`. -/
structure PrepareMemory where
  aliasAddr : UInt64
  guestBase : UInt64
  length : UInt64
  token : UInt64
  deriving DecidableEq, Repr

def PrepareMemory.decode (m : Bytes) : PrepareMemory where
  aliasAddr := le64toh m 40
  guestBase := le64toh m 48
  length := le64toh m 56
  token := le64toh m 64

/-- `struct hyper_io_block_enum`. -/
structure BlockEnum where
  cursor : UInt32
  reserved : UInt32
  deriving DecidableEq, Repr

def BlockEnum.decode (m : Bytes) : BlockEnum where
  cursor := le32toh m 40
  reserved := le32toh m 44

/-- `struct hyper_io_block_read`. -/
structure BlockRead where
  disk : UInt64
  offset : UInt64
  length : UInt64
  memoryOffset : UInt64
  deriving DecidableEq, Repr

def BlockRead.decode (m : Bytes) : BlockRead where
  disk := le64toh m 40
  offset := le64toh m 48
  length := le64toh m 56
  memoryOffset := le64toh m 64

/-- `struct hyper_io_block_bind`. -/
structure BlockBind where
  client : UInt32
  flags : UInt32
  disk : UInt64
  firstLba : UInt64
  sectors : UInt64
  deriving DecidableEq, Repr

def BlockBind.decode (m : Bytes) : BlockBind where
  client := le32toh m 40
  flags := le32toh m 44
  disk := le64toh m 48
  firstLba := le64toh m 56
  sectors := le64toh m 64

/-- The operation of a record. -/
abbrev operationOf (m : Bytes) : Operation := .ofCode (Header.decode m).operation

/-! ## Replies -/

/-- The bytes after the 48-byte prefix of a `HELLO` reply, and of a `NETWORK_HELLO` reply
when a MAC and an MTU are given. -/
def capabilities (features : UInt64) (queues queueMax : UInt32) (mac : Bytes) (mtu : UInt16) :
    Bytes :=
  htole64 features ++ htole32 queues ++ htole32 queueMax ++ mac ++ htole16 mtu ++
    List.replicate 8 0

/-- The bytes after the 48-byte prefix of a `BLOCK_ENUM` reply. -/
def blockInfo (disk bytes : UInt64) (logical physical flags nextCursor : UInt32) : Bytes :=
  htole64 disk ++ htole64 bytes ++ htole32 logical ++ htole32 physical ++ htole32 flags ++
    htole32 nextCursor

/-- What the operation's handler decides about its reply: the status, the number of bytes
to send and the 32 bytes after the prefix. -/
structure Answer where
  status : Status
  size : Nat := 48
  tail : Bytes := List.replicate 32 0
  deriving DecidableEq, Repr

/-- The 80-byte reply buffer: the echoed header, the status and the tail. -/
structure Response where
  header : Header
  status : UInt32
  reserved : UInt32 := 0
  tail : Bytes
  deriving DecidableEq, Repr

/-- The whole buffer as bytes. -/
def Response.buffer (r : Response) : Bytes :=
  r.header.encode ++ htole32 r.status ++ htole32 r.reserved ++ r.tail

/-- The bytes that are written to the control channel. -/
def Response.written (r : Response) : Bytes := r.buffer.take r.header.length.toNat

end HyperIoVm
