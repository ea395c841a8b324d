import HyperIoVm.Effects.Contract
import HyperIoVm.Mailbox
import HyperIoVm.Wire
import Mathlib.Logic.Function.Basic

/-!
# The control device (`control_read` and `control_write` of `modules/io-bridge/hyper_io_bridge.c`)

A record crosses the mailbox word by word: the reader copies the data registers, hands the bytes to
its caller and only then consumes the record by its sequence number; the writer fills the data
registers and commits them once. The device is not part of this repository: `mailbox` says what the
driver relies on.
-/

namespace HyperIoVm

open Effects

/-- The registers of the mailbox, `MB_STATUS` to `MB_TX_DATA`. -/
inductive MailboxRegister where
  | status
  | mask
  | rxLen
  | rxSeq
  | rxConsume
  | txLen
  | txCommit
  | rxData (word : Nat)
  | txData (word : Nat)
  deriving DecidableEq, Repr

/-- The calls of the driver, and the test of `stopping` in `serve`. `writeCommit` is the write to
`MB_TX_COMMIT`; it answers whether the device took the record, which the driver cannot see. -/
inductive ControlCall where
  | lock
  | unlock
  | dead
  | irqGeneration
  | waitEvent (wanted : UInt32) (generation : UInt64)
  | readl (register : MailboxRegister)
  | readq (register : MailboxRegister)
  | writel (register : MailboxRegister) (value : UInt32)
  | writeq (register : MailboxRegister) (value : UInt64)
  | writeCommit
  | copyToUser (bytes : Bytes)
  | copyFromUser
  | stopping
  deriving DecidableEq

/-- The answer to each call. `lock` and `waitEvent` answer whether a signal interrupted them,
`copyToUser` and `copyFromUser` whether they failed. -/
def ControlCall.Reply : ControlCall → Type
  | .lock | .dead | .waitEvent _ _ | .writeCommit | .copyToUser _ | .copyFromUser
  | .stopping => Bool
  | .irqGeneration | .readq _ => UInt64
  | .readl _ => UInt32
  | .unlock | .writel _ _ | .writeq _ _ => Unit

/-- The interface of the control device. -/
def Control : Interface := ⟨ControlCall, ControlCall.Reply⟩

/-- The error of a call on the control device, by its name in `errno.h`. -/
inductive ControlError where
  | inval
  | restart
  | nodev
  | pipe
  | proto
  | msgsize
  | fault
  | io
  deriving DecidableEq, Repr

/-- What became of a call: it returned a value or an error, or its caller still waits. -/
inductive Transfer (α : Type) where
  | done (a : α)
  | failed (e : ControlError)
  | waiting
  deriving DecidableEq, Repr

def rxReady : UInt32 := 1
def txSpace : UInt32 := 2

/-- `ERROR`. -/
def mailboxError : UInt32 := 8

/-! ## The driver -/

/-- `wait_status`, for so many rounds. `waitEvent` is `wait_event_interruptible`, whose steps are
those of `Mailbox.waitStatus`. -/
def awaitStatus (wanted : UInt32) : Nat → Program Control (Transfer Unit)
  | 0 => return .waiting
  | rounds + 1 => do
    let dead : Bool ← Program.perform (I := Control) .dead
    if dead then return .failed .nodev
    let status : UInt32 ← Program.perform (I := Control) (.readl .status)
    if status &&& mailboxClosed ≠ 0 then return .failed .pipe
    if status &&& wanted ≠ 0 then return .done ()
    let generation : UInt64 ← Program.perform (I := Control) .irqGeneration
    let _ : Unit ← Program.perform (I := Control) (.writel .mask (wanted ||| mailboxClosed))
    let interrupted : Bool ← Program.perform (I := Control) (.waitEvent wanted generation)
    let _ : Unit ← Program.perform (I := Control) (.writel .mask 0)
    if interrupted then return .failed .restart
    awaitStatus wanted rounds

/-- The number of data registers for so many bytes. -/
def wordsFor (length : Nat) : Nat := (length + 3) / 4

/-- The words of the data registers from `index` on. -/
def readWords : Nat → Nat → Program Control (List UInt32)
  | 0, _ => return []
  | words + 1, index => do
    let word : UInt32 ← Program.perform (I := Control) (.readl (.rxData index))
    let rest ← readWords words (index + 1)
    return word :: rest

/-- Writes the words of `bytes` to the data registers from `index` on. -/
def writeWords (bytes : Bytes) : Nat → Nat → Program Control Unit
  | 0, _ => return
  | words + 1, index => do
    let _ : Unit ← Program.perform (I := Control)
      (.writel (.txData index) (le32toh bytes (index * 4)))
    writeWords bytes words (index + 1)

/-- The bytes of words in memory. -/
def wordBytes (words : List UInt32) : Bytes := words.flatMap htole32

/-- The copy of one record, when the device shows one. -/
def takeRecord (capacity : Nat) : Program Control (Transfer Bytes) := do
  let length : UInt32 ← Program.perform (I := Control) (.readl .rxLen)
  let sequence : UInt64 ← Program.perform (I := Control) (.readq .rxSeq)
  if length = 0 ∨ length.toNat > hyperIoRecord then return .failed .proto
  if capacity < length.toNat then return .failed .msgsize
  let words ← readWords (wordsFor length.toNat) 0
  let bytes := (wordBytes words).take length.toNat
  let failed : Bool ← Program.perform (I := Control) (.copyToUser bytes)
  if failed then return .failed .fault
  let _ : Unit ← Program.perform (I := Control) (.writeq .rxConsume sequence)
  return .done bytes

/-- The commit of one record, when the device has space. -/
def putRecord (bytes : Bytes) : Program Control (Transfer Nat) := do
  let _ : Unit ← Program.perform (I := Control) (.writel .status mailboxError)
  writeWords bytes (wordsFor bytes.length) 0
  let _ : Unit ← Program.perform (I := Control) (.writel .txLen (.ofNat bytes.length))
  let _ : Bool ← Program.perform (I := Control) .writeCommit
  let status : UInt32 ← Program.perform (I := Control) (.readl .status)
  if status &&& (mailboxError ||| mailboxClosed) ≠ 0 then return .failed .io
  return .done bytes.length

/-- `p` under `control_lock`, once the status shows `wanted`. -/
def underLock {α : Type} (wanted : UInt32) (rounds : Nat) (p : Program Control (Transfer α)) :
    Program Control (Transfer α) := do
  let interrupted : Bool ← Program.perform (I := Control) .lock
  if interrupted then return .failed .restart
  match ← awaitStatus wanted rounds with
  | .waiting => return .waiting
  | .failed e => do
    let _ : Unit ← Program.perform (I := Control) .unlock
    return .failed e
  | .done () => do
    let result ← p
    let _ : Unit ← Program.perform (I := Control) .unlock
    return result

/-- `control_read`. -/
def controlRead (mailbox : Bool) (rounds capacity : Nat) : Program Control (Transfer Bytes) :=
  if !mailbox then return .failed .inval
  else underLock rxReady rounds (takeRecord capacity)

/-- `control_write`. -/
def controlWrite (mailbox : Bool) (rounds : Nat) (bytes : Bytes) : Program Control (Transfer Nat) :=
  if !mailbox ∨ bytes.length = 0 ∨ bytes.length > hyperIoRecord then return .failed .inval
  else do
    let failed : Bool ← Program.perform (I := Control) .copyFromUser
    if failed then return .failed .fault
    underLock txSpace rounds (putRecord bytes)

/-! ## The device -/

/-- The word at `index` holds the bytes that lie there, as far as there are any. -/
def HoldsWord (bytes : Bytes) (index : Nat) (word : UInt32) : Prop :=
  (htole32 word).take (bytes.length - index * 4) = (bytes.drop (index * 4)).take 4

/-- The records the owner posts, each under its sequence number. -/
structure Posted where
  record : Nat → Bytes
  sequence : Nat → UInt64

/-- What has become of the mailbox. `shown` says that the status has shown the record that is next,
`refused` that its error bit is set, and `closed` that it has shown the mailbox closed. -/
structure ControlLedger where
  locked : Bool := false
  shown : Bool := false
  closed : Bool := false
  consumed : Nat := 0
  words : Nat → UInt32 := fun _ => 0
  length : UInt32 := 0
  refused : Bool := false
  sent : List Bytes := []

/-- The error bit of a status. -/
def ShowsError (status : UInt32) : Prop := status &&& mailboxError ≠ 0

namespace ControlLedger

/-- The record that the transmit registers hold. -/
def staged (k : ControlLedger) : Bytes :=
  (wordBytes ((List.range (wordsFor k.length.toNat)).map k.words)).take k.length.toNat

/-- After a status was read. -/
def read (k : ControlLedger) (status : UInt32) : ControlLedger :=
  { k with shown := k.shown || status &&& rxReady != 0
           closed := k.closed || status &&& mailboxClosed != 0 }

/-- After the record `sequence` was consumed. Only the record that is shown can be. -/
def consume (posted : Posted) (k : ControlLedger) (sequence : UInt64) : ControlLedger :=
  if k.shown ∧ sequence = posted.sequence k.consumed then
    { k with shown := false, consumed := k.consumed + 1 }
  else k

/-- After the commit, which the device took or refused. -/
def commit (k : ControlLedger) (taken : Bool) : ControlLedger :=
  if taken then { k with sent := k.sent ++ [k.staged] } else { k with refused := true }

/-- What the ledger says after a call. -/
def next (posted : Posted) (k : ControlLedger) : (c : ControlCall) → c.Reply → ControlLedger
  | .lock, interrupted => { k with locked := !interrupted }
  | .unlock, _ => { k with locked := false }
  | .readl .status, status => k.read status
  | .writeq .rxConsume sequence, _ => k.consume posted sequence
  | .writel .status value, _ => { k with refused := value &&& mailboxError == 0 && k.refused }
  | .writel (.txData word) value, _ => { k with words := Function.update k.words word value }
  | .writel .txLen length, _ => { k with length }
  | .writeCommit, taken => k.commit taken
  | _, _ => k

/-- What the driver relies on: while a record is shown, the receive registers hold it and its
sequence number; and the error bit of the status says whether a commit was refused. -/
def assumes (posted : Posted) (k : ControlLedger) : (c : ControlCall) → c.Reply → Prop
  | .readl .status, status => ShowsError status ↔ k.refused = true
  | .readl .rxLen, length => k.shown = true → length.toNat = (posted.record k.consumed).length
  | .readq .rxSeq, sequence => k.shown = true → sequence = posted.sequence k.consumed
  | .readl (.rxData word), value =>
    k.shown = true → HoldsWord (posted.record k.consumed) word value
  | _, _ => True

/-- The registers are only touched under the lock, which is not taken twice. -/
def allows (k : ControlLedger) : ControlCall → Prop
  | .lock => k.locked = false
  | .unlock | .readl _ | .readq _ | .writel _ _ | .writeq _ _ | .writeCommit => k.locked = true
  | _ => True

end ControlLedger

/-- The mailbox, and what its driver owes it. -/
def mailbox (posted : Posted) : Contract Control ControlLedger where
  allows := ControlLedger.allows
  assumes := ControlLedger.assumes posted
  next := ControlLedger.next posted

end HyperIoVm
