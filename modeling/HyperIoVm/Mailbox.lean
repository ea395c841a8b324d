/-!
# The mailbox (`bridge_irq` and `wait_status` of `modules/io-bridge/hyper_io_bridge.c`)

The device raises its interrupt while its status and its mask intersect. The interrupt stays pending
until the handler runs, which can be in a later transaction. Every access of the handler and of the
caller of `wait_status` is a step of its own, and the steps come in any order.
-/

namespace HyperIoVm

/-- `HYPER_IO_MAILBOX_CLOSED`. -/
def mailboxClosed : UInt32 := 4

/-- `hyper_io_wait_ready`. -/
def hyperIoWaitReady (status wanted : UInt32) (armedGeneration irqGeneration : UInt64) : Bool :=
  status &&& (wanted ||| mailboxClosed) != 0 || armedGeneration != irqGeneration

/-- Where the handler is: it has masked the source, and has counted. -/
inductive IrqPhase where
  | idle
  | entered
  | masked
  | counted
  deriving DecidableEq, Repr

/-- What `wait_status` returns: 0, `-EPIPE`, `-ENODEV` or `-ERESTARTSYS`. -/
inductive WaitResult where
  | ready
  | closed
  | gone
  | interrupted
  deriving DecidableEq, Repr

/-- In `wait_event_interruptible`, whether the caller has put itself on the wait queue, or found a
signal when it tried. -/
inductive WaitRound where
  | unqueued
  | queued
  | interrupted
  deriving DecidableEq, Repr

/-- What the caller does next. The two reads of a test come in either order. -/
inductive WaitPc where
  | idle
  | dead
  | status
  | generation
  | arm
  | testDead (round : WaitRound)
  | test (round : WaitRound) (status : Option UInt32) (generation : Option UInt64)
  | prepare
  | sleep
  | finish
  | disarm (interrupted : Bool)
  | returned (result : WaitResult)
  deriving DecidableEq, Repr

/-- How far the removal of the device has come. -/
inductive Removal where
  | bound
  | dead
  | woken
  | removed
  deriving DecidableEq, Repr

/-- The device's registers, its interrupt, the handler, and the caller with its variables. `queued`
says that the caller is on the wait queue and `woken` that `schedule` returns. -/
structure Mailbox where
  status : UInt32
  mask : UInt32
  pending : Bool
  irq : IrqPhase
  generation : UInt64
  removal : Removal
  signal : Bool := false
  queued : Bool := false
  woken : Bool := false
  pc : WaitPc := .idle
  wanted : UInt32 := 0
  lastStatus : UInt32 := 0
  armedGeneration : UInt64 := 0
  deriving DecidableEq, Repr

/-- What happens next. -/
inductive MailboxEvent where
  | device (status : UInt32)
  | raise
  | deliver
  | irq
  | signal
  | remove
  | start (wanted : UInt32)
  | next
  | readStatus
  | readGeneration
  deriving DecidableEq, Repr

/-- The caller does not hold `control_lock`. -/
def WaitPc.isOutside : WaitPc → Bool
  | .idle | .returned _ => true
  | _ => false

namespace Mailbox

/-- `bridge->dead`. -/
def dead (s : Mailbox) : Bool := s.removal != .bound

/-- `wake_up_interruptible`. -/
def wake (s : Mailbox) : Mailbox :=
  if s.queued then { s with queued := false, woken := true } else s

/-- `bridge_irq`. -/
def bridgeIrq (s : Mailbox) : Option Mailbox :=
  match s.irq with
  | .idle => none
  | .entered => some { s with mask := 0, irq := .masked }
  | .masked => some { s with generation := s.generation + 1, irq := .counted }
  | .counted => some { s.wake with irq := .idle }

/-- `bridge_remove`. -/
def bridgeRemove (s : Mailbox) : Option Mailbox :=
  match s.removal with
  | .bound => some { s with removal := .dead }
  | .dead => some { s.wake with removal := .woken }
  | .woken => if s.pc.isOutside then some { s with mask := 0, removal := .removed } else none
  | .removed => none

/-- Where the caller goes with the value of its condition. -/
def conclude : WaitRound → Bool → WaitPc
  | .unqueued, true => .disarm false
  | .unqueued, false => .prepare
  | .queued, true => .finish
  | .queued, false => .sleep
  | .interrupted, true => .disarm false
  | .interrupted, false => .disarm true

/-- A step of `wait_status`. -/
def waitStatus (s : Mailbox) : Option Mailbox :=
  match s.pc with
  | .idle | .returned _ | .test _ _ _ => none
  | .dead => some { s with pc := if s.dead then .returned .gone else .status }
  | .status => some { s with
      lastStatus := s.status,
      pc := if s.status &&& mailboxClosed ≠ 0 then .returned .closed
            else if s.status &&& s.wanted ≠ 0 then .returned .ready
            else .generation }
  | .generation => some { s with armedGeneration := s.generation, pc := .arm }
  | .arm => some { s with mask := s.wanted ||| mailboxClosed, pc := .testDead .unqueued }
  | .testDead round => some { s with
      pc := if s.dead then conclude round true else .test round none none }
  | .prepare =>
    if s.signal then some { s with queued := false, pc := .testDead .interrupted }
    else some { s with queued := true, woken := false, pc := .testDead .queued }
  | .sleep => if s.woken then some { s with pc := .prepare } else none
  | .finish => some { s with queued := false, pc := .disarm false }
  | .disarm interrupted => some { s with
      mask := 0, pc := if interrupted then .returned .interrupted else .dead }

/-- The condition, once both of its registers are read. -/
def tested (s : Mailbox) (round : WaitRound) (status : Option UInt32)
    (generation : Option UInt64) : Mailbox :=
  match status, generation with
  | some status, some generation => { s with
      pc := conclude round (hyperIoWaitReady status s.wanted s.armedGeneration generation) }
  | _, _ => { s with pc := .test round status generation }

/-- One step. -/
def step (s : Mailbox) : MailboxEvent → Option Mailbox
  | .device status => some { s with status }
  | .raise => if s.status &&& s.mask ≠ 0 then some { s with pending := true } else none
  | .deliver =>
    if s.pending ∧ s.irq = .idle then some { s with pending := false, irq := .entered } else none
  | .irq => s.bridgeIrq
  | .signal => some { s with signal := true, woken := true }
  | .remove => s.bridgeRemove
  | .start wanted =>
    if s.pc.isOutside then some { s with wanted, signal := false, pc := .dead } else none
  | .next => s.waitStatus
  | .readStatus =>
    match s.pc with
    | .test round none generation => some (s.tested round (some s.status) generation)
    | _ => none
  | .readGeneration =>
    match s.pc with
    | .test round status none => some (s.tested round status (some s.generation))
    | _ => none

end Mailbox

end HyperIoVm
