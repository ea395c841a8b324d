import HyperIoVm.Block
import HyperIoVm.Memory
import HyperIoVm.Session

/-!
# The control loop (`service/hyper-io-service.c`)

`serve` reads records, admits them to the session, executes each admitted transaction once
and answers. The last executed record and its reply are kept, so that a repeated record gets
the same reply without being executed again.
-/

namespace HyperIoVm

open Effects

/-! ## Dispatch -/

/-- `idle`: nothing is held that a new owner could inherit. -/
def Backend.idle (b : Backend) : Bool :=
  b.memory.isNone && b.memoryFd.isNone && b.token == 0 && b.disk.fd.isNone && !b.disk.bound &&
    b.net.fd.isNone && !b.net.bound && b.tap.isNone

/-- Whether the client has the device. -/
def Backend.hasDevice (b : Backend) : Device → Bool
  | .storage => b.wwpn ≠ ""
  | .network => b.network

/-- The `HELLO` and `NETWORK_HELLO` cases of `dispatch`. -/
def helloDevice (d : Device) (size : Nat) : Service Answer := do
  let b ← get
  if size ≠ 40 then return { status := .invalid }
  if !b.hasDevice d then return { status := .unsupported }
  match d with
  | .storage =>
    if !(← blockTargetReady) then return { status := .busy }
    return { status := .ok, size := 64,
             tail := capabilities version1 (b.scsi.requestQueues + 2) 128 (List.replicate 6 0) 0 }
  | .network =>
    return { status := .ok, size := 80,
             tail := capabilities networkFeatures hyperIoNetworkQueues.toUInt32 128 b.mac 1500 }

def quiesceDevice : Device → Service Outcome
  | .storage => quiesceDisk
  | .network => quiesceNetwork

/-- The `RESET` and `STOP_QUEUE` cases of `dispatch`, for either device. -/
def resetDevice (d : Device) (queueStop : Bool) (m : Bytes) : Service Status := do
  let b ← get
  if m.length ≠ (if queueStop then 48 else 40) then return .invalid
  if !b.hasDevice d then return .unsupported
  let limit := match d with
    | .storage => hyperIoQueues
    | .network => hyperIoNetworkQueues
  if queueStop && (le32toh m 44 != 0 || (le32toh m 40).toNat ≥ limit) then return .invalid
  return if (← quiesceDevice d) = .failed then .quiescenceFailed else .ok

/-- The switch of `dispatch`. -/
def dispatchOperation (op : Operation) (m : Bytes) : Service Answer := do
  let managed := (← get).managed
  match op with
  | .hello => helloDevice .storage m.length
  | .networkHello => helloDevice .network m.length
  | .prepareMemory =>
    if m.length = 72 ∧ managed then return { status := ← prepareMemory (.decode m) }
    return { status := .invalid }
  | .activate =>
    if m.length = 240 then return { status := ← activateDisk (.decode m hyperIoQueues) }
    return { status := .invalid }
  | .networkActivate =>
    if m.length = 112 then
      return { status := ← activateNetwork (.decode m hyperIoNetworkQueues) }
    return { status := .invalid }
  | .reset => return { status := ← resetDevice .storage false m }
  | .stopQueue => return { status := ← resetDevice .storage true m }
  | .networkReset => return { status := ← resetDevice .network false m }
  | .networkStopQueue => return { status := ← resetDevice .network true m }
  | _ => return { status := .unsupported }

/-- The record is the 40-byte `RELEASE_MEMORY` request. -/
def isRelease (m : Bytes) : Bool :=
  operationOf m == .releaseMemory && m.length == 40

/-- `dispatch`: the answer, and the session it leaves. -/
def dispatch (session : Session) (m : Bytes) : Service (Answer × Session) := do
  let op := operationOf m
  if isRelease m && (← get).managed then
    let status ← releaseMemory
    return ({ status }, if status = .ok then hyperIoSessionRetire session else session)
  if !hyperIoSessionPreparable session then return ({ status := .invalid }, session)
  if op.isBlock then return (← blockDispatch m, session)
  return (← dispatchOperation op m, session)

/-! ## The loop -/

/-- The variables `serve` keeps from one record to the next. -/
structure Serving where
  backend : Backend
  session : Session := {}
  lastTransaction : UInt64 := 0
  previous : Bytes := []
  previousReply : Response := ⟨.decode [], 0, 0, List.replicate 32 0⟩
  deriving DecidableEq

/-- The checks a record has to pass; `serve` gives up on one that does not. -/
def wellFramed (m : Bytes) : Bool :=
  let h := Header.decode m
  40 ≤ m.length && m.length ≤ hyperIoRecord && h.magic == hyperIoMagic &&
    h.version == hyperIoVersion && h.length.toNat == m.length && h.flags == 0 &&
    h.binding != 0 && h.transaction != 0 && h.epoch != 0 && h.epoch ≤ 0xffffffff

/-- The epoch slot of the device whose HELLO starts a binding. -/
def Backend.primary (b : Backend) : Fin 2 := if b.blocks.isSome || b.wwpn ≠ "" then 0 else 1

/-- The epoch slot a record is counted for. -/
def Backend.recordDevice (b : Backend) (op : Operation) : Fin 2 :=
  if op = .prepareMemory ∨ op = .releaseMemory then b.primary
  else if op.isNetwork then 1 else 0

/-- The operation that starts a binding. -/
def Backend.hello (b : Backend) : Operation :=
  if b.blocks.isSome then .blockHello else if b.primary = 1 then .networkHello else .hello

/-- Admission of a record, as `serve` calls it. -/
def Serving.admission (s : Serving) (m : Bytes) : Admit × Session :=
  let h := Header.decode m
  let op := Operation.ofCode h.operation
  hyperIoSessionAdmit s.session h.binding h.epoch (op == s.backend.hello && m.length == 40)
    (if s.backend.managed then s.backend.idle else s.session.binding == 0)
    (s.backend.recordDevice op)

/-- The reply to a record and whether `dispatch` was called for it. -/
structure Served where
  response : Response
  dispatched : Bool
  deriving DecidableEq

/-- The response to the record with header `h`. -/
def Answer.response (a : Answer) (h : Header) : Response :=
  { header := { h with length := .ofNat a.size, flags := hyperIoReply }, status := a.status.code,
    tail := a.tail }

/-- One round of `serve`, for a well-framed record. -/
def serveRecord (s : Serving) (m : Bytes) : Program Sys (Served × Serving) := do
  let h := Header.decode m
  let (verdict, session) := s.admission m
  let b := s.backend.diagnostic
  -- a new binding starts its own transactions
  let last := if verdict = .takeover then 0 else s.lastTransaction
  let previous := if verdict = .takeover then [] else s.previous
  let s := { s with backend := b, session, lastTransaction := last, previous }
  if verdict ≠ .refused ∧ h.transaction = last ∧ m = previous then
    return (⟨s.previousReply, false⟩, { s with backend := b.diagnostic })
  if verdict ≠ .refused ∧ h.transaction > last then
    let ((answer, session), b) ← (dispatch session m).run b
    let response := answer.response h
    let device := s.backend.recordDevice (.ofCode h.operation)
    return (⟨response, true⟩,
      { backend := b.diagnostic
        session := { session with epoch := Function.update session.epoch device h.epoch }
        lastTransaction := h.transaction, previous := m, previousReply := response })
  return (⟨({ status := .invalid } : Answer).response h, false⟩, { s with backend := b.diagnostic })

/-- What the control channel does with a reply. -/
inductive Taken where
  | written | short | peerClosed | stopped
  deriving DecidableEq, Repr

/-- `serve`, over the records the channel delivers and what becomes of each reply. The end
of the list is the peer's hangup, or a signal to stop. -/
def serve (s : Serving) : List (Bytes × Taken) → Program Sys (Int × Serving)
  | [] => return (0, s)
  | (m, taken) :: rest => do
    if !wellFramed m then return (-1, s)
    let (_, s) ← serveRecord s m
    match taken with
    | .written => serve s rest
    | .short => return (-1, s)
    | .peerClosed | .stopped => return (0, s)

end HyperIoVm
