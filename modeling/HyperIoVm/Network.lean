import HyperIoVm.Vhost

/-!
# The network device (`service/network.c`)

A client's TAP and its vhost-net endpoint. `RESET_OWNER` stops both queues and flushes
outstanding work, also after an activation that attached only one of them.
-/

namespace HyperIoVm

open Effects

def networkMac : UInt64 := 0x20
def networkCsum : UInt64 := 0x1
def networkTso : UInt64 := 0x800 ||| 0x1000
def networkFeatures : UInt64 := version1 ||| networkMac ||| networkCsum ||| networkTso

/-! ## Draining -/

/-- The drain of `quiesce_network`. -/
def drainNetwork : Service Outcome := do
  let b ← get
  if !b.net.attached then return .ok
  if (← ioctl b.net.fd .resetOwner) = .failed then
    diagnostic
    return .failed
  modifyEndpoint .network fun e => { e with attached := false }
  return .ok

/-- The nonpersistent TAP leaves its bridge when it is closed. -/
def closeTap : Service Unit := do
  closeIfOpen (← get).tap
  modify fun b => { b with tap := none }

/-- `quiesce_network`. -/
def quiesceNetwork : Service Outcome := do
  if (← drainNetwork) = .failed then return .failed
  if (← endpointClose .network) = .failed then return .failed
  closeTap
  return .ok

/-! ## The TAP -/

def tunSetIff (fd : Fd) (name : String) : Service (Option String) := sys (.tunSetIff fd name)
def ifNametoindex (name : String) : Service (Option UInt32) := sys (.ifNametoindex name)
def getFlags (fd : Fd) (name : String) : Service (Option UInt16) := sys (.getFlags fd name)

/-- An ioctl with a diagnostic on failure. -/
def reportedIoctl (fd : Fd) (command : Command) : Service Outcome := do
  if (← ioctl (some fd) command) = .ok then return .ok
  diagnostic
  return .failed

/-- The header configuration of `open_tap`: one diagnostic for the three ioctls. -/
def configureTapHeader (fd : Fd) : Service Outcome := do
  let header ← firstFailure
    [ioctl (some fd) (.tunSetVnetHdrSz 12), ioctl (some fd) (.tunSetVnetLe 1),
      ioctl (some fd) (.tunSetOffload 0)]
  if header = .ok then return .ok
  diagnostic
  return .failed

/-- What `open_tap` does with the open TAP: the name of the new interface. -/
def configureTap (fd : Fd) : Service (Option String) := do
  match ← tunSetIff fd "htap%d" with
  | none => do diagnostic; return none
  | some name => do
    if (← configureTapHeader fd) = .failed then return none
    let bytes := (← get).netResources.txBufferBytes
    let budget ← (if bytes ≠ 0 then reportedIoctl fd (.tunSetSndBuf bytes) else pure .ok)
    if budget = .failed then return none
    return some name

/-- `open_tap`. -/
def openTap : Service (Option String) := do
  match ← openNode .tun with
  | .error _ => do
    modify fun b => { b with tap := none }
    diagnostic
    return none
  | .ok fd => do
    modify fun b => { b with tap := some fd }
    configureTap fd

/-- The ioctls of `create_tap` on its control socket. -/
def attachTap (control : Fd) (name : String) (index : UInt32) : Service Outcome := do
  let b ← get
  if (← reportedIoctl control (.setTxQueueLength name b.netResources.rxBacklogPackets)) = .failed
    then return .failed
  if (← reportedIoctl control (.bridgeAddInterface b.bridge index)) = .failed then return .failed
  match ← getFlags control name with
  | none => do diagnostic; return .failed
  | some flags => reportedIoctl control (.setFlags name (flags ||| 1))

/-- `create_tap`. -/
def createTap : Service Outcome := do
  match ← openTap with
  | none => return .failed
  | some name =>
    match ← ifNametoindex name with
    | none => do diagnostic; return .failed
    | some index =>
      match ← socket with
      | none => do diagnostic; return .failed
      | some control => do
        let result ← attachTap control name index
        let _ ← close control
        return result

/-! ## Activation -/

/-- One round of the last loop of `activate_network`. -/
def setBackend (i : Nat) : Service Outcome := do
  let b ← get
  if (← ioctl b.net.fd (.netSetBackend i b.tap)) = .failed then
    diagnostic
    return .failed
  modifyEndpoint .network fun e => { e with attached := true }
  return .ok

/-- The part of `activate_network` after the vhost configuration, up to label `failed`. -/
def attachNetwork (status : Status) : Service Outcome := do
  let tap ← (if status = .ok then createTap else pure .failed)
  if tap = .failed then return .failed
  firstFailure [setBackend 0, setBackend 1]

/-- `activate_network`. -/
def activateNetwork (request : Activate) : Service Status := do
  let b ← get
  let features := request.features
  if !b.network then return .unsupported
  if features &&& version1 = 0 ∨ features &&& ~~~networkFeatures ≠ 0 ∨
      (features &&& networkTso ≠ 0 ∧ features &&& networkCsum = 0) then return .invalid
  if b.net.fd.isSome || b.net.bound || b.tap.isSome then return .busy
  let status ← configureVhost .network request.header.epoch.toUInt32 version1 request.queues
    hyperIoNetworkQueues hyperIoNetworkQueues
  if status = .busy ∨ status = .invalid then return status
  if (← attachNetwork status) = .ok then return .ok
  return if (← quiesceNetwork) = .failed then .quiescenceFailed else .backendFailure

end HyperIoVm
