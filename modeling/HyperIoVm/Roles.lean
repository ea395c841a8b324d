import HyperIoVm.Purpose
import HyperIoVm.Takeover

/-!
# Roles

A service is the block owner, or a client with storage, networking, both or neither. The role
is fixed when it starts, and checked wherever a record could reach beyond it: a device the
service does not have stays closed and its node is never opened, only the owner reaches the
disks, and the owner never holds a grant.
-/

namespace HyperIoVm

open Effects Routine

/-! ## An absent device -/

/-- The service does not have the device `d`, whose endpoint `e` is closed. -/
structure Absent (d : Device) (e : Endpoint) (b : Backend) : Prop where
  device : b.hasDevice d = false
  endpoint : b.endpoint d = e
  closed : e.Closed
  tap : d = .network → b.tap = none

/-- The parts that belong to the device. -/
def Device.owns (d : Device) (p : Part) : Prop := p = d.part ∨ d = .network ∧ p = .tap

section Absent

variable {d : Device} {e : Endpoint} {b b' : Backend} {ps : List Part} {qs : List Purpose}
  {α : Type} {m : Service α}

theorem Absent.within (h : Absent d e b) (hb : Within ps b b') (hps : ∀ p ∈ ps, ¬ d.owns p) :
    Absent d e b' where
  device := by
    have hdevice := h.device
    cases d with
    | storage =>
      rw [Backend.hasDevice] at hdevice ⊢
      rw [hb.wwpn]
      exact hdevice
    | network => exact hb.network.trans hdevice
  endpoint := (hb.endpoint d fun hp => hps _ hp (.inl rfl)).trans h.endpoint
  closed := h.closed
  tap hd := (hb.tap fun hp => hps _ hp (.inr ⟨hd, rfl⟩)).trans (h.tap hd)

/-- The device's node is not opened, and the device stays closed. -/
def KeepsAbsent (d : Device) (e : Endpoint) (m : Service α) : Prop :=
  Keeps (.only (I := Sys) fun c => Call.purpose c ≠ .device d) (fun b _ => Absent d e b) m

/-- What neither concerns the device nor touches it keeps it absent. -/
theorem Uses.keepsAbsent (huses : Uses qs m) (hconfined : Confined ps m)
    (hqs : Purpose.device d ∉ qs) (hps : ∀ p ∈ ps, ¬ d.owns p) : KeepsAbsent d e m := by
  intro b k h
  refine wp_mono (Issues.wp huses (hconfined.wp b) (fun c hc heq => hqs (heq ▸ hc))
    fun _ _ _ => rfl) fun _ b' _ hpost => ?_
  exact h.within hpost.2 hps

theorem purpose_of_inert {c : Call} (h : c.inert = true) : c.purpose ≠ .device d := by
  cases c with
  | openNode node => cases h
  | ioctl fd command => cases command <;> simp [Call.purpose]
  | _ => simp [Call.purpose]

theorem Silent.keepsAbsent (h : Silent m) : KeepsAbsent d e m := by
  intro b k hb
  refine wp_mono (h.wp_of (C := .only fun c => Call.purpose c ≠ .device d)
    (fun _ _ hc => purpose_of_inert hc) (fun _ _ _ _ => rfl) b k) fun _ b' _ hpost => ?_
  exact hb.within hpost.2 (by simp)

theorem keepsAbsent_diagnostic : KeepsAbsent d e diagnostic := Silent.diagnostic.keepsAbsent

end Absent

/-! ### Release and preparation -/

section Operations

variable {d : Device} {e : Endpoint}

/-- The parts of one device are not those of the other. -/
theorem Device.not_owns {d d' : Device} (h : d' ≠ d) {p : Part} (hp : p ∈ d'.parts) :
    ¬ d.owns p := by
  cases d <;> cases d' <;> first
    | exact absurd rfl h
    | (simp only [Device.parts, networkParts, List.mem_cons, List.not_mem_nil, or_false] at hp
       rcases hp with rfl | rfl <;> simp [Device.owns, Device.part])

theorem memory_not_owned {p : Part} (hp : p ∈ [Part.memory]) : ¬ d.owns p := by
  rw [List.mem_singleton.mp hp]
  cases d <;> simp [Device.owns, Device.part]

theorem quiesceDevice_absent (d' : Device) : KeepsAbsent d e (quiesceDevice d') := by
  by_cases hd : d' = d
  · subst hd
    intro b k h
    have hclosed : (b.endpoint d').Closed := h.endpoint ▸ h.closed
    cases d' with
    | storage =>
      refine wp_mono (quiesceDisk_closed hclosed) fun _ b' _ hpost => ?_
      rw [hpost.2.1]
      exact h
    | network =>
      refine wp_mono (quiesceNetwork_closed hclosed (h.tap rfl)) fun _ b' _ hpost => ?_
      rw [hpost.2.1]
      exact h
  · have hconfined : Confined d'.parts (quiesceDevice d') := by
      cases d' with
      | storage => exact quiesceDisk_confined
      | network => exact quiesceNetwork_confined
    exact (quiesceDevice_uses d').keepsAbsent hconfined (by simp) fun p hp => Device.not_owns hd hp

theorem releaseMemory_absent : KeepsAbsent d e releaseMemory := by
  have hquiesce : KeepsAbsent d e quiesceAll :=
    keeps_bind (quiesceDevice_absent .storage) fun _ =>
      keeps_bind (quiesceDevice_absent .network) fun _ => keeps_pure _
  have hunmap : KeepsAbsent d e unmapMemory :=
    unmapMemory_uses.keepsAbsent unmapMemory_confined (by simp) fun _ => memory_not_owned
  have hclose : KeepsAbsent d e closeMemory :=
    closeMemory_uses.keepsAbsent closeMemory_confined (by simp) fun _ => memory_not_owned
  have hretire : KeepsAbsent d e retireToken := by
    have hconfined : Confined [] retireToken :=
      .bind .get fun _ => .ite (.pure _) (.ioctl _ _)
    exact retireToken_uses.keepsAbsent hconfined (by simp) (by simp)
  exact keeps_bind hquiesce fun _ => keeps_ite (fun _ => keeps_pure _) fun _ =>
    keeps_bind hunmap fun _ => keeps_ite (fun _ => keeps_pure _) fun _ =>
      keeps_bind hclose fun _ => keeps_ite (fun _ => keeps_pure _) fun _ =>
        keeps_bind hretire fun _ => keeps_ite (fun _ => keeps_pure _) fun _ =>
          keeps_bind (keeps_modify fun b _ h => h.within
            (within_memory b b.memory b.memoryFd 0 ⟨0, 0⟩) fun _ => memory_not_owned)
            fun _ => keeps_pure _

theorem prepareMemory_absent (request : PrepareMemory) :
    KeepsAbsent d e (prepareMemory request) := by
  refine prepareMemory_keeps (fun c hc _ => ?_) (fun b _ memory memoryFd token region h => ?_)
    keepsAbsent_diagnostic releaseMemory_absent request
  · refine keeps_perform (fun _ _ _ heq => ?_) fun _ _ _ h => h
    rw [heq] at hc
    simp at hc
  · exact h.within (within_memory b memory memoryFd token region) fun _ => memory_not_owned

/-! ### Dispatch -/

theorem resetDevice_absent (d' : Device) (queueStop : Bool) (m : Bytes) :
    KeepsAbsent d e (resetDevice d' queueStop m) :=
  keeps_bind keeps_get fun _ => keeps_ite (fun _ => keeps_pure _) fun _ =>
    keeps_ite (fun _ => keeps_pure _) fun _ => keeps_ite (fun _ => keeps_pure _) fun _ =>
      keeps_bind (quiesceDevice_absent d') fun _ => keeps_pure _

theorem activateDisk_absent (message : Activate) : KeepsAbsent d e (activateDisk message) := by
  by_cases hd : d = .storage
  · subst hd
    intro b k h
    have hwwpn : b.wwpn = "" := by simpa [Backend.hasDevice] using h.device
    rw [activateDisk, wp_bind, wp_get, wp_ite, if_pos hwwpn, wp_pure]
    exact h
  · refine (activateDisk_uses message).keepsAbsent (activateDisk_confined message) ?_ fun p hp =>
      Device.not_owns (show Device.storage ≠ d from fun heq => hd heq.symm) hp
    simp [hd]

theorem activateNetwork_absent (request : Activate) :
    KeepsAbsent d e (activateNetwork request) := by
  by_cases hd : d = .network
  · subst hd
    intro b k h
    have hnetwork : (!b.network) = true := by simpa [Backend.hasDevice] using h.device
    rw [activateNetwork, wp_bind, wp_get]
    dsimp only
    rw [wp_ite, if_pos hnetwork, wp_pure]
    exact h
  · refine (activateNetwork_uses request).keepsAbsent (activateNetwork_confined request) ?_
      fun p hp => Device.not_owns (show Device.network ≠ d from fun heq => hd heq.symm) hp
    simp [hd]

theorem dispatchOperation_absent (op : Operation) (m : Bytes) :
    KeepsAbsent d e (dispatchOperation op m) := by
  refine keeps_bind keeps_get fun b => ?_
  cases op with
  | hello => exact (helloDevice_silent .storage _).keepsAbsent
  | networkHello => exact (helloDevice_silent .network _).keepsAbsent
  | prepareMemory =>
    exact keeps_ite (fun _ => keeps_bind (prepareMemory_absent _) fun _ => keeps_pure _)
      fun _ => keeps_pure _
  | activate =>
    exact keeps_ite (fun _ => keeps_bind (activateDisk_absent _) fun _ => keeps_pure _)
      fun _ => keeps_pure _
  | networkActivate =>
    exact keeps_ite (fun _ => keeps_bind (activateNetwork_absent _) fun _ => keeps_pure _)
      fun _ => keeps_pure _
  | reset => exact keeps_bind (resetDevice_absent .storage _ _) fun _ => keeps_pure _
  | stopQueue => exact keeps_bind (resetDevice_absent .storage _ _) fun _ => keeps_pure _
  | networkReset => exact keeps_bind (resetDevice_absent .network _ _) fun _ => keeps_pure _
  | networkStopQueue => exact keeps_bind (resetDevice_absent .network _ _) fun _ => keeps_pure _
  | releaseMemory => exact keeps_pure _
  | blockHello => exact keeps_pure _
  | blockEnum => exact keeps_pure _
  | blockRead => exact keeps_pure _
  | blockBind => exact keeps_pure _
  | unknown code => exact keeps_pure _

/-- The requests to the block owner touch its tables only. -/
theorem Operation.blocks_of_isBlock {op : Operation} (hop : op.isBlock = true) {p : Part}
    (hp : p ∈ op.parts) : p = .blocks := by
  cases op <;> simp_all [Operation.isBlock, Operation.parts]

theorem blockDispatch_absent (m : Bytes) (hop : (operationOf m).isBlock = true) :
    KeepsAbsent d e (blockDispatch m) := by
  refine (blockDispatch_uses m).keepsAbsent (blockDispatch_confined m) (by simp [diskPurposes])
    fun p hp => ?_
  rw [Operation.blocks_of_isBlock hop hp]
  cases d <;> simp [Device.owns, Device.part]

theorem dispatch_absent (session : Session) (m : Bytes) :
    KeepsAbsent d e (dispatch session m) :=
  keeps_bind keeps_get fun _ => keeps_ite
    (fun _ => keeps_bind releaseMemory_absent fun _ => keeps_pure _) fun _ =>
      keeps_ite (fun _ => keeps_pure _) fun _ => keeps_ite
        (fun hop => keeps_bind (blockDispatch_absent m hop) fun _ => keeps_pure _)
        fun _ => keeps_bind (dispatchOperation_absent _ m) fun _ => keeps_pure _

end Operations

/-! ## A data client -/

section Client

variable {K : Type} {C : Contract Sys K} {k : K} {b : Backend} {m : Bytes}

/-- Without the owner's tables a request to the block owner does nothing. -/
theorem dispatch_not_owner (hb : b.blocks = none) (hop : (operationOf m).isBlock = true)
    (session : Session) : (dispatch session m).wp C (fun r b' k' =>
      r.1.status ≠ .ok ∧ b' = b ∧ k' = k) b k := by
  have hrelease : isRelease m = false := by
    cases hrelease : isRelease m with
    | false => rfl
    | true =>
      rw [operation_of_isRelease hrelease] at hop
      cases hop
  rw [dispatch, wp_bind, wp_get, hrelease, Bool.false_and, if_neg Bool.false_ne_true, wp_ite]
  split
  · exact ⟨by simp, rfl, rfl⟩
  · rw [blockDispatch, wp_bind, wp_bind, wp_get, hb]
    exact ⟨by simp, rfl, rfl⟩

/-- What a client's operations are for. -/
def clientPurposes : List Purpose := [.device .storage, .device .network, .memory, .common]

theorem dispatchOperation_uses (op : Operation) :
    Uses clientPurposes (dispatchOperation op m) := by
  have hhello (d : Device) (size : Nat) : Uses clientPurposes (helloDevice d size) := by
    refine .bind .get fun _ => .ite (.pure _) <| .ite (.pure _) ?_
    cases d with
    | storage =>
      exact .bind (blockTargetReady_uses (by simp [clientPurposes])) fun _ =>
        .ite (.pure _) (.pure _)
    | network => exact .pure _
  have hreset (d : Device) (queueStop : Bool) : Uses clientPurposes (resetDevice d queueStop m) :=
    .bind .get fun _ => .ite (.pure _) <| .ite (.pure _) <| .ite (.pure _) <|
      .bind ((quiesceDevice_uses d).mono (by simp [clientPurposes])) fun _ => .pure _
  refine .bind .get fun b => ?_
  cases op with
  | hello => exact hhello _ _
  | networkHello => exact hhello _ _
  | prepareMemory =>
    exact .ite (.bind ((prepareMemory_uses _).mono (by simp [clientPurposes])) fun _ => .pure _)
      (.pure _)
  | activate =>
    exact .ite (.bind ((activateDisk_uses _).mono (by simp [clientPurposes])) fun _ => .pure _)
      (.pure _)
  | networkActivate =>
    exact .ite (.bind ((activateNetwork_uses _).mono (by simp [clientPurposes])) fun _ => .pure _)
      (.pure _)
  | reset => exact .bind (hreset _ _) fun _ => .pure _
  | stopQueue => exact .bind (hreset _ _) fun _ => .pure _
  | networkReset => exact .bind (hreset _ _) fun _ => .pure _
  | networkStopQueue => exact .bind (hreset _ _) fun _ => .pure _
  | releaseMemory => exact .pure _
  | blockHello => exact .pure _
  | blockEnum => exact .pure _
  | blockRead => exact .pure _
  | blockBind => exact .pure _
  | unknown code => exact .pure _

/-- Only a request to the block owner reaches for the disks. -/
theorem dispatch_uses (session : Session) {m : Bytes} (hop : (operationOf m).isBlock ≠ true) :
    Uses clientPurposes (dispatch session m) := by
  refine .bind .get fun _ => .ite
    (.bind (releaseMemory_uses.mono (by simp [clientPurposes])) fun _ => .pure _) <|
    .ite (.pure _) ?_
  rw [if_neg hop]
  exact .bind (dispatchOperation_uses _) fun _ => .pure _

/-- No record makes a client reach for the disks. -/
theorem dispatch_client (session : Session) (m : Bytes) :
    Keeps (.only (I := Sys) fun c => Call.purpose c ≠ .blocks) (fun b _ => b.blocks = none)
      (dispatch session m) := by
  intro b k hb
  have hnone {b' : Backend} {op : Operation} {status : Status}
      (h : Within (op.touched status) b b') : b'.blocks = none := by
    have howner := h.owner
    rw [hb] at howner
    exact Option.not_isSome_iff_eq_none.mp (by simp [howner])
  by_cases hop : (operationOf m).isBlock = true
  · refine wp_mono (dispatch_not_owner hb hop session) fun _ b' _ hpost => ?_
    rw [hpost.2.1]
    exact hb
  · refine wp_mono (Issues.wp (dispatch_uses session hop) (dispatch_confined session m b)
      (fun c hc heq => ?_) fun _ _ _ => rfl) fun _ _ _ hpost => hnone hpost.2
    rw [heq] at hc
    simp [clientPurposes] at hc

end Client

/-! ## The LUN of a storage client -/

/-- The link under a client's LUN. -/
def lunLink (wwpn : String) : String :=
  s!"/sys/kernel/config/target/vhost/{wwpn}/tpgt_1/lun/lun_0/disk"

/-- Linux confirmed that the link is present. -/
def LunSeen (wwpn : String) (es : List (Event Sys)) : Prop :=
  wwpn ≠ "" ∧ (⟨.access (lunLink wwpn), .ok⟩ : Event Sys) ∈ es

theorem LunSeen.append {wwpn : String} (es fs : List (Event Sys)) (h : LunSeen wwpn es) :
    LunSeen wwpn (es ++ fs) := ⟨h.1, List.mem_append_left _ h.2⟩

section Lun

variable {b : Backend} {h : List (Event Sys)}

theorem blockTargetReady_seen : blockTargetReady.wp (.history Sys) (fun r _ h' =>
    r = true → LunSeen b.wwpn h') b h := by
  rw [blockTargetReady, wp_bind, wp_get]
  dsimp only
  rw [wp_ite]
  split
  next =>
    intro hready
    cases hready
  next hwwpn =>
    refine ⟨trivial, fun found _ hready => ⟨hwwpn, ?_⟩⟩
    rw [beq_iff_eq.mp hready]
    exact List.mem_append_right _ (List.mem_singleton_self _)

/-- Once seen, the link was seen, whatever follows. -/
theorem lunSeen_keeps {α : Type} (wwpn : String) (m : Service α) :
    Keeps (.history Sys) (fun _ h => LunSeen wwpn h) m := keeps_history (fun _ _ => .append _ _) m

theorem helloDevice_lun (size : Nat) : (helloDevice .storage size).wp (.history Sys)
    (fun r _ h' => r.status = .ok → LunSeen b.wwpn h') b h := by
  rw [helloDevice, wp_bind, wp_get, wp_ite]
  split
  · intro hok
    cases hok
  rw [wp_ite]
  split
  · intro hok
    cases hok
  dsimp only
  rw [wp_bind]
  refine wp_mono blockTargetReady_seen fun r b' h' hseen => ?_
  rw [wp_ite]
  split
  next =>
    intro hok
    cases hok
  next hready =>
    intro _
    exact hseen (by simpa using hready)

theorem activateDisk_lun (message : Activate) : (activateDisk message).wp (.history Sys)
    (fun r _ h' => r = .ok → LunSeen b.wwpn h') b h := by
  rw [activateDisk, wp_bind, wp_get, wp_ite]
  split
  · intro hok
    cases hok
  rw [wp_bind]
  refine wp_mono blockTargetReady_seen fun r b' h' hseen => ?_
  rw [wp_ite]
  split
  next =>
    intro hok
    cases hok
  next hready =>
    have hlun : LunSeen b.wwpn h' := hseen (by simpa using hready)
    exact wp_mono (lunSeen_keeps b.wwpn _ b' h' hlun) fun _ _ _ hlun' _ => hlun'

/-- `HELLO` and `ACTIVATE` succeed only when the link was seen. -/
theorem dispatch_lun {m : Bytes} (hop : operationOf m = .hello ∨ operationOf m = .activate)
    (session : Session) : (dispatch session m).wp (.history Sys) (fun r _ h' =>
      r.1.status = .ok → LunSeen b.wwpn h') b h := by
  have hrelease : isRelease m = false := by rcases hop with hop | hop <;> simp [isRelease, hop]
  have hblock : ¬ (operationOf m).isBlock = true := by
    rcases hop with hop | hop <;> rw [hop] <;> decide
  rw [dispatch, wp_bind, wp_get, hrelease, Bool.false_and, if_neg Bool.false_ne_true, wp_ite]
  split
  · intro hok
    cases hok
  rw [wp_bind]
  rcases hop with hop | hop <;> rw [hop, dispatchOperation, wp_bind, wp_get]
  · exact helloDevice_lun _
  · dsimp only
    rw [wp_ite]
    split
    · rw [wp_bind]
      exact activateDisk_lun _
    · intro hok
      cases hok

end Lun

end HyperIoVm
