import HyperIoVm.AllOrNothing
import HyperIoVm.RoleConfinement

/-!
# Every reachable device can be quiesced

The invariant of the two devices over a whole run, in either mode of the service: each endpoint
is sane, and the ledger of attachments agrees with what the endpoints record.
-/

namespace HyperIoVm

open Effects Routine

variable {b b' : Backend} {a a' : Attachments} {d : Device}

/-- Both endpoints are sane, whether the memory is mapped or not, and the ledger agrees. -/
structure Regular (b : Backend) (a : Attachments) : Prop where
  sane : ∀ d, (b.endpoint d).Sane true
  ledger : Ledgered b a

/-! ## Operations on a device -/

/-- Only one device changes. -/
theorem Regular.of_endpoint (h : Regular b a) (hwithin : Within d.parts b b')
    (hsane : (b'.endpoint d).Sane true) (hledger : Ledgered b' a') : Regular b' a' where
  sane d' := by
    by_cases hd : d' = d
    · exact hd ▸ hsane
    · have hother : d'.part ∉ d.parts := by
        cases d <;> cases d' <;> simp_all [Device.parts, Device.part, networkParts]
      rw [hwithin.endpoint d' hother]
      exact h.sane d'
  ledger := hledger

theorem Regular.within (h : Regular b a) (hb : Within [.tap, .memory, .blocks] b b') :
    Regular b' a := by
  have hendpoint (d : Device) : b'.endpoint d = b.endpoint d :=
    hb.endpoint d (by cases d <;> simp [Device.part])
  exact ⟨fun d => hendpoint d ▸ h.sane d, fun d => hendpoint d ▸ h.ledger d⟩

/-- A configured endpoint is sane, attached or not. -/
theorem Endpoint.Configured.sane {e : Endpoint} {queues : List Queue} (h : e.Configured queues) :
    e.Sane true where
  attached _ := ⟨h.bound, h.fd⟩
  queues _ _ := .inl h.fd
  borrowed _ := rfl
  routed _ := h.routed

theorem Activation.sane {queues : List Queue} {k k' : Multiset Fd × Attachments} {r : Status}
    (h : Activation d queues b k r b' k') (hb : (b.endpoint d).Sane true)
    (hledger : Ledgered b k.2) : (b'.endpoint d).Sane true ∧ Ledgered b' k'.2 := by
  cases h with
  | refused _ => exact ⟨hb, hledger⟩
  | failed _ hidle hledger => exact ⟨hidle.endpoint.sane true, hledger⟩
  | active _ hrunning hledger => exact ⟨hrunning.configured.sane, hledger⟩
  | retained _ hretained hledger =>
    refine ⟨⟨fun hattached => ⟨hretained.bound, hretained.open_iff.mpr hattached⟩,
      fun _ _ => .inr hretained.bound, fun _ => rfl, fun _ => hretained.routed⟩, hledger⟩

theorem Quiescence.sane {rest : Multiset Fd} {k' : Multiset Fd × Attachments} {r : Outcome}
    (h : Quiescence d rest b a r b' k') (hb : (b.endpoint d).Sane true) :
    (b'.endpoint d).Sane true := by
  cases r with
  | ok => exact (h.idle rfl).endpoint.sane true
  | failed =>
    obtain ⟨-, hkept⟩ := h.failed rfl
    rcases hkept with ⟨-, he⟩ | ⟨hbound, he⟩
    · rw [he]
      exact hb
    · rw [he]
      exact ⟨by simp, fun _ _ => .inr hbound, fun _ => rfl, hb.routed⟩

/-- Quiescing a device, whatever else is open. -/
theorem quiesceDevice_acquires {k : Multiset Fd × Attachments} {rest : Multiset Fd}
    (h : Regular b k.2) (hk : k.1 = b.held d + rest) :
    (quiesceDevice d).wp acquisitions (fun r b' k' => Quiescence d rest b k.2 r b' k') b k := by
  cases d with
  | storage =>
    exact quiesceDisk_acquires h.ledger (fun ha => ((h.sane .storage).attached ha).2) hk
  | network =>
    exact quiesceNetwork_acquires h.ledger (fun ha => ((h.sane .network).attached ha).2) hk

theorem quiesceDevice_confined (d : Device) : Confined d.parts (quiesceDevice d) := by
  cases d with
  | storage => exact quiesceDisk_confined
  | network => exact quiesceNetwork_confined

/-- Quiescing a device, by the ledger of attachments alone. -/
theorem quiesceDevice_regular (h : Regular b a) :
    (quiesceDevice d).wp attachments (fun r b' a' => Regular b' a' ∧
      ∃ fds, Quiescence d 0 b a r b' (fds, a')) b a := by
  have hquiesce := quiesceDevice_acquires (k := (b.held d, a)) (d := d) h (add_zero _).symm
  refine wp_mono (wp_and_free (wp_snd hquiesce fun _ _ _ => trivial)
    ((quiesceDevice_confined d).wp b)) ?_
  rintro r b' a' ⟨⟨fds, hquiesce⟩, hwithin⟩
  exact ⟨h.of_endpoint hwithin (hquiesce.sane (h.sane d)) hquiesce.ledger, fds, hquiesce⟩

/-- Calls that are neutral, over a computation that leaves both endpoints alone. -/
theorem keeps_of_neutral {α : Type} {m : Service α}
    (hneutral : Issues (I := Sys) (fun c => Call.neutral c = true) m)
    (hconfined : Confined [.tap, .memory, .blocks] m) : Keeps attachments Regular m := by
  intro b a h
  refine wp_mono (hneutral.wp (hconfined.wp b) (fun c hc => ?_) fun c r hc => ?_) ?_
  · exact (attachments_neutral hc a c.refused).1
  · exact (attachments_neutral hc a r).2
  · rintro _ b' _ ⟨rfl, hwithin⟩
    exact h.within hwithin

/-! ## Activation -/

/-- The operation that activates a device. -/
def Device.activation : Device → Operation
  | .storage => .activate
  | .network => .networkActivate

/-- The queues an activation record describes. -/
def Device.queues (d : Device) (m : Bytes) : List Queue :=
  match d with
  | .storage => (Activate.decode m hyperIoQueues).queues
  | .network => (Activate.decode m hyperIoNetworkQueues).queues

/-- The switch of `dispatch` runs the activation, or refuses a record of the wrong length. -/
theorem dispatchOperation_activation {k : Multiset Fd × Attachments} (h : Regular b k.2)
    (m : Bytes) : (dispatchOperation d.activation m).wp acquisitions (fun r b' k' =>
      Activation d (d.queues m) b k r.status b' k') b k := by
  rw [dispatchOperation, wp_bind, wp_get]
  cases d with
  | storage =>
    dsimp only [Device.activation]
    rw [wp_ite]
    split
    · rw [wp_bind]
      exact activateDisk_acquires _ (h.sane .storage) h.ledger
    · exact .refused (.inr (.inl rfl))
  | network =>
    dsimp only [Device.activation]
    rw [wp_ite]
    split
    · rw [wp_bind]
      exact activateNetwork_acquires _ (h.sane .network) h.ledger (by simp [Activate.decode])
    · exact .refused (.inr (.inl rfl))

/-- Dispatching an activation record is the activation, or refuses it. -/
theorem dispatch_activation {k : Multiset Fd × Attachments} {m : Bytes} (h : Regular b k.2)
    (hop : operationOf m = d.activation) (session : Session) :
    (dispatch session m).wp acquisitions (fun r b' k' =>
      Activation d (d.queues m) b k r.1.status b' k') b k := by
  have hrelease : isRelease m = false := by
    simp only [isRelease, hop]
    cases d <;> rfl
  have hblock : (operationOf m).isBlock = false := by
    rw [hop]
    cases d <;> rfl
  rw [dispatch, wp_bind, wp_get, hrelease, Bool.false_and, if_neg Bool.false_ne_true, wp_ite]
  split
  · exact .refused (.inr (.inl rfl))
  · rw [hblock, if_neg Bool.false_ne_true, wp_bind, hop]
    exact dispatchOperation_activation h m

/-! ## Every operation keeps the invariant -/

theorem activation_regular (d : Device) (m : Bytes) :
    Keeps attachments Regular (dispatchOperation d.activation m) := by
  intro b a h
  have hconfined : Confined d.parts (dispatchOperation d.activation m) := by
    cases d with
    | storage => exact dispatchOperation_confined .activate m
    | network => exact dispatchOperation_confined .networkActivate m
  have hactivation := dispatchOperation_activation (d := d) (k := (0, a)) h m
  refine wp_mono (wp_and_free (wp_snd hactivation fun _ _ _ => trivial) (hconfined.wp b)) ?_
  rintro r b' a' ⟨⟨fds, hactivation⟩, hwithin⟩
  obtain ⟨hsane, hledger⟩ := hactivation.sane (h.sane d) h.ledger
  exact h.of_endpoint hwithin hsane hledger

theorem quiesceDevice_keeps (d : Device) : Keeps attachments Regular (quiesceDevice d) :=
  fun _ _ h => wp_mono (quiesceDevice_regular h) fun _ _ _ hpost => hpost.1

theorem Silent.regular {α : Type} {m : Service α} (h : Silent m) : Keeps attachments Regular m := by
  have hneutral (c : Call) (hc : c.inert = true) : c.neutral = true := by
    cases c with
    | ioctl fd command => cases command <;> first | rfl | cases hc
    | _ => first | rfl | cases hc
  intro b a hregular
  refine wp_mono (h.wp_of (C := attachments) (fun a c hc => ?_) (fun a c r hc => ?_) b a) ?_
  · exact (attachments_neutral (hneutral c hc) a c.refused).1
  · exact (attachments_neutral (hneutral c hc) a r).2
  · rintro _ b' _ ⟨rfl, hwithin⟩
    exact hregular.within (hwithin.mono (by simp))

theorem releaseMemory_regular : Keeps attachments Regular releaseMemory := by
  have hunmap : Keeps attachments Regular unmapMemory := by
    refine keeps_of_neutral (.bind .get fun b => ?_) (unmapMemory_confined.mono (by simp))
    cases b.memory with
    | none => exact .pure _
    | some a =>
      exact .bind (.perform rfl) fun _ => .ite (.pure _) <| .bind (.modify _) fun _ => .pure _
  have hclose : Keeps attachments Regular closeMemory := by
    refine keeps_of_neutral (.bind .get fun b => ?_) (closeMemory_confined.mono (by simp))
    cases b.memoryFd with
    | none => exact .pure _
    | some fd =>
      exact .bind (.ite (.ioctl _ fun _ => rfl) (.pure _)) fun _ => .ite (.pure _) <|
        .bind (.perform rfl) fun _ => .bind (.modify _) fun _ => .pure _
  have hretire : Keeps attachments Regular retireToken :=
    keeps_of_neutral (.bind .get fun _ => .ite (.pure _) (.ioctl _ fun _ => rfl))
      (.bind .get fun _ => .ite (.pure _) (.ioctl _ _))
  have hquiesce : Keeps attachments Regular quiesceAll :=
    keeps_bind (quiesceDevice_keeps .storage) fun _ =>
      keeps_bind (quiesceDevice_keeps .network) fun _ => keeps_pure _
  exact keeps_bind hquiesce fun _ => keeps_ite (fun _ => keeps_pure _) fun _ =>
    keeps_bind hunmap fun _ => keeps_ite (fun _ => keeps_pure _) fun _ =>
      keeps_bind hclose fun _ => keeps_ite (fun _ => keeps_pure _) fun _ =>
        keeps_bind hretire fun _ => keeps_ite (fun _ => keeps_pure _) fun _ =>
          keeps_bind (keeps_modify fun b _ h => h.within
            ((within_memory b _ _ _ _).mono (by simp))) fun _ => keeps_pure _

/-- The calls of `prepare_memory` are neutral. -/
theorem neutral_of_memory {c : Call} (hc : c.purpose ∈ [Purpose.memory, .common])
    (hioctl : ∀ fd command, c = .ioctl fd command → ∃ prepare, command = .memoryPrepare prepare) :
    c.neutral = true := by
  cases c with
  | ioctl fd command =>
    obtain ⟨prepare, rfl⟩ := hioctl fd command rfl
    rfl
  | openNode node => cases node <;> first | rfl | simp at hc
  | _ => rfl

theorem prepareMemory_regular (request : PrepareMemory) :
    Keeps attachments Regular (prepareMemory request) := by
  refine prepareMemory_keeps (fun c hc hioctl => ?_) (fun b a memory memoryFd token region h => ?_)
    Silent.diagnostic.regular releaseMemory_regular request
  · exact keeps_of_neutral (.perform (neutral_of_memory hc hioctl)) (.sys c)
  · exact h.within ((within_memory b memory memoryFd token region).mono (by simp))

theorem blockDispatch_regular {m : Bytes} (hop : (operationOf m).isBlock = true) :
    Keeps attachments Regular (blockDispatch m) := by
  have hneutral (c : Call) (hc : c.forDisks = true) : c.neutral = true := by
    rcases Call.forDisks_or hc with hpurpose | ⟨fd, rfl⟩ | ⟨path, rfl⟩
    · cases c with
      | ioctl fd command => cases command <;> first | rfl | simp at hpurpose
      | openNode node => cases node <;> first | rfl | simp at hpurpose
      | _ => rfl
    · rfl
    · rfl
  refine keeps_of_neutral ((blockDispatch_disksOnly m).mono hneutral)
    ((blockDispatch_confined m).mono fun p hp => ?_)
  rw [Operation.blocks_of_isBlock hop hp]
  simp

theorem dispatch_regular (session : Session) (m : Bytes) :
    Keeps attachments Regular (dispatch session m) := by
  have hreset (d : Device) (queueStop : Bool) :
      Keeps attachments Regular (resetDevice d queueStop m) :=
    keeps_bind keeps_get fun _ => keeps_ite (fun _ => keeps_pure _) fun _ =>
      keeps_ite (fun _ => keeps_pure _) fun _ => keeps_ite (fun _ => keeps_pure _) fun _ =>
        keeps_bind (quiesceDevice_keeps d) fun _ => keeps_pure _
  have hoperation (op : Operation) : Keeps attachments Regular (dispatchOperation op m) := by
    cases op with
    | activate => exact activation_regular .storage m
    | networkActivate => exact activation_regular .network m
    | hello => exact keeps_bind keeps_get fun _ => (helloDevice_silent _ _).regular
    | networkHello => exact keeps_bind keeps_get fun _ => (helloDevice_silent _ _).regular
    | prepareMemory =>
      exact keeps_bind keeps_get fun _ => keeps_ite (fun _ =>
        keeps_bind (prepareMemory_regular _) fun _ => keeps_pure _) fun _ => keeps_pure _
    | reset | stopQueue | networkReset | networkStopQueue =>
      exact keeps_bind keeps_get fun _ => keeps_bind (hreset _ _) fun _ => keeps_pure _
    | _ => exact keeps_bind keeps_get fun _ => keeps_pure _
  refine keeps_bind keeps_get fun b => keeps_ite (fun _ => ?_) fun _ => ?_
  · exact keeps_bind releaseMemory_regular fun _ => keeps_pure _
  · exact keeps_ite (fun _ => keeps_pure _) fun _ => keeps_ite (fun hop =>
      keeps_bind (blockDispatch_regular hop) fun _ => keeps_pure _) fun _ =>
        keeps_bind (hoperation _) fun _ => keeps_pure _

/-! ## Runs -/

/-- The control loop starts with nothing attached. -/
theorem Start.regular (start : Start) : Regular start.backend {} :=
  ⟨fun d => (start.endpoint_closed d).sane true, fun d => by
    rw [(start.endpoint_closed d).attached]
    cases d <;> rfl⟩

section Runs

variable {env : Environment Sys} {start : Start} {ms : List Bytes} {pre post : List Turn} {t : Turn}

/-- Along a run every device is regular, by the ledger of all calls so far. -/
theorem turns_regular (hts : turns env [] start.serving ms = pre ++ t :: post) :
    attachments.Obeyed (attachments.after {} (turnEvents pre)) t.events ∧
      Regular t.before.backend (attachments.after {} (turnEvents pre)) ∧
      Regular t.after.backend (attachments.after {} (turnEvents (pre ++ [t]))) := by
  obtain ⟨-, hobeyed, hbefore, hafter⟩ := turns_dispatch attachments_assumed
    (fun _ _ _ hb h => h.within (hb.mono (by simp))) dispatch_regular start.regular hts
  exact ⟨hobeyed, hbefore, hafter⟩

/-- So is the state in which a run ends. -/
theorem endState_regular (start : Start) (env : Environment Sys) (ms : List Bytes) :
    attachments.Obeyed {} (turnEvents (turns env [] start.serving ms)) ∧
      Regular (endState start.serving (turns env [] start.serving ms)).backend
        (attachments.after {} (turnEvents (turns env [] start.serving ms))) :=
  turns_end_wp (J := fun s => Regular s.backend) (fun _ _ _ hwell hJ =>
    serveRecord_keeps (fun _ _ _ hb h => h.within (hb.mono (by simp))) dispatch_regular
      (framed_of_wellFramed hwell) hJ) start.regular (attachments_assumed _ _)

/-- A turn that executes a record is one execution of `dispatch`. -/
theorem turns_dispatched {s : Serving} {past : List (Event Sys)} (ht : t ∈ turns env past s ms)
    (hserved : t.served.dispatched = true) : ∃ past' answer b',
      ((dispatch (t.before.admission t.record).2 t.record).run
        t.before.backend.diagnostic).exec env past' = ((answer, b'), t.events) ∧
      t.served.response = answer.1.response (Header.decode t.record) ∧
      t.after.backend = b'.diagnostic := by
  obtain ⟨hframed, hround⟩ := turns_round ht
  obtain ⟨-, past', hexec⟩ := turns_exec ht
  rw [Serving.serveRecord_of_executes hframed (hround.executes hserved)] at hexec
  obtain ⟨hresult, hevents⟩ := Prod.mk.inj ((Program.exec_bind_done
    ((dispatch (t.before.admission t.record).2 t.record).run t.before.backend.diagnostic)
    fun r => ((⟨r.1.1.response (Header.decode t.record), true⟩ : Served),
      t.before.executed t.record r.1 r.2)).symm.trans hexec)
  obtain ⟨hserved', hafter⟩ := Prod.mk.inj hresult
  refine ⟨past', _, _, Prod.ext rfl hevents, ?_, ?_⟩
  · exact congrArg (·.response) hserved'.symm
  · exact congrArg (·.backend) hafter.symm

/-- What holds of an execution of `dispatch` in the turn's session holds of the turn. -/
theorem turns_admitted_wp {K : Type} {C : Contract Sys K} {k : K} {s : Serving}
    {past : List (Event Sys)} {Q : Answer × Session → Backend → K → Prop}
    (ht : t ∈ turns env past s ms) (hserved : t.served.dispatched = true)
    (hassumed : C.Assumed k t.events)
    (hdispatch : (dispatch (t.before.admission t.record).2 t.record).wp C Q
      t.before.backend.diagnostic k) :
    C.Obeyed k t.events ∧ ∃ r b', Q r b' (C.after k t.events) ∧
      t.served.response = r.1.response (Header.decode t.record) ∧
      t.after.backend = b'.diagnostic := by
  obtain ⟨past', r, b', hexec, hresponse, hafter⟩ := turns_dispatched ht hserved
  have hpost := Program.wp_exec env past' hdispatch (by rw [hexec]; exact hassumed)
  rw [hexec] at hpost
  exact ⟨hpost.1, r, b', hpost.2, hresponse, hafter⟩

/-- What holds of every execution of `dispatch` holds of a turn that executes a record. -/
theorem turns_executed_wp {K : Type} {C : Contract Sys K} {k : K} {s : Serving}
    {past : List (Event Sys)} {Q : Answer × Session → Backend → K → Prop}
    (ht : t ∈ turns env past s ms) (hserved : t.served.dispatched = true)
    (hassumed : C.Assumed k t.events)
    (hdispatch : ∀ session, (dispatch session t.record).wp C Q t.before.backend.diagnostic k) :
    C.Obeyed k t.events ∧ ∃ r b', Q r b' (C.after k t.events) ∧
      t.served.response = r.1.response (Header.decode t.record) ∧
      t.after.backend = b'.diagnostic :=
  turns_admitted_wp ht hserved hassumed (hdispatch _)

end Runs

end HyperIoVm
