import HyperIoVm.Regularity
import HyperIoVm.Retirement

/-!
# Activations and their rollback in a run

Every activation of a run is all or nothing, by its system calls alone: what it opened is closed
again or on record, and a device is drained if and only if something was attached to it.
-/

namespace HyperIoVm

open Effects Routine

/-! ## The four results -/

/-- What an activation of `d` with the calls `es` makes of the backend `b`, for each status. -/
inductive AllOrNothing (d : Device) (queues : List Queue) (b : Backend) (es : List (Event Sys)) :
    Status → Backend → Prop where
  /-- The request is refused: nothing has changed, and nothing was opened or attached. -/
  | refused {r : Status} (hr : r = .unsupported ∨ r = .invalid ∨ r = .busy)
    (balanced : Balanced es 0) : AllOrNothing d queues b es r b
  /-- The device is idle again, and every descriptor that was opened was closed exactly once. -/
  | failed {b' : Backend} (before : b.Idle d) (idle : b'.Idle d) (balanced : Balanced es 0)
    (drained : DrainIssued d es ↔ Attached d es) : AllOrNothing d queues b es .backendFailure b'
  /-- The device runs: it holds what was opened and not closed, and is attached. -/
  | active {b' : Backend} (before : b.Idle d)
    (configured : (b'.endpoint d).Configured queues)
    (attached : (b'.endpoint d).attached = true) (balanced : Balanced es (b'.held d))
    (storage : d = .storage → ∃ fd, b'.disk.fd = some fd ∧
      (⟨.ioctl fd (.setEndpoint b'.wwpn), Outcome.ok⟩ : Event Sys) ∈ es)
    (network : d = .network → ∃ fd tap, b'.net.fd = some fd ∧ b'.tap = some tap ∧
      (⟨.ioctl fd (.netSetBackend 0 (some tap)), Outcome.ok⟩ : Event Sys) ∈ es ∧
      (⟨.ioctl fd (.netSetBackend 1 (some tap)), Outcome.ok⟩ : Event Sys) ∈ es) :
    AllOrNothing d queues b es .ok b'
  /-- The rollback failed: what could not be given back is on record. The route is bound, every
  eventfd and the TAP are kept, and the vhost descriptor is kept while the device is attached. -/
  | retained {b' : Backend} (before : b.Idle d) (bound : (b'.endpoint d).bound = true)
    (rings : (b'.endpoint d).Rings queues)
    (open_iff : (b'.endpoint d).fd.isSome = true ↔ (b'.endpoint d).attached = true)
    (tap : d = .network → ∀ fd, (⟨.openNode .tun, Except.ok fd⟩ : Event Sys) ∈ es →
      b'.tap = some fd)
    (balanced : Balanced es (b'.held d)) (drained : DrainIssued d es ↔ Attached d es) :
    AllOrNothing d queues b es .quiescenceFailed b'

variable {b b' : Backend} {a : Attachments} {d : Device} {es : List (Event Sys)}

/-- The ledgers of an activation, read as statements about its calls. -/
theorem Activation.allOrNothing {queues : List Queue} {r : Status} (hledger : Ledgered b a)
    (hdrains : a.drains = []) (htaps : a.taps = []) (hobeyed : acquisitions.Obeyed (0, a) es)
    (h : Activation d queues b (0, a) r b' (acquisitions.after (0, a) es)) :
    AllOrNothing d queues b es r b' := by
  obtain ⟨hdescriptors, hattachments⟩ := Contract.prod_obeyed.mp hobeyed
  have hbalanced := descriptors_balanced hdescriptors
  have hunattached (hidle : b.Idle d) : a.attached d = false :=
    (hledger d).trans hidle.endpoint.attached
  have hdrained (hidle : b.Idle d) (hafter : (attachments.after a es).attached d = false) :
      DrainIssued d es ↔ Attached d es :=
    drainIssued_iff_attached hattachments (hunattached hidle) hafter
  rw [Contract.prod_after] at h
  generalize hfds : descriptors.after 0 es = fds at h hbalanced
  generalize ha' : attachments.after a es = a' at h hdrained
  generalize hk' : (fds, a') = k' at h
  cases h with
  -- no status of an attempt: nothing was issued
  | refused hr =>
    cases hk'
    exact .refused hr hbalanced
  -- undone: what was opened is closed, and what was attached is drained
  | failed hbefore hidle hafter =>
    cases hk'
    refine .failed hbefore hidle hbalanced (hdrained hbefore ?_)
    rw [hafter d, hidle.endpoint.attached]
  -- active: the ledger has what the device runs with
  | active hbefore hrunning hafter =>
    cases hk'
    rw [add_zero] at hbalanced
    refine .active hbefore hrunning.configured hrunning.attached hbalanced (fun hd => ?_)
      fun hd => ?_
    · obtain ⟨fd, hfd, hendpoint⟩ := hrunning.storage hd
      -- the target was attached in these events
      refine ⟨fd, hfd, (endpoint_of_ledger (ha' ▸ hendpoint)).resolve_left fun hbad => ?_⟩
      subst hd
      have hnone := hunattached hbefore
      simp [Attachments.attached, hbad] at hnone
    · obtain ⟨fd, tap, hfd, htap, hqueues⟩ := hrunning.network hd
      have hnone : a.queues = [] := by
        subst hd
        simpa [Attachments.attached] using hunattached hbefore
      -- each queue got the tap in these events
      have hmem (i : Nat) (hi : (fd, i, tap) ∈ a'.queues) :
          (⟨.ioctl fd (.netSetBackend i (some tap)), Outcome.ok⟩ : Event Sys) ∈ es := by
        refine (queue_of_ledger (ha' ▸ hi)).resolve_left fun hbad => ?_
        rw [hnone] at hbad
        cases hbad
      exact ⟨fd, tap, hfd, htap, hmem 0 (by simp [hqueues]), hmem 1 (by simp [hqueues])⟩
  -- retained: the endpoint could not be drained, or closed
  | retained hbefore hretained hafter =>
    cases hk'
    rw [add_zero] at hbalanced
    refine .retained hbefore hretained.bound hretained.rings hretained.open_iff
      (fun hd fd hopen => ?_) hbalanced ?_
    · have hmem : fd ∈ a'.taps := ha' ▸ mem_taps.mpr (.inr hopen)
      rw [hretained.taps hd] at hmem
      simpa [htaps] using hmem
    · cases hattached : (b'.endpoint d).attached with
      | false => exact hdrained hbefore ((hafter d).trans hattached)
      | true =>
        -- the drain was issued and failed
        have hissued : DrainIssued d es := by
          have hmem := (mem_drains hattachments).mp (ha'.symm ▸ hretained.issued hattached)
          simpa [hdrains] using hmem
        refine ⟨fun _ => ?_, fun _ => hissued⟩
        refine (attached_of_drainIssued hattachments hissued).resolve_left fun hbad => ?_
        exact absurd ((hunattached hbefore).symm.trans hbad) Bool.false_ne_true

/-- An activation record that is executed, from a regular backend. -/
theorem turn_allOrNothing {env : Environment Sys} {past : List (Event Sys)} {s : Serving}
    {ms : List Bytes} {t : Turn} (ht : t ∈ turns env past s ms)
    (hserved : t.served.dispatched = true) (hop : operationOf t.record = d.activation)
    (h : Regular t.before.backend a) : ∃ status b',
      t.served.response.status = status.code ∧ t.after.backend = b'.diagnostic ∧
      AllOrNothing d (d.queues t.record) t.before.backend.diagnostic t.events status b' := by
  obtain ⟨past', answer, b', hexec, hresponse, hafter⟩ := turns_dispatched ht hserved
  have hlogged : Regular t.before.backend.diagnostic { a with drains := [], taps := [] } := by
    have hregular := h.within ((Within.diagnostic [] t.before.backend).mono (by simp))
    refine ⟨hregular.sane, fun d => ?_⟩
    rw [← hregular.ledger d]
    cases d <;> rfl
  obtain ⟨hobeyed, hpost⟩ := Program.wp_exec env past'
    (dispatch_activation (k := (0, { a with drains := [], taps := [] })) hlogged hop _)
    (acquisitions_assumed _ _)
  rw [hexec] at hobeyed hpost
  exact ⟨answer.1.status, b', congrArg (·.status) hresponse, hafter,
    hpost.allOrNothing hlogged.ledger rfl rfl hobeyed⟩

/-! ## A quiesce that completes the rollback -/

/-- The call attaches nothing to either device. -/
def Call.AttachesNothing (c : Call) : Prop :=
  ∀ fd command, c = .ioctl fd command → command.attaches = none

/-- Quiescing attaches nothing. -/
theorem quiesceDevice_attaches_nothing (d : Device) :
    Issues (I := Sys) Call.AttachesNothing (quiesceDevice d) := by
  have hioctl {fd : Option Fd} {command : Command} (h : command.attaches = none) :
      Issues (I := Sys) Call.AttachesNothing (ioctl fd command) := by
    refine .ioctl fd fun fd' fd'' command' hc => ?_
    cases hc
    exact h
  have hclose (fd : Option Fd) : Issues (I := Sys) Call.AttachesNothing (closeIfOpen fd) := by
    cases fd with
    | none => exact .pure _
    | some fd => exact .bind (.perform fun _ _ hc => by cases hc) fun _ => .pure _
  have hshut (d : Device) : Issues (I := Sys) Call.AttachesNothing (endpointClose d) := by
    refine .bind .get fun _ => .bind (hclose _) fun _ => .bind (.modify _) fun _ =>
      .bind ?_ fun _ => .ite (.pure _) <| .bind (.forM fun i => ?_) fun _ => .pure _
    · exact .bind .get fun _ => .ite (.pure _) <| .bind (hioctl rfl) fun _ => .ite (.pure _) <|
        .bind (.modify _) fun _ => .pure _
    · exact .bind .get fun _ => .bind (hclose _) fun _ => .bind (hclose _) fun _ => .modify _
  cases d with
  | storage =>
    refine .bind ?_ fun _ => .ite (.pure _) (hshut .storage)
    exact .bind .get fun _ => .ite (.pure _) <| .bind (hioctl rfl) fun _ => .ite (.pure _) <|
      .bind (.modify _) fun _ => .pure _
  | network =>
    refine .bind ?_ fun _ => .ite (.pure _) <| .bind (hshut .network) fun _ => .ite (.pure _) <|
      .bind (.bind .get fun _ => .bind (hclose _) fun _ => .modify _) fun _ => .pure _
    exact .bind .get fun _ => .ite (.pure _) <| .bind (hioctl rfl) fun _ =>
      .ite (.bind (.modify _) fun _ => .pure _) <| .bind (.modify _) fun _ => .pure _

theorem not_attached_of_issues (h : ∀ e ∈ es, Call.AttachesNothing e.1) : ¬ Attached d es := by
  rintro ⟨fd, command, hattaches, hmem⟩
  rw [h _ hmem fd command rfl] at hattaches
  cases hattaches

/-- From a regular backend, a quiesce whose calls succeed leaves the device idle, and drains it
exactly when something is attached. -/
theorem quiesceDevice_completes (h : Regular b a) (env : Environment Sys)
    (past : List (Event Sys))
    (hsucceeds : ∀ e ∈ (((quiesceDevice d).run b).exec env past).2, Succeeds e.1 e.2) :
    (((quiesceDevice d).run b).exec env past).1.1 = .ok ∧
    (((quiesceDevice d).run b).exec env past).1.2.Idle d ∧
    attachments.Obeyed a (((quiesceDevice d).run b).exec env past).2 ∧
    (attachments.after a (((quiesceDevice d).run b).exec env past).2).attached d = false ∧
    ¬ Attached d (((quiesceDevice d).run b).exec env past).2 := by
  have hok : (quiesceDevice d).wp (.assuming Succeeds) (fun r _ _ => r = .ok) b () := by
    cases d with
    | storage => exact quiesceDisk_succeeds (h.sane .storage)
    | network => exact quiesceNetwork_succeeds (h.sane .network)
  have hresult := (Program.wp_exec env past hok (Contract.assuming_assumed hsucceeds)).2
  obtain ⟨hobeyed, hregular, fds, hquiesce⟩ := Program.wp_exec env past
    (quiesceDevice_regular (d := d) h) (attachments_assumed _ _)
  have hnothing := (Program.wp_exec env past (quiesceDevice_attaches_nothing d b () trivial)
    (Contract.only_assumed _ _)).1
  have hidle := hquiesce.idle hresult
  refine ⟨hresult, hidle, hobeyed, ?_, not_attached_of_issues (Contract.only_obeyed hnothing)⟩
  exact (hregular.ledger d).trans hidle.endpoint.attached

/-! ## The run -/

theorem Attached.append_iff {fs : List (Event Sys)} :
    Attached d (es ++ fs) ↔ Attached d es ∨ Attached d fs := by
  simp only [Attached, List.mem_append]
  grind

/-- Activation is all or nothing. In every run, for every choice of outcomes, an activation that
is executed has one of the four results of `AllOrNothing`. From whatever state the run reaches, a
quiesce of the device whose calls succeed leaves it idle, and drains it exactly when something is
still attached to it. After an activation whose rollback failed, such a quiesce completes it: by
then the device was drained if and only if the activation, or one since, attached something. -/
theorem activation_all_or_nothing (start : Start) (env : Environment Sys) (ms : List Bytes) :
    let run := turns env [] start.serving ms
    (∀ t ∈ run, t.served.dispatched = true → ∀ d, operationOf t.record = d.activation →
      ∃ status b', t.served.response.status = status.code ∧ t.after.backend = b'.diagnostic ∧
        AllOrNothing d (d.queues t.record) t.before.backend.diagnostic t.events status b') ∧
    (∀ d b, Within [] (endState start.serving run).backend b →
      ∀ (env' : Environment Sys) (past : List (Event Sys)),
      let quiesce := ((quiesceDevice d).run b).exec env' past
      (∀ e ∈ quiesce.2, Succeeds e.1 e.2) →
        quiesce.1.1 = .ok ∧ quiesce.1.2.Idle d ∧
        (DrainIssued d quiesce.2 ↔ (attachments.after {} (turnEvents run)).attached d = true) ∧
        ∀ pre t mid, run = pre ++ t :: mid → t.served.dispatched = true →
          operationOf t.record = d.activation →
          t.served.response.status = Status.quiescenceFailed.code →
            (DrainIssued d (t.events ++ turnEvents mid ++ quiesce.2) ↔
              Attached d (t.events ++ turnEvents mid))) := by
  intro run
  refine ⟨fun t ht hserved d hop => ?_, ?_⟩
  · obtain ⟨pre, post, hts⟩ := List.append_of_mem ht
    exact turn_allOrNothing ht hserved hop (turns_regular hts).2.1
  · intro d b hb env' past quiesce hsucceeds
    obtain ⟨hobeyedRun, hend⟩ := endState_regular start env ms
    have hregular := hend.within (hb.mono (by simp))
    obtain ⟨hok, hidle, hobeyed, hafter, hnothing⟩ :=
      quiesceDevice_completes (d := d) hregular env' past hsucceeds
    refine ⟨hok, hidle, ⟨fun hdrain => ?_, fun hattached => ?_⟩, ?_⟩
    · -- what is drained was attached
      exact (attached_of_drainIssued hobeyed hdrain).resolve_right hnothing
    · -- what is attached has to be drained before the device is idle
      exact drainIssued_of_ledger hobeyed (.inl hattached) hafter
    · intro pre t mid hrun hserved hop hstatus
      have ht : t ∈ run := by simp [hrun]
      obtain ⟨-, hbefore, -⟩ := turns_regular hrun
      -- the device was idle before the activation
      obtain ⟨status, b', hcode, -, hresult⟩ := turn_allOrNothing ht hserved hop hbefore
      obtain rfl : status = .quiescenceFailed := Status.code_injective (hcode.symm.trans hstatus)
      have hidleBefore : t.before.backend.diagnostic.Idle d := by
        cases hresult with
        | refused hr => simp at hr
        | retained hidle => exact hidle
      have hunattached : (attachments.after {} (turnEvents pre)).attached d = false := by
        rw [hbefore.ledger d, ← (Within.diagnostic [] t.before.backend).endpoint d (by simp)]
        exact hidleBefore.endpoint.attached
      -- the stretch from the activation to the quiesce starts and ends with nothing attached
      have hsplit : turnEvents run = turnEvents pre ++ (t.events ++ turnEvents mid) := by
        rw [hrun, turnEvents_append, turnEvents_cons]
      rw [hsplit, attachments.after_append] at hobeyed hafter
      rw [show turnEvents (turns env [] start.serving ms) = _ from hsplit,
        attachments.obeyed_append] at hobeyedRun
      have hstretch := drainIssued_iff_attached (d := d)
        (attachments.obeyed_append.mpr ⟨hobeyedRun.2, hobeyed⟩) hunattached
        (by rw [attachments.after_append]; exact hafter)
      rw [hstretch, Attached.append_iff, or_iff_left hnothing]

end HyperIoVm
