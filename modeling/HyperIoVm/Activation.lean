import HyperIoVm.Attachments
import HyperIoVm.Descriptors
import HyperIoVm.Retire

/-!
# What an activation acquires and gives back

The functions of an activation under two ledgers at once: the descriptors that are open, and
what is attached. Each of them leaves the endpoint holding exactly what is open; a failed
activation ends with nothing open and nothing attached, or with everything on record that
could not be given back.
-/

namespace HyperIoVm

open Effects Routine

/-- The two ledgers of an activation. -/
abbrev acquisitions : Contract Sys (Multiset Fd × Attachments) := descriptors.prod attachments

theorem acquisitions_assumed (k : Multiset Fd × Attachments) (es : List (Event Sys)) :
    acquisitions.Assumed k es :=
  Contract.assumed_of_all (C := acquisitions) fun _ _ _ => ⟨trivial, trivial⟩

variable {b : Backend} {k : Multiset Fd × Attachments} {rest : Multiset Fd} {d : Device}

/-! ## Calls -/

/-- A call that closes nothing and is neutral to the devices. -/
theorem acquisitions_neutral {c : Call} (hcloses : c.closes = none) (h : c.neutral = true)
    (k : Multiset Fd × Attachments) (r : c.Reply) :
    acquisitions.allows k c ∧ acquisitions.next k c r = (slot (c.obtained r) + k.1, k.2) := by
  obtain ⟨hallow, hnext⟩ := attachments_neutral h k.2 r
  refine ⟨⟨fun fd hfd => ?_, hallow⟩, ?_⟩
  · rw [hcloses] at hfd; cases hfd
  · show ((slot (c.obtained r) + k.1) - slot c.closes, attachments.next k.2 c r) = _
    rw [hcloses, hnext, slot_none, Multiset.sub_zero]

theorem wp_neutral {c : Call} {Q : c.Reply → Backend → Multiset Fd × Attachments → Prop}
    (hcloses : c.closes = none) (h : c.neutral = true)
    (hQ : ∀ r, Q r b (slot (c.obtained r) + k.1, k.2)) : (sys c).wp acquisitions Q b k := by
  have hr (r : c.Reply) := acquisitions_neutral hcloses h k r
  refine wp_issue (hr c.refused).1 fun r _ => ?_
  rw [(hr r).2]
  exact hQ r

/-- An ioctl that is neutral to the devices: it fails, or succeeds on an open descriptor. -/
theorem ioctl_acquires {fd : Option Fd} {command : Command}
    {Q : Outcome → Backend → Multiset Fd × Attachments → Prop}
    (h : ∀ fd, (Call.ioctl fd command).neutral = true) (hfailed : Q .failed b k)
    (hok : fd.isSome = true → Q .ok b k) : (ioctl fd command).wp acquisitions Q b k := by
  cases fd with
  | none => exact hfailed
  | some fd =>
    refine wp_neutral (c := .ioctl fd command) rfl (h fd) fun r => ?_
    rw [show slot ((Call.ioctl fd command).obtained r) = 0 from rfl, zero_add]
    change Outcome at r
    cases r with
    | ok => exact hok rfl
    | failed => exact hfailed

/-- An ioctl that may attach or drain a device. -/
theorem wp_transfer {fd : Fd} {command : Command}
    {Q : Outcome → Backend → Multiset Fd × Attachments → Prop}
    (hdrains : ∀ d, command.drains = some d → k.2.attached d = true)
    (htap : ∀ i, command ≠ .netSetBackend i none)
    (hQ : ∀ r : Outcome, Q r b (k.1, k.2.next (.ioctl fd command) r)) :
    (ioctl (some fd) command).wp acquisitions Q b k := by
  have hallow : acquisitions.allows k (.ioctl fd command) := by
    refine ⟨fun fd' (hfd' : none = some fd') => (by cases hfd'), fun fd' command' hc => ?_⟩
    cases hc
    exact ⟨hdrains, htap⟩
  refine wp_issue_ioctl hallow fun r _ => ?_
  have hnext : acquisitions.next k (.ioctl fd command) r =
      (k.1, k.2.next (.ioctl fd command) r) := by
    show ((slot none + k.1) - slot none, _) = _
    rw [slot_none, zero_add, Multiset.sub_zero]
    rfl
  rw [hnext]
  exact hQ r

/-- A silent computation opens, closes, attaches and drains nothing. -/
theorem Silent.acquires {α : Type} {m : Service α} (h : Silent m) (b : Backend)
    (k : Multiset Fd × Attachments) :
    m.wp acquisitions (fun _ b' k' => k' = k ∧ Within [] b b') b k := by
  have hinert (c : Call) (hc : c.inert = true) :
      c.closes = none ∧ c.neutral = true ∧ ∀ r, c.obtained r = none := by
    cases c with
    | ioctl fd command => cases command <;> first | exact ⟨rfl, rfl, fun _ => rfl⟩ | cases hc
    | _ => first | exact ⟨rfl, rfl, fun _ => rfl⟩ | cases hc
  refine h.wp_of (C := acquisitions) (fun k c hc => ?_) (fun k c r hc => ?_) b k
  · exact (acquisitions_neutral (hinert c hc).1 (hinert c hc).2.1 k c.refused).1
  · rw [(acquisitions_neutral (hinert c hc).1 (hinert c hc).2.1 k r).2, (hinert c hc).2.2 r,
      slot_none, zero_add]

/-- Closing a descriptor that is open. -/
theorem close_acquires (rest : Multiset Fd) {fd : Fd} (hk : k.1 = slot (some fd) + rest) :
    (close fd).wp acquisitions (fun _ b' k' => b' = b ∧ k' = (rest, k.2)) b k := by
  have hmem : fd ∈ k.1 := by simp [hk]
  have hallow : acquisitions.allows k (.close fd) :=
    ⟨fun fd' hfd' => Option.some.inj hfd' ▸ hmem,
      (attachments_neutral (c := .close fd) rfl k.2 Outcome.ok).1⟩
  refine wp_issue (c := .close fd) hallow fun r _ => ⟨rfl, ?_⟩
  show ((slot none + k.1) - slot (some fd), attachments.next k.2 (.close fd) r) = _
  rw [hk, slot_none, zero_add, add_tsub_cancel_left]
  rfl

/-- Closing the descriptor of a field, if there is one. -/
theorem closeIfOpen_acquires {fd : Option Fd} (hk : k.1 = slot fd + rest) :
    (closeIfOpen fd).wp acquisitions (fun _ b' k' => b' = b ∧ k' = (rest, k.2)) b k := by
  cases fd with
  | none =>
    refine ⟨rfl, ?_⟩
    rw [← zero_add rest, ← slot_none, ← hk]
  | some fd =>
    rw [closeIfOpen, wp_bind]
    exact wp_mono (close_acquires rest hk) fun _ _ _ hpost => hpost

/-! ## Closing an endpoint -/

/-- One round of closing: the two eventfds of a queue. -/
theorem closeQueue_acquires (rest : Multiset Fd) (i : Fin 6) {e' : Endpoint}
    (he' : e' = { b.endpoint d with
      kick := Function.update (b.endpoint d).kick i none
      call := Function.update (b.endpoint d).call i none })
    (hk : k.1 = (b.endpoint d).held + rest) :
    (closeQueue d i).wp acquisitions (fun _ b' k' =>
      b' = b.setEndpoint d e' ∧ k' = (e'.held + rest, k.2)) b k := by
  set e := b.endpoint d with he
  have hheld : k.1 = slot (e.kick i) + (slot (e.call i) + (e'.held + rest)) := by
    have hqueue := e.held_queue i none none
    rw [slot_none, add_zero, add_zero, ← he'] at hqueue
    rw [hk, ← hqueue]
    ac_rfl
  simp only [closeQueue, wp_bind, wp_get]
  refine wp_mono (closeIfOpen_acquires hheld) ?_
  rintro _ _ _ ⟨rfl, rfl⟩
  refine wp_mono (closeIfOpen_acquires rfl) ?_
  rintro _ _ _ ⟨rfl, rfl⟩
  exact ⟨by rw [he'], rfl⟩

/-- Unbinding the notification route, if it is bound. -/
theorem endpointUnbind_acquires :
    (endpointUnbind d).wp acquisitions (fun r b' k' => k' = k ∧
      (r = .failed ∧ b' = b ∧ (b.endpoint d).bound = true ∨
        r = .ok ∧ b' = b.setEndpoint d { b.endpoint d with bound := false })) b k := by
  simp only [endpointUnbind, wp_bind, wp_get, wp_ite, wp_pure]
  split
  next hbound =>
    simp only [Bool.not_eq_true'] at hbound
    have hsame : b.setEndpoint d { b.endpoint d with bound := false } = b := by
      rw [← hbound]
      exact b.setEndpoint_self d
    exact ⟨trivial, .inr ⟨trivial, hsame.symm⟩⟩
  next hbound =>
    simp only [Bool.not_eq_true', Bool.not_eq_false] at hbound
    refine ioctl_acquires (fun _ => rfl) ?_ fun _ => ?_
    · rw [if_pos rfl]
      exact ⟨rfl, .inl ⟨trivial, rfl, hbound⟩⟩
    · rw [if_neg (by decide)]
      exact ⟨rfl, .inr ⟨trivial, rfl⟩⟩

/-- `endpoint_close` gives everything back, or keeps all but the vhost descriptor. -/
theorem endpointClose_acquires (hk : k.1 = (b.endpoint d).held + rest) :
    (endpointClose d).wp acquisitions (fun r b' k' =>
      r = .ok ∧ k' = (rest, k.2) ∧ b' = b.setEndpoint d
        (Endpoint.closeQueues { b.endpoint d with fd := none, bound := false } (List.finRange 6)) ∨
      r = .failed ∧ (b.endpoint d).bound = true ∧
        b' = b.setEndpoint d { b.endpoint d with fd := none } ∧
        k' = ({ b.endpoint d with fd := none }.held + rest, k.2)) b k := by
  set e := b.endpoint d with he
  have hfd : k.1 = slot e.fd + ({ e with fd := none }.held + rest) := by
    have hfd := e.held_fd none
    rw [slot_none, add_zero] at hfd
    rw [hk, ← hfd]
    ac_rfl
  simp only [endpointClose, wp_bind, wp_get]
  -- the device's own descriptor is let go of first
  refine wp_mono (closeIfOpen_acquires hfd) ?_
  rintro _ b _ ⟨rfl, rfl⟩
  refine (wp_modify _).mpr (wp_mono endpointUnbind_acquires ?_)
  rintro r b₂ k₂ ⟨rfl, hr⟩
  rw [Backend.endpoint_setEndpoint, Backend.setEndpoint_setEndpoint] at hr
  rcases hr with ⟨rfl, rfl, hbound⟩ | ⟨rfl, rfl⟩
  · -- the driver keeps its reference: the eventfds stay too
    rw [if_pos rfl, wp_pure]
    exact .inr ⟨rfl, hbound, rfl, rfl⟩
  · rw [if_neg (by decide), wp_bind]
    -- each closed queue leaves the eventfds of those that are open
    refine wp_mono (wp_forM (J := fun done b' k' =>
      b' = b.setEndpoint d (Endpoint.closeQueues { e with fd := none, bound := false } done) ∧
        k' = ((Endpoint.closeQueues { e with fd := none, bound := false } done).held + rest, k.2))
      ?_ ⟨by simp [he], by simp; rfl⟩) ?_
    · rintro pre i _ _ _ _ ⟨rfl, rfl⟩
      refine wp_mono (closeQueue_acquires rest i rfl ?_) ?_
      · rw [Backend.endpoint_setEndpoint]
      · rintro _ _ _ ⟨rfl, rfl⟩
        rw [Backend.endpoint_setEndpoint, Backend.setEndpoint_setEndpoint,
          Endpoint.closeQueues_append]
        exact ⟨rfl, rfl⟩
    · rintro _ _ _ ⟨rfl, rfl⟩
      refine .inl ⟨rfl, ?_, rfl⟩
      simp [Endpoint.held, Endpoint.closeQueues]

/-! ## The drains -/

/-- The ledger agrees with what the endpoints record. -/
def Ledgered (b : Backend) (a : Attachments) : Prop :=
  ∀ d, a.attached d = (b.endpoint d).attached

theorem Ledgered.within {b b' : Backend} {a : Attachments} (h : Ledgered b a)
    (hb : Within [] b b') : Ledgered b' a := fun d => by
  rw [hb.endpoint d (by simp)]
  exact h d

/-- The drain of device `d`, from `b` and the ledger `a`. -/
structure Drain (d : Device) (b : Backend) (a : Attachments) (r : Outcome) (b' : Backend)
    (a' : Attachments) : Prop where
  ok : r = .ok → b' = b.setEndpoint d { b.endpoint d with attached := false }
  failed : r = .failed → Within [] b b' ∧ (b.endpoint d).attached = true
  ledger : Ledgered b' a'
  issued : (b.endpoint d).attached = true → d ∈ a'.drains
  taps : a'.taps = a.taps

/-- Nothing is drained that is not attached. -/
theorem Drain.unattached {a : Attachments} (hledger : Ledgered b a)
    (h : (b.endpoint d).attached = false) : Drain d b a .ok b a where
  ok _ := by
    rw [← h]
    exact (b.setEndpoint_self d).symm
  failed hr := by cases hr
  ledger := hledger
  issued ha := absurd (h.symm.trans ha) Bool.false_ne_true
  taps := rfl

theorem drainDisk_acquires (hledger : Ledgered b k.2)
    (hopen : b.disk.attached = true → b.disk.fd.isSome = true) :
    drainDisk.wp acquisitions (fun r b' k' => k'.1 = k.1 ∧ Drain .storage b k.2 r b' k'.2) b k := by
  simp only [drainDisk, wp_bind, wp_get, wp_ite, wp_pure]
  split
  next hattached =>
    simp only [Bool.not_eq_true'] at hattached
    -- nothing to drain
    exact ⟨trivial, .unattached hledger hattached⟩
  next hattached =>
    simp only [Bool.not_eq_true', Bool.not_eq_false] at hattached
    obtain ⟨fd, hfd⟩ := Option.isSome_iff_exists.mp (hopen hattached)
    rw [hfd]
    refine wp_transfer (fun d hd => ?_) (by simp) fun r => ?_
    · cases hd
      exact (hledger .storage).trans hattached
    · cases r with
      | failed =>
        -- not drained: the target stays attached
        rw [if_pos rfl]
        refine ⟨rfl, by simp, fun _ => ⟨.refl [] b, hattached⟩, ?_, ?_, rfl⟩
        · exact fun d => by cases d with
            | storage => exact hledger .storage
            | network => exact hledger .network
        · exact fun _ => by simp [Attachments.next]
      | ok =>
        -- drained, and detached
        rw [if_neg (by decide)]
        refine ⟨rfl, fun _ => rfl, by simp, ?_, ?_, rfl⟩
        · intro d
          cases d with
          | storage => rfl
          | network => exact hledger .network
        · exact fun _ => by simp [Attachments.next]

theorem drainNetwork_acquires (hledger : Ledgered b k.2)
    (hopen : b.net.attached = true → b.net.fd.isSome = true) :
    drainNetwork.wp acquisitions (fun r b' k' => k'.1 = k.1 ∧ Drain .network b k.2 r b' k'.2)
      b k := by
  simp only [drainNetwork, wp_bind, wp_get, wp_ite, wp_pure]
  split
  next hattached =>
    simp only [Bool.not_eq_true'] at hattached
    -- nothing to drain
    exact ⟨trivial, .unattached hledger hattached⟩
  next hattached =>
    simp only [Bool.not_eq_true', Bool.not_eq_false] at hattached
    obtain ⟨fd, hfd⟩ := Option.isSome_iff_exists.mp (hopen hattached)
    rw [hfd]
    refine wp_transfer (fun d hd => ?_) (by simp) fun r => ?_
    · cases hd
      exact (hledger .network).trans hattached
    · cases r with
      | failed =>
        -- not drained: the queue stays attached
        rw [if_pos rfl]
        refine ⟨rfl, by simp, fun _ => ⟨.diagnostic [] b, hattached⟩, ?_, ?_, rfl⟩
        · refine Ledgered.within (b := b) (fun d => ?_) (.diagnostic [] b)
          cases d with
          | storage => exact hledger .storage
          | network => exact hledger .network
        · exact fun _ => by simp [Attachments.next]
      | ok =>
        -- drained, and detached
        rw [if_neg (by decide)]
        refine ⟨rfl, fun _ => rfl, by simp, ?_, ?_, rfl⟩
        · intro d
          cases d with
          | storage => exact hledger .storage
          | network => rfl
        · exact fun _ => by simp [Attachments.next]

/-! ## Quiescing a device -/

/-- What a device holds: its endpoint, and the TAP of the network device. -/
def Backend.held (b : Backend) : Device → Multiset Fd
  | .storage => b.disk.held
  | .network => b.net.held + slot b.tap

/-- The device is fully idle. -/
structure Backend.Idle (b : Backend) (d : Device) : Prop where
  endpoint : (b.endpoint d).Closed
  tap : d = .network → b.tap = none

/-- Quiescing device `d` from `b` and the ledger `a`, with `rest` open elsewhere: the device is
idle, or it keeps everything that could not be given back. -/
structure Quiescence (d : Device) (rest : Multiset Fd) (b : Backend) (a : Attachments) (r : Outcome)
    (b' : Backend) (k' : Multiset Fd × Attachments) : Prop where
  held : k'.1 = b'.held d + rest
  idle : r = .ok → b'.Idle d
  failed : r = .failed → b'.tap = b.tap ∧
    ((b.endpoint d).attached = true ∧ b'.endpoint d = b.endpoint d ∨
      (b.endpoint d).bound = true ∧
        b'.endpoint d = { b.endpoint d with fd := none, attached := false })
  ledger : Ledgered b' k'.2
  issued : (b.endpoint d).attached = true → d ∈ k'.2.drains
  taps : k'.2.taps = a.taps

/-- An idle device holds nothing. -/
theorem Endpoint.Closed.held {e : Endpoint} (h : e.Closed) : e.held = 0 := by
  simp [Endpoint.held, h.fd, h.queues]

theorem Backend.Idle.held (h : b.Idle d) : b.held d = 0 := by
  cases d with
  | storage => exact h.endpoint.held
  | network => rw [Backend.held, h.tap rfl, slot_none, add_zero]; exact h.endpoint.held

/-- What `endpoint_close` does not change, and what it leaves of the endpoint. -/
structure Shut (d : Device) (b : Backend) (r : Outcome) (b' : Backend) : Prop where
  endpoint : ∃ e, b' = b.setEndpoint d e
  closed : r = .ok → (b'.endpoint d).Closed
  failed : r = .failed → (b.endpoint d).bound = true ∧
    b'.endpoint d = { b.endpoint d with fd := none }
  attached : (b'.endpoint d).attached = false

/-- `endpoint_close` on a device that is not attached. -/
theorem endpointClose_shuts (rest : Multiset Fd) (hattached : (b.endpoint d).attached = false)
    (hk : k.1 = (b.endpoint d).held + rest) :
    (endpointClose d).wp acquisitions (fun r b' k' => Shut d b r b' ∧
      k' = ((b'.endpoint d).held + rest, k.2)) b k := by
  refine wp_mono (endpointClose_acquires hk) ?_
  rintro r b' k' (⟨rfl, rfl, rfl⟩ | ⟨rfl, hbound, rfl, rfl⟩)
  · refine ⟨⟨⟨_, rfl⟩, fun _ => ?_, by simp, ?_⟩, ?_⟩
    · rw [Backend.endpoint_setEndpoint]
      exact ⟨rfl, rfl, hattached, fun i => by simp [Endpoint.closeQueues]⟩
    · rw [Backend.endpoint_setEndpoint]
      exact hattached
    · simp [Endpoint.held, Endpoint.closeQueues]
  · exact ⟨⟨⟨_, rfl⟩, by simp, fun _ => ⟨hbound, by simp⟩, by simpa using hattached⟩, by simp⟩

/-- The ledger does not change when an endpoint is shut that is not attached. -/
theorem Shut.ledger {r : Outcome} {b' : Backend} {a : Attachments} (h : Shut d b r b')
    (hattached : (b.endpoint d).attached = false) (hledger : Ledgered b a) : Ledgered b' a := by
  intro d'
  obtain ⟨e, rfl⟩ := h.endpoint
  by_cases hd : d' = d
  · subst hd
    rw [h.attached, hledger, hattached]
  · rw [Backend.endpoint_setEndpoint_ne b e hd]
    exact hledger d'

theorem quiesceDisk_acquires (hledger : Ledgered b k.2)
    (hopen : b.disk.attached = true → b.disk.fd.isSome = true) (hk : k.1 = b.held .storage + rest) :
    quiesceDisk.wp acquisitions (fun r b' k' => Quiescence .storage rest b k.2 r b' k') b k := by
  simp only [quiesceDisk, wp_bind, wp_ite, wp_pure]
  refine wp_mono (drainDisk_acquires hledger hopen) ?_
  rintro r b₁ k₁ ⟨hheld, hdrain⟩
  cases r with
  | failed =>
    -- not drained: nothing has been closed
    obtain ⟨hwithin, hattached⟩ := hdrain.failed rfl
    rw [if_pos rfl]
    refine ⟨?_, by simp, fun _ => ⟨hwithin.tap (by simp), .inl ⟨hattached, ?_⟩⟩, hdrain.ledger,
      hdrain.issued, hdrain.taps⟩
    · rw [hheld, hk, Backend.held, Backend.held, hwithin.disk (by simp)]
    · exact hwithin.disk (by simp)
  | ok =>
    -- drained, so the endpoint is closed
    have hb₁ := hdrain.ok rfl
    have hattached : (b₁.endpoint .storage).attached = false := by rw [hb₁]; rfl
    rw [if_neg (by decide)]
    refine wp_mono (endpointClose_shuts rest hattached ?_) ?_
    · rw [hheld, hk, hb₁]
      rfl
    · rintro r b₂ k₂ ⟨hshut, rfl⟩
      obtain ⟨e, he⟩ := hshut.endpoint
      refine ⟨rfl, fun hr => ⟨hshut.closed hr, by simp⟩, fun hr => ?_,
        hshut.ledger hattached hdrain.ledger, hdrain.issued, hdrain.taps⟩
      obtain ⟨hbound, hkept⟩ := hshut.failed hr
      rw [hb₁] at hbound hkept
      refine ⟨?_, .inr ⟨hbound, hkept⟩⟩
      rw [he, hb₁]
      rfl

theorem closeTap_acquires (rest : Multiset Fd) (hk : k.1 = slot b.tap + rest) :
    closeTap.wp acquisitions (fun _ b' k' => b' = { b with tap := none } ∧ k' = (rest, k.2))
      b k := by
  simp only [closeTap, wp_bind, wp_get, wp_modify]
  refine wp_mono (closeIfOpen_acquires hk) ?_
  rintro _ b _ ⟨rfl, rfl⟩
  exact ⟨rfl, rfl⟩

theorem quiesceNetwork_acquires (hledger : Ledgered b k.2)
    (hopen : b.net.attached = true → b.net.fd.isSome = true) (hk : k.1 = b.held .network + rest) :
    quiesceNetwork.wp acquisitions (fun r b' k' => Quiescence .network rest b k.2 r b' k') b k := by
  simp only [quiesceNetwork, wp_bind, wp_ite, wp_pure]
  refine wp_mono (drainNetwork_acquires hledger hopen) ?_
  rintro r b₁ k₁ ⟨hheld, hdrain⟩
  cases r with
  | failed =>
    -- not drained: nothing has been closed
    obtain ⟨hwithin, hattached⟩ := hdrain.failed rfl
    rw [if_pos rfl]
    refine ⟨?_, by simp, fun _ => ⟨hwithin.tap (by simp), .inl ⟨hattached, ?_⟩⟩, hdrain.ledger,
      hdrain.issued, hdrain.taps⟩
    · rw [hheld, hk, Backend.held, Backend.held, hwithin.net (by simp), hwithin.tap (by simp)]
    · exact hwithin.net (by simp)
  | ok =>
    -- drained, so the endpoint is closed
    have hb₁ := hdrain.ok rfl
    have hattached : (b₁.endpoint .network).attached = false := by rw [hb₁]; rfl
    rw [if_neg (by decide)]
    refine wp_mono (endpointClose_shuts (slot b.tap + rest) hattached ?_) ?_
    · rw [hheld, hk, hb₁, ← add_assoc]
      rfl
    · rintro r b₂ k₂ ⟨hshut, rfl⟩
      obtain ⟨e, he⟩ := hshut.endpoint
      have htap : b₂.tap = b.tap := by rw [he, hb₁]; rfl
      have hledger₂ := hshut.ledger hattached hdrain.ledger
      cases r with
      | failed =>
        -- the endpoint is still bound, so the tap stays
        rw [if_pos rfl]
        obtain ⟨hbound, hkept⟩ := hshut.failed rfl
        rw [hb₁] at hbound hkept
        refine ⟨?_, by simp, fun _ => ⟨htap, .inr ⟨hbound, hkept⟩⟩, hledger₂, hdrain.issued,
          hdrain.taps⟩
        rw [Backend.held, htap, add_assoc]
        rfl
      | ok =>
        -- the tap goes last
        have hclosed := hshut.closed rfl
        rw [if_neg (by decide)]
        refine wp_mono (closeTap_acquires rest ?_) ?_
        · rw [hclosed.held, zero_add, htap]
        · rintro _ _ _ ⟨rfl, rfl⟩
          have hidle : ({ b₂ with tap := none } : Backend).Idle .network := ⟨hclosed, fun _ => rfl⟩
          refine ⟨?_, fun _ => hidle, by simp, fun d => ?_, hdrain.issued, hdrain.taps⟩
          · rw [hidle.held, zero_add]
          · cases d with
            | storage => exact hledger₂ .storage
            | network => exact hledger₂ .network

/-! ## Configuring an endpoint -/

/-- The eventfds of exactly the configured queues are open: those with a size. -/
def Endpoint.Rings (e : Endpoint) (queues : List Queue) : Prop :=
  ∀ i : Fin 6, ((e.kick i).isSome = true ↔ ∃ q, queues[i.val]? = some q ∧ q.size ≠ 0) ∧
    ((e.call i).isSome = true ↔ ∃ q, queues[i.val]? = some q ∧ q.size ≠ 0)

/-- Opening an eventfd. -/
theorem eventfd_acquires : eventfd.wp acquisitions (fun r b' k' =>
    b' = b ∧ k' = (slot r + k.1, k.2)) b k :=
  wp_neutral (c := .eventfd) rfl rfl fun _ => ⟨rfl, rfl⟩

/-- One round of installation: at most the two eventfds of the queue are opened, and both are
when it succeeds on a configured queue. -/
theorem installQueue_acquires (areas : List Area) (i : Fin 6) (q : Queue) (bridge : Eventfds)
    (hkick : (b.endpoint d).kick i = none) (hcall : (b.endpoint d).call i = none) :
    (installQueue d areas i q bridge).wp acquisitions (fun r b' k' => ∃ kick call,
      b'.endpoint d = { b.endpoint d with
        kick := Function.update (b.endpoint d).kick i kick
        call := Function.update (b.endpoint d).call i call } ∧
      k' = (slot kick + slot call + k.1, k.2) ∧
      (r.isSome = true → (kick.isSome = true ↔ q.size ≠ 0) ∧ (call.isSome = true ↔ q.size ≠ 0)))
      b k := by
  -- an eventfd that is not opened leaves the slot as it is
  have hkick' : Function.update (b.endpoint d).kick i none = (b.endpoint d).kick :=
    Function.update_eq_self_iff.mpr hkick.symm
  have hcall' : Function.update (b.endpoint d).call i none = (b.endpoint d).call :=
    Function.update_eq_self_iff.mpr hcall.symm
  rw [installQueue, wp_ite]
  split
  next hsize =>
    -- a queue without slots needs no eventfd
    exact ⟨none, none, by rw [hkick', hcall'], by simp, fun _ => by simp [hsize]⟩
  next hsize =>
    rw [wp_bind]
    refine wp_mono ((installRings_silent d areas i q).acquires b k) ?_
    rintro r b₁ _ ⟨rfl, hwithin⟩
    have he₁ := hwithin.endpoint d (by simp)
    rw [wp_ite]
    split
    · -- the rings were refused
      exact ⟨none, none, by rw [he₁, hkick', hcall'], by simp, by simp⟩
    rw [wp_bind]
    refine wp_mono eventfd_acquires ?_
    rintro kick _ _ ⟨rfl, rfl⟩
    rw [wp_bind]
    refine (wp_modify _).mpr ?_
    cases kick with
    | none =>
      -- no eventfd for the kick
      refine ⟨none, none, ?_, by simp, by simp⟩
      rw [(Within.diagnostic [] _).endpoint d (by simp), Backend.endpoint_setEndpoint, he₁, hcall']
    | some kick =>
      dsimp only
      rw [wp_bind]
      refine wp_mono eventfd_acquires ?_
      rintro call _ _ ⟨rfl, rfl⟩
      rw [wp_bind]
      refine (wp_modify _).mpr ?_
      rw [Backend.endpoint_setEndpoint, Backend.setEndpoint_setEndpoint, he₁]
      cases call with
      | none =>
        -- none for the call: that of the kick is held
        refine ⟨some kick, none, ?_, by simp, by simp⟩
        rw [(Within.diagnostic [] _).endpoint d (by simp), Backend.endpoint_setEndpoint]
      | some call =>
        -- both are held, whether or not the kernel takes them
        refine wp_mono ((installEventfds_silent d i bridge kick call).acquires _ _) ?_
        rintro r b₂ _ ⟨rfl, hwithin₂⟩
        refine ⟨some kick, some call, ?_, ?_, fun _ => ?_⟩
        · rw [hwithin₂.endpoint d (by simp), Backend.endpoint_setEndpoint]
        · exact Prod.ext (add_left_comm _ _ _ |>.trans (add_assoc _ _ _).symm) rfl
        · simp [hsize]

/-- The installation loop. -/
theorem installQueues_acquires (areas : List Area) (qs : List (Fin 6 × Queue)) (bridge : Eventfds)
    (hnodup : (qs.map (·.1)).Nodup)
    (hnone : ∀ i ∈ qs.map (·.1), (b.endpoint d).kick i = none ∧ (b.endpoint d).call i = none)
    (hk : k.1 = (b.endpoint d).held + rest) :
    (installQueues d areas qs bridge).wp acquisitions (fun r b' k' => ∃ kick call,
      b'.endpoint d = { b.endpoint d with kick, call } ∧
      k' = ((b'.endpoint d).held + rest, k.2) ∧
      (∀ i, i ∉ qs.map (·.1) → kick i = (b.endpoint d).kick i ∧ call i = (b.endpoint d).call i) ∧
      (r.isSome = true → ∀ p ∈ qs, ((kick p.1).isSome = true ↔ p.2.size ≠ 0) ∧
        ((call p.1).isSome = true ↔ p.2.size ≠ 0))) b k := by
  -- the queues are installed one by one, each with the eventfds of those before it
  induction qs generalizing b k bridge with
  | nil => exact ⟨_, _, rfl, by rw [← hk], fun _ _ => ⟨rfl, rfl⟩, fun _ p hp => by cases hp⟩
  | cons p qs ih =>
    obtain ⟨i, q⟩ := p
    obtain ⟨hnew, hnodup⟩ := List.nodup_cons.mp hnodup
    obtain ⟨hkick, hcall⟩ := hnone i List.mem_cons_self
    rw [installQueues, wp_bind]
    refine wp_mono (installQueue_acquires areas i q bridge hkick hcall) ?_
    rintro r b₁ _ ⟨kick, call, he₁, rfl, hopen⟩
    have hk₁ : slot kick + slot call + k.1 = (b₁.endpoint d).held + rest := by
      have hqueue := (b.endpoint d).held_queue i kick call
      rw [hkick, hcall, slot_none, add_zero, add_zero, ← he₁] at hqueue
      rw [hk, hqueue]
      ac_rfl
    -- the other queues keep theirs
    have hother (j : Fin 6) (hj : j ≠ i) :
        (b₁.endpoint d).kick j = (b.endpoint d).kick j ∧
          (b₁.endpoint d).call j = (b.endpoint d).call j := by
      rw [he₁]
      exact ⟨Function.update_of_ne hj _ _, Function.update_of_ne hj _ _⟩
    cases r with
    | none =>
      -- this queue has failed, and ends it
      refine ⟨_, _, he₁, by rw [← hk₁], fun j hj => ?_, by simp⟩
      have hne : j ≠ i := fun he => hj (he ▸ List.mem_cons_self)
      exact ⟨Function.update_of_ne hne _ _, Function.update_of_ne hne _ _⟩
    | some bridge =>
      obtain ⟨hopenKick, hopenCall⟩ := hopen rfl
      refine wp_mono (ih bridge hnodup (fun j hj => ?_) hk₁) ?_
      · have hne : j ≠ i := fun he => hnew (he ▸ hj)
        rw [(hother j hne).1, (hother j hne).2]
        exact hnone j (List.mem_cons_of_mem _ hj)
      · rintro r b₂ _ ⟨kick₂, call₂, he₂, rfl, hout, hin⟩
        refine ⟨kick₂, call₂, by rw [he₂, he₁], rfl, fun j hj => ?_, fun hr p hp => ?_⟩
        · have hne : j ≠ i := fun he => hj (he ▸ List.mem_cons_self)
          have hout := hout j fun hmem => hj (List.mem_cons_of_mem _ hmem)
          rw [hout.1, hout.2]
          exact hother j hne
        · rcases List.mem_cons.mp hp with rfl | hp
          · -- this queue
            have hi := hout i hnew
            rw [hi.1, hi.2, he₁]
            simpa using ⟨hopenKick, hopenCall⟩
          · -- the queues behind it
            exact hin hr p hp

/-- What is configured: open and bound to its route, with a ring for exactly the configured
queues. -/
structure Endpoint.Configured (e : Endpoint) (queues : List Queue) : Prop where
  fd : e.fd.isSome = true
  bound : e.bound = true
  routed : e.notification.isSome = true
  rings : e.Rings queues

theorem map_fst_zip_sublist {α β : Type} (l : List α) (l' : List β) :
    ((l.zip l').map (·.1)).Sublist l := by
  induction l generalizing l' with
  | nil => simp
  | cons a l ih =>
    cases l' with
    | nil => simp
    | cons b l' => exact (ih l').cons_cons a

/-- The pairs the installation loop goes through. -/
theorem mem_zip_finRange {queues : List Queue} {i : Fin 6} {q : Queue} :
    (i, q) ∈ (List.finRange 6).zip queues ↔ queues[i.val]? = some q := by
  rw [List.mem_iff_getElem?]
  constructor
  · rintro ⟨n, hn⟩
    obtain ⟨hi, hq⟩ := List.getElem?_zip_eq_some.mp hn
    obtain ⟨_, rfl⟩ := List.getElem?_eq_some_iff.mp hi
    simpa using hq
  · intro hq
    exact ⟨i.val, List.getElem?_zip_eq_some.mpr ⟨by simp, hq⟩⟩

/-- The loop goes through each queue once, and with at most six queues through all of them. -/
theorem rings_of_zip {e : Endpoint} {queues : List Queue}
    (hout : ∀ i, i ∉ ((List.finRange 6).zip queues).map (·.1) → e.kick i = none ∧ e.call i = none)
    (hin : ∀ p ∈ (List.finRange 6).zip queues, ((e.kick p.1).isSome = true ↔ p.2.size ≠ 0) ∧
      ((e.call p.1).isSome = true ↔ p.2.size ≠ 0)) : e.Rings queues := by
  intro i
  cases hq : queues[i.val]? with
  | none =>
    have hi : i ∉ ((List.finRange 6).zip queues).map (·.1) := by
      intro hmem
      obtain ⟨⟨j, q⟩, hpair, rfl⟩ := List.mem_map.mp hmem
      rw [mem_zip_finRange.mp hpair] at hq
      cases hq
    simp [hout i hi]
  | some q => simpa using hin (i, q) (mem_zip_finRange.mpr hq)

/-- What `configure_vhost` does with the open descriptor. -/
theorem installVhost_acquires (rest : Multiset Fd) (epoch : UInt32) (features : UInt64)
    (queues : List Queue) (areas : List Area) (hopen : (b.endpoint d).fd.isSome = true)
    (hroute : (b.endpoint d).notification.isSome = true)
    (hattached : (b.endpoint d).attached = false) (hbound : (b.endpoint d).bound = false)
    (hnone : ∀ i, (b.endpoint d).kick i = none ∧ (b.endpoint d).call i = none)
    (hk : k.1 = (b.endpoint d).held + rest) :
    (installVhost d epoch features queues areas).wp acquisitions (fun r b' k' =>
      (b'.endpoint d).attached = false ∧ k' = ((b'.endpoint d).held + rest, k.2) ∧
        (r = .ok ∧ (b'.endpoint d).Configured queues ∨
          r = .backendFailure ∧ (b'.endpoint d).bound = false)) b k := by
  rw [installVhost, wp_bind]
  refine wp_mono ((setupVhost_silent d features).acquires b k) ?_
  rintro r b₁ _ ⟨rfl, hwithin⟩
  have he₁ := hwithin.endpoint d (by simp)
  rw [wp_ite]
  split
  · -- the features were refused
    rw [wp_pure, he₁]
    exact ⟨hattached, by rw [← hk], .inr ⟨rfl, hbound⟩⟩
  have hnodup : (((List.finRange 6).zip queues).map (·.1)).Nodup := by
    exact (map_fst_zip_sublist _ _).nodup (List.nodup_finRange 6)
  rw [wp_bind]
  refine wp_mono (installQueues_acquires areas _ _ hnodup
    (fun i _ => by rw [he₁]; exact hnone i) (by rw [he₁]; exact hk)) ?_
  rintro r b₂ _ ⟨kick, call, he₂, rfl, hout, hin⟩
  rw [he₁] at he₂ hout
  cases r with
  | none =>
    -- a queue was refused
    dsimp only
    rw [wp_pure, he₂]
    exact ⟨hattached, rfl, .inr ⟨rfl, hbound⟩⟩
  | some bridge =>
    dsimp only
    rw [wp_bind, wp_get, wp_bind]
    refine ioctl_acquires (fun _ => rfl) ?_ fun _ => ?_
    · -- the bridge has not taken the binding
      rw [wp_ite, if_pos rfl]
      have he₃ := (Within.diagnostic [] b₂).endpoint d (by simp)
      refine ⟨?_, ?_, .inr ⟨rfl, ?_⟩⟩
      · rw [he₃, he₂]; exact hattached
      · rw [he₃]
      · rw [he₃, he₂]; exact hbound
    · -- the bridge has bound the device
      rw [wp_ite, if_neg (by decide)]
      have hrings : (b₂.endpoint d).Rings queues := by
        refine rings_of_zip (fun i hi => ?_) fun p hp => ?_
        · rw [he₂]
          exact ⟨(hout i hi).1.trans (hnone i).1, (hout i hi).2.trans (hnone i).2⟩
        · rw [he₂]
          exact hin rfl p hp
      rw [wp_bind]
      refine (wp_modify _).mpr ?_
      refine ⟨?_, ?_, .inl ⟨rfl, ?_⟩⟩
      · rw [Backend.endpoint_setEndpoint, he₂]
        exact hattached
      · rw [Backend.endpoint_setEndpoint]
        rfl
      · rw [Backend.endpoint_setEndpoint]
        exact ⟨by rw [he₂]; exact hopen, rfl, by rw [he₂]; exact hroute, hrings⟩

/-- `configure_vhost` refuses before it has touched anything, or starts from an idle endpoint
and ends with a configured one, or with a part of one that is not bound. -/
theorem configureVhost_acquires (epoch : UInt32) (features : UInt64) (queues : List Queue)
    (count required : Nat) (hsane : (b.endpoint d).Sane true) :
    (configureVhost d epoch features queues count required).wp acquisitions (fun r b' k' =>
      (r = .busy ∨ r = .invalid) ∧ b' = b ∧ k' = k ∨
      (b.endpoint d).Closed ∧ (b'.endpoint d).attached = false ∧
        k' = ((b'.endpoint d).held + k.1, k.2) ∧
        (r = .ok ∧ (b'.endpoint d).Configured (queues.take count) ∨
          r = .backendFailure ∧ (b'.endpoint d).bound = false)) b k := by
  rw [configureVhost, wp_bind, wp_get, wp_ite]
  split
  · exact .inl ⟨.inl rfl, rfl, rfl⟩
  rename_i hbusy
  simp only [Bool.or_eq_true, not_or, Bool.not_eq_true, Option.isSome_eq_false_iff,
    -- nothing is held before the device is opened
    Option.isNone_iff_eq_none] at hbusy
  obtain ⟨⟨hfd, hbound⟩, hattached⟩ := hbusy
  have hclosed : (b.endpoint d).Closed := hsane.closed hfd hbound
  rw [wp_ite]
  split
  · exact .inl ⟨.inr rfl, rfl, rfl⟩
  rename_i hvalid
  have hroute : (b.endpoint d).notification.isSome = true := by
    cases hroute : (b.endpoint d).notification with
    | none => simp [hroute] at hvalid
    | some fd => rfl
  dsimp only
  split
  · exact .inl ⟨.inr rfl, rfl, rfl⟩
  rename_i areas hareas
  rw [wp_bind]
  refine wp_neutral (c := .openNode (.vhost d)) rfl rfl fun r => ?_
  cases r with
  -- the device does not open
  | error e =>
    have he := (Within.diagnostic [] b).endpoint d (by simp)
    refine .inr ⟨hclosed, ?_, ?_, .inr ⟨rfl, ?_⟩⟩
    · rw [he]; exact hattached
    · rw [he, hclosed.held]; rfl
    · rw [he]; exact hbound
  | ok fd =>
    dsimp only
    rw [wp_bind]
    refine (wp_modify _).mpr ?_
    -- the device is held, and nothing else
    have hheld : slot (some fd) + k.1 = { b.endpoint d with fd := some fd }.held + k.1 := by
      have h := (b.endpoint d).held_fd (some fd)
      rw [hfd, slot_none, add_zero, hclosed.held, zero_add] at h
      rw [h]
    refine wp_mono (installVhost_acquires (d := d) k.1 epoch features _ areas (by simp)
      (by simpa using hroute) (by simpa using hattached) (by simpa using hbound)
      (fun i => by simpa using hclosed.queues i)
      (by rw [Backend.endpoint_setEndpoint]; exact hheld)) ?_
    exact fun r b' k' hpost => .inr ⟨hclosed, hpost⟩

end HyperIoVm
