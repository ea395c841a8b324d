import HyperIoVm.Activation

/-!
# Activation is all or nothing

Whichever of its calls fail, an activation that is refused changes nothing, one that fails
leaves the device idle with everything it opened closed again, and one whose rollback fails
keeps on record what could not be given back, so that a later quiesce completes it.
-/

namespace HyperIoVm

open Effects Routine

variable {b : Backend} {k : Multiset Fd × Attachments} {rest : Multiset Fd} {earlier : List Fd}
  {d : Device}

/-! ## What an activation leaves -/

/-- The device is running: configured and attached, every network queue to the one TAP. -/
structure Running (d : Device) (queues : List Queue) (b : Backend) (a : Attachments) : Prop where
  configured : (b.endpoint d).Configured queues
  attached : (b.endpoint d).attached = true
  storage : d = .storage → ∃ fd, b.disk.fd = some fd ∧ a.endpoint = some (fd, b.wwpn)
  network : d = .network → ∃ fd tap, b.net.fd = some fd ∧ b.tap = some tap ∧
    a.queues = [(fd, 0, tap), (fd, 1, tap)]

/-- The rollback failed: the route is still bound, every eventfd is kept, and the vhost
descriptor is kept exactly when the drain did not succeed. The TAP is the one opened since the
TAPs `earlier`. -/
structure Retained (d : Device) (queues : List Queue) (earlier : List Fd) (b : Backend)
    (a : Attachments) : Prop where
  bound : (b.endpoint d).bound = true
  routed : (b.endpoint d).notification.isSome = true
  rings : (b.endpoint d).Rings queues
  open_iff : (b.endpoint d).fd.isSome = true ↔ (b.endpoint d).attached = true
  issued : (b.endpoint d).attached = true → d ∈ a.drains
  taps : d = .network → a.taps = earlier ++ b.tap.toList

/-- What an activation of `d` from `b` and the ledgers `k` leaves, for each status. -/
inductive Activation (d : Device) (queues : List Queue) (b : Backend)
    (k : Multiset Fd × Attachments) : Status → Backend → Multiset Fd × Attachments → Prop where
  | refused {r : Status} (hr : r = .unsupported ∨ r = .invalid ∨ r = .busy) :
    Activation d queues b k r b k
  | failed {b' : Backend} {a' : Attachments} (before : b.Idle d) (idle : b'.Idle d)
    (ledger : Ledgered b' a') : Activation d queues b k .backendFailure b' (k.1, a')
  | active {b' : Backend} {a' : Attachments} (before : b.Idle d) (running : Running d queues b' a')
    (ledger : Ledgered b' a') : Activation d queues b k .ok b' (b'.held d + k.1, a')
  | retained {b' : Backend} {a' : Attachments} (before : b.Idle d)
    (retained : Retained d queues k.2.taps b' a') (ledger : Ledgered b' a') :
    Activation d queues b k .quiescenceFailed b' (b'.held d + k.1, a')

/-- An activation under way, after `configure_vhost`. -/
structure Underway (d : Device) (queues : List Queue) (rest : Multiset Fd) (earlier : List Fd)
    (b : Backend) (k : Multiset Fd × Attachments) : Prop where
  held : k.1 = b.held d + rest
  ledger : Ledgered b k.2
  configured : (b.endpoint d).bound = true → (b.endpoint d).Configured queues
  attached : (b.endpoint d).attached = true → (b.endpoint d).bound = true
  taps : d = .network → k.2.taps = earlier ++ b.tap.toList

theorem Underway.within {queues : List Queue} {b' : Backend}
    (h : Underway d queues rest earlier b k) (hb : Within [] b b') :
    Underway d queues rest earlier b' k where
  held := by
    rw [h.held]
    cases d with
    | storage => rw [Backend.held, Backend.held, hb.disk (by simp)]
    | network => rw [Backend.held, Backend.held, hb.net (by simp), hb.tap (by simp)]
  ledger := h.ledger.within hb
  configured := by rw [hb.endpoint d (by simp)]; exact h.configured
  attached := by rw [hb.endpoint d (by simp)]; exact h.attached
  taps := by rw [hb.tap (by simp)]; exact h.taps

/-- The rollback of an activation under way. -/
theorem Underway.rollback {queues : List Queue} {b b₁ b' : Backend}
    {k k₁ k' : Multiset Fd × Attachments} {r : Outcome} (h : Underway d queues k.1 k.2.taps b₁ k₁)
    (hidle : b.Idle d) (hquiesce : Quiescence d k.1 b₁ k₁.2 r b' k') :
    Activation d queues b k (if r = .failed then .quiescenceFailed else .backendFailure) b' k' := by
  obtain ⟨fds, a'⟩ := k'
  obtain rfl : fds = b'.held d + k.1 := hquiesce.held
  cases r with
  -- drained and closed: nothing of the activation is left
  | ok =>
    have hidle' := hquiesce.idle rfl
    rw [if_neg (by decide), hidle'.held, zero_add]
    exact .failed hidle hidle' hquiesce.ledger
  | failed =>
    rw [if_pos rfl]
    obtain ⟨htap, hkept⟩ := hquiesce.failed rfl
    -- what stays is bound to queues that were configured
    have hbound : (b₁.endpoint d).bound = true := by
      rcases hkept with ⟨hattached, -⟩ | ⟨hbound, -⟩
      · exact h.attached hattached
      · exact hbound
    have hconfigured := h.configured hbound
    have htaps (hd : d = .network) : a'.taps = k.2.taps ++ b'.tap.toList := by
      rw [htap, ← h.taps hd]
      exact hquiesce.taps
    refine .retained hidle ?_ hquiesce.ledger
    rcases hkept with ⟨hattached, he⟩ | ⟨-, he⟩
    · -- the endpoint was not drained
      refine ⟨?_, ?_, ?_, ?_, fun _ => hquiesce.issued hattached, htaps⟩
      · rw [he]; exact hbound
      · rw [he]; exact hconfigured.routed
      · rw [he]; exact hconfigured.rings
      · rw [he, hattached, hconfigured.fd]
    · -- it was drained, and its driver kept it bound
      refine ⟨?_, ?_, ?_, ?_, ?_, htaps⟩
      · rw [he]; exact hbound
      · rw [he]; exact hconfigured.routed
      · rw [he]; exact hconfigured.rings
      · rw [he]; simp
      · rw [he]; simp

/-! ## The storage device -/

/-- Asking for the LUN changes nothing. -/
theorem blockTargetReady_acquires :
    blockTargetReady.wp acquisitions (fun _ b' k' => b' = b ∧ k' = k) b k := by
  simp only [blockTargetReady, wp_bind, wp_get, wp_ite, wp_pure]
  split
  · exact ⟨trivial, trivial⟩
  · exact wp_neutral (c := .access _) rfl rfl fun r => ⟨rfl, Prod.ext (zero_add _) rfl⟩

/-- After `configure_vhost` has started from an idle device, an activation is under way. -/
theorem Underway.of_configured {queues : List Queue} {b' : Backend} {a : Attachments}
    {status : Status} (hidle : b.Idle d) (hwithin : Within [d.part] b b') (hledger : Ledgered b a)
    (hattached : (b'.endpoint d).attached = false)
    (hstatus : status = .ok ∧ (b'.endpoint d).Configured queues ∨
      status = .backendFailure ∧ (b'.endpoint d).bound = false) :
    Underway d queues rest a.taps b' ((b'.endpoint d).held + rest, a) where
  held := by
    cases d with
    | storage => rfl
    | network => rw [Backend.held, hwithin.tap (by simp [Device.part]), hidle.tap rfl, slot_none,
        add_zero]; rfl
  ledger d' := by
    by_cases hd : d' = d
    · subst hd
      rw [hattached, hledger, hidle.endpoint.attached]
    · rw [hwithin.endpoint d' (by cases d <;> cases d' <;> simp_all [Device.part])]
      exact hledger d'
  configured hbound := by
    rcases hstatus with ⟨-, h⟩ | ⟨-, h⟩
    · exact h
    · exact absurd (h.symm.trans hbound) Bool.false_ne_true
  attached h := absurd (hattached.symm.trans h) Bool.false_ne_true
  taps hd := by
    rw [hwithin.tap (by rw [hd]; simp [Device.part]), hidle.tap hd]
    exact (List.append_nil _).symm

/-- Queues that are absent need not be counted. -/
theorem Endpoint.Configured.of_take {e : Endpoint} {queues : List Queue} {count : Nat}
    (h : e.Configured (queues.take count)) (habsent : ∀ q ∈ queues.drop count, q.size = 0) :
    e.Configured queues := by
  refine ⟨h.fd, h.bound, h.routed, fun i => ?_⟩
  have hsame : (∃ q, (queues.take count)[i.val]? = some q ∧ q.size ≠ 0) ↔
      ∃ q, queues[i.val]? = some q ∧ q.size ≠ 0 := by
    refine exists_congr fun q => and_congr_left fun hsize => ?_
    rw [List.getElem?_take]
    split
    next => rfl
    next hi =>
      refine ⟨fun hq => (by cases hq), fun hq => absurd (habsent q ?_) hsize⟩
      rw [List.mem_iff_getElem?]
      exact ⟨i.val - count, by rw [List.getElem?_drop, Nat.add_sub_cancel' (by omega)]; exact hq⟩
  rw [← hsame]
  exact h.rings i

theorem attachDisk_acquires {b₀ : Backend} {k₀ : Multiset Fd × Attachments} {queues : List Queue}
    {status : Status} (hidle : b₀.Idle .storage) (h : Underway .storage queues k₀.1 k₀.2.taps b k)
    (hattached : b.disk.attached = false) (hstatus : status = .ok → b.disk.Configured queues) :
    (attachDisk status).wp acquisitions (fun r b' k' =>
      Activation .storage queues b₀ k₀ r b' k') b k := by
  have hrollback : (quiesceDisk >>= fun r =>
      pure (if r = .failed then Status.quiescenceFailed else .backendFailure)).wp acquisitions
        (fun r b' k' => Activation .storage queues b₀ k₀ r b' k') b k := by
    rw [wp_bind]
    have hopen : b.disk.attached = true → b.disk.fd.isSome = true := fun ha =>
      absurd (hattached.symm.trans ha) Bool.false_ne_true
    exact wp_mono (quiesceDisk_acquires h.ledger hopen h.held) fun r b' k' hquiesce =>
      h.rollback hidle hquiesce
  rw [attachDisk, wp_bind, wp_get, wp_bind, wp_ite]
  split
  next hok =>
    -- the queues are configured, so the target is attached
    obtain ⟨fd, hfd⟩ := Option.isSome_iff_exists.mp (hstatus hok).fd
    rw [hfd]
    refine wp_transfer (by simp [Command.drains]) (by simp) fun r => ?_
    cases r with
    | failed =>
      rw [wp_ite, if_neg (by decide)]
      -- it was not attached
      exact hrollback
    | ok =>
      rw [wp_ite, if_pos rfl, wp_bind]
      refine (wp_modify _).mpr ?_
      rw [h.held]
      -- it is attached, with all it needs
      refine .active hidle ⟨?_, rfl, fun _ => ⟨fd, hfd, rfl⟩, by simp⟩ fun d => ?_
      · have hconfigured := hstatus hok
        exact ⟨hconfigured.fd, hconfigured.bound, hconfigured.routed, hconfigured.rings⟩
      · cases d with
        | storage => rfl
        | network => exact h.ledger .network
  -- the queues are not configured
  next =>
    rw [wp_pure, wp_ite, if_neg (by decide)]
    exact hrollback

/-- `activate_disk`, on the six queues of the record. -/
theorem activateDisk_acquires (message : Activate) (hsane : b.disk.Sane true)
    (hledger : Ledgered b k.2) :
    (activateDisk message).wp acquisitions (fun r b' k' =>
      Activation .storage message.queues b k r b' k') b k := by
  rw [activateDisk, wp_bind, wp_get, wp_ite]
  split
  · -- no disk is exported
    exact .refused (.inl rfl)
  rw [wp_bind]
  refine wp_mono blockTargetReady_acquires ?_
  rintro ready b k ⟨rfl, rfl⟩
  rw [wp_ite]
  split
  · -- the target is not ready
    exact .refused (.inr (.inr rfl))
  rw [wp_ite]
  split
  · -- other features than the one version
    exact .refused (.inr (.inl rfl))
  dsimp only
  rw [wp_ite]
  split
  · -- a queue that was not offered
    exact .refused (.inr (.inl rfl))
  rename_i habsent
  rw [wp_bind]
  refine wp_mono (wp_and_free (configureVhost_acquires (d := .storage) _ _ _ _ _ hsane)
    ((configureVhost_confined .storage _ _ _ _ _).wp b)) ?_
  -- refused, and nothing was touched
  rintro status b₁ k₁ ⟨⟨hstatus, rfl, rfl⟩ | ⟨hclosed, hattached, rfl, hstatus⟩, hwithin⟩
  · rw [wp_ite, if_pos hstatus]
    exact .refused (hstatus.elim (fun h => .inr (.inr h)) fun h => .inr (.inl h))
  · -- the endpoint was idle: what is undone leaves it so
    have hidle : b.Idle .storage := ⟨hclosed, by simp⟩
    have hzero (q : Queue) (hq : q ∈ message.queues.drop (b.scsi.requestQueues.toNat + 2)) :
        q.size = 0 := by
      have hq' := fun h => habsent (List.any_eq_true.mpr ⟨q, hq, h⟩)
      rw [show q = Queue.zero by simpa using hq']
      rfl
    have hstatus : status = .ok ∧ b₁.disk.Configured message.queues ∨
        status = .backendFailure ∧ b₁.disk.bound = false :=
      hstatus.imp_left fun h => ⟨h.1, h.2.of_take hzero⟩
    have hne : ¬ (status = .busy ∨ status = .invalid) := by
      rcases hstatus with ⟨rfl, -⟩ | ⟨rfl, -⟩ <;> simp
    rw [wp_ite, if_neg hne]
    refine attachDisk_acquires hidle (.of_configured hidle hwithin hledger hattached hstatus)
      hattached fun hok => ?_
    rcases hstatus with ⟨-, h⟩ | ⟨h, -⟩
    · exact h
    · rw [hok] at h; cases h

/-! ## The network device -/

/-- Opening a TAP is in both ledgers. -/
theorem openTun_acquires {Q : Except Errno Fd → Backend → Multiset Fd × Attachments → Prop}
    (herror : ∀ e, Q (.error e) b k)
    (hok : ∀ fd, Q (.ok fd) b (slot (some fd) + k.1, { k.2 with taps := k.2.taps ++ [fd] })) :
    (openNode .tun).wp acquisitions Q b k := by
  have hallow : acquisitions.allows k (.openNode .tun) :=
    ⟨fun _ (h : none = some _) => (by cases h), fun _ _ h => (by cases h)⟩
  refine wp_issue (c := .openNode .tun) hallow fun r _ => ?_
  change Except Errno Fd at r
  cases r with
  | error e =>
    have hnext : acquisitions.next k (.openNode .tun) (.error e) = k :=
      Prod.ext (by show (slot none + k.1) - slot none = k.1; simp) rfl
    rw [hnext]
    exact herror e
  | ok fd =>
    have hnext : acquisitions.next k (.openNode .tun) (.ok fd) =
        (slot (some fd) + k.1, { k.2 with taps := k.2.taps ++ [fd] }) :=
      Prod.ext (by show (slot (some fd) + k.1) - slot none = _; simp) rfl
    rw [hnext]
    exact hok fd

/-- The TAP that is open afterwards is the one that was opened. -/
def TapOpened (k : Multiset Fd × Attachments) (b' : Backend) (k' : Multiset Fd × Attachments) :
    Prop := k' = (slot b'.tap + k.1, { k.2 with taps := k.2.taps ++ b'.tap.toList })

theorem TapOpened.of_none {b' : Backend} (h : b'.tap = none) : TapOpened k b' k := by
  simp [TapOpened, h]

theorem openTap_acquires : openTap.wp acquisitions (fun r b' k' =>
    TapOpened k b' k' ∧ (r.isSome = true → b'.tap.isSome = true)) b k := by
  rw [openTap, wp_bind]
  refine openTun_acquires (fun e => ?_) fun fd => ?_
  · exact ⟨.of_none ((Within.diagnostic [] { b with tap := none }).tap (by simp)), by simp⟩
  · dsimp only
    rw [wp_bind]
    refine (wp_modify _).mpr (wp_mono ((configureTap_silent fd).acquires _ _) ?_)
    rintro r b' _ ⟨rfl, hwithin⟩
    have htap : b'.tap = some fd := hwithin.tap (by simp)
    exact ⟨by rw [TapOpened, htap]; rfl, fun _ => by rw [htap]; rfl⟩

/-- `create_tap` opens at most the TAP and its control socket, and closes the socket again. -/
theorem createTap_acquires :
    createTap.wp acquisitions (fun r b' k' =>
      TapOpened k b' k' ∧ (r = .ok → b'.tap.isSome = true)) b k := by
  have hdiagnostic {b : Backend} {k' : Multiset Fd × Attachments} (h : TapOpened k b k') :
      TapOpened k b.diagnostic k' := by
    rw [TapOpened, (Within.diagnostic [] b).tap (by simp)]
    exact h
  rw [createTap, wp_bind]
  refine wp_mono openTap_acquires ?_
  rintro r b₁ k₁ ⟨hopened, htap⟩
  cases r with
  -- the tap itself
  | none => exact ⟨hopened, by simp⟩
  | some name =>
    have htap := htap rfl
    dsimp only
    rw [wp_bind]
    -- its index
    refine wp_neutral (c := .ifNametoindex name) rfl rfl fun r => ?_
    rw [show slot ((Call.ifNametoindex name).obtained r) + k₁.1 = k₁.1 from zero_add _]
    change Option UInt32 at r
    cases r with
    | none => exact ⟨hdiagnostic hopened, by simp⟩
    | some index =>
      dsimp only
      rw [wp_bind]
      -- a socket to attach it to the bridge
      refine wp_neutral (c := .socket) rfl rfl fun r => ?_
      change Option Fd at r
      cases r with
      | none =>
        rw [show slot (Call.socket.obtained none) + k₁.1 = k₁.1 from zero_add _]
        exact ⟨hdiagnostic hopened, by simp⟩
      | some control =>
        dsimp only
        rw [wp_bind]
        -- the socket is closed whether or not the tap was attached
        refine wp_mono ((attachTap_silent control name index).acquires _ _) ?_
        rintro r b₂ _ ⟨rfl, hwithin⟩
        rw [wp_bind]
        refine wp_mono (close_acquires k₁.1 rfl) ?_
        rintro _ b₃ _ ⟨rfl, rfl⟩
        rw [wp_pure, TapOpened, hwithin.tap (by simp)]
        exact ⟨hopened, fun _ => htap⟩

/-- One round of the last loop of `activate_network`. -/
theorem setBackend_acquires (i : Nat) {fd tap : Fd} (hfd : b.net.fd = some fd)
    (htap : b.tap = some tap) :
    (setBackend i).wp acquisitions (fun r b' k' =>
      r = .failed ∧ Within [] b b' ∧ k' = k ∨
      r = .ok ∧ b' = b.setEndpoint .network { b.net with attached := true } ∧
        k' = (k.1, { k.2 with queues := k.2.queues ++ [(fd, i, tap)] })) b k := by
  rw [setBackend, wp_bind, wp_get, wp_bind, hfd, htap]
  refine wp_transfer (by simp [Command.drains]) (by simp) fun r => ?_
  cases r with
  | failed =>
    rw [wp_ite, if_pos rfl]
    exact .inl ⟨rfl, .diagnostic [] b, rfl⟩
  | ok =>
    rw [wp_ite, if_neg (by decide)]
    exact .inr ⟨rfl, rfl, rfl⟩

/-- `create_tap` in an activation under way. -/
theorem Underway.tapped {queues : List Queue} {b' : Backend} {k' : Multiset Fd × Attachments}
    (h : Underway .network queues rest earlier b k) (htap : b.tap = none)
    (hb : Within [.tap] b b') (hopened : TapOpened k b' k') :
    Underway .network queues rest earlier b' k' := by
  have hnet : b'.net = b.net := hb.net (by simp)
  have hendpoint (d : Device) : b'.endpoint d = b.endpoint d :=
    hb.endpoint d (by cases d <;> simp [Device.part])
  obtain rfl := hopened
  refine ⟨?_, fun d => ?_, ?_, ?_, fun _ => ?_⟩
  · show slot b'.tap + k.1 = b'.held .network + rest
    rw [h.held, Backend.held, Backend.held, htap, hnet, slot_none]
    ac_rfl
  · rw [hendpoint]
    cases d with
    | storage => exact h.ledger .storage
    | network => exact h.ledger .network
  · rw [hendpoint]; exact h.configured
  · rw [hendpoint]; exact h.attached
  · show k.2.taps ++ b'.tap.toList = earlier ++ b'.tap.toList
    rw [h.taps rfl, htap, Option.toList_none, List.append_nil]

/-- Attaching a queue to the TAP in an activation under way. -/
theorem Underway.backend {queues : List Queue} (fd tap : Fd) (i : Nat)
    (h : Underway .network queues rest earlier b k) (hbound : b.net.bound = true) :
    Underway .network queues rest earlier (b.setEndpoint .network { b.net with attached := true })
      (k.1, { k.2 with queues := k.2.queues ++ [(fd, i, tap)] }) where
  held := h.held
  ledger d := by
    cases d with
    | storage => exact h.ledger .storage
    | network => simp [Attachments.attached, Backend.endpoint, Backend.setEndpoint]
  configured _ := by
    have hconfigured := h.configured hbound
    exact ⟨hconfigured.fd, hconfigured.bound, hconfigured.routed, hconfigured.rings⟩
  attached _ := hbound
  taps := h.taps

theorem attachNetwork_acquires {queues : List Queue} {status : Status}
    (h : Underway .network queues rest earlier b k) (hattached : b.net.attached = false)
    (htap : b.tap = none) (hstatus : status = .ok → b.net.Configured queues) :
    (attachNetwork status).wp acquisitions (fun r b' k' =>
      Underway .network queues rest earlier b' k' ∧
        (r = .ok → Running .network queues b' k'.2)) b k := by
  -- a tap is made when the queues are configured
  have htap' : (if status = .ok then createTap else pure .failed).wp acquisitions
      (fun r b' k' => (Underway .network queues rest earlier b' k' ∧ b'.net = b.net ∧
        k'.2.queues = k.2.queues) ∧
        (r = .ok → status = .ok ∧ b'.tap.isSome = true)) b k := by
    rw [wp_ite]
    split
    next hok =>
      refine wp_mono (wp_and_free createTap_acquires (createTap_confined.wp b)) ?_
      rintro r b' k' ⟨⟨hopened, hsome⟩, hwithin⟩
      refine ⟨⟨h.tapped htap hwithin hopened, hwithin.net (by simp), ?_⟩, fun hr => ⟨hok, hsome hr⟩⟩
      rw [hopened]
    next => exact ⟨⟨h, rfl, rfl⟩, by simp⟩
  rw [attachNetwork, wp_bind]
  refine wp_mono htap' ?_
  rintro r b₁ k₁ ⟨⟨h₁, hnet, hqueues⟩, hr⟩
  rw [wp_ite]
  split
  · -- there is no tap
    exact ⟨h₁, by simp⟩
  rename_i hopened
  have hopened : r = .ok := by cases r <;> simp_all
  obtain ⟨hok, hsome⟩ := hr hopened
  obtain ⟨tap, htap⟩ := Option.isSome_iff_exists.mp hsome
  have hconfigured := hstatus hok
  obtain ⟨fd, hfd⟩ := Option.isSome_iff_exists.mp hconfigured.fd
  rw [firstFailure, wp_bind]
  -- the receiving queue
  refine wp_mono (setBackend_acquires 0 (by rw [hnet]; exact hfd) htap) ?_
  rintro r b₂ k₂ (⟨rfl, hwithin, rfl⟩ | ⟨rfl, rfl, rfl⟩)
  · rw [wp_ite, if_pos rfl]
    -- it was refused
    exact ⟨h₁.within hwithin, by simp⟩
  have hbound : b₁.net.bound = true := by rw [hnet]; exact hconfigured.bound
  have h₂ := h₁.backend fd tap 0 hbound
  rw [wp_ite, if_neg (by decide), firstFailure, wp_bind]
  have hfd₂ : (b₁.setEndpoint .network { b₁.net with attached := true }).net.fd = some fd := by
    rw [← hfd, ← hnet]
    rfl
  -- the sending queue
  refine wp_mono (setBackend_acquires 1 hfd₂ htap) ?_
  rintro r b₃ k₃ (⟨rfl, hwithin, rfl⟩ | ⟨rfl, rfl, rfl⟩)
  · rw [wp_ite, if_pos rfl]
    -- it was refused
    exact ⟨h₂.within hwithin, by simp⟩
  rw [wp_ite, if_neg (by decide), firstFailure]
  refine ⟨h₂.backend fd tap 1 hbound, fun _ => ⟨?_, rfl, by simp, fun _ => ?_⟩⟩
  · -- both queues have the tap
    rw [← hnet] at hconfigured
    exact ⟨hconfigured.fd, hconfigured.bound, hconfigured.routed, hconfigured.rings⟩
  · refine ⟨fd, tap, ?_, htap, ?_⟩
    · exact hfd₂
    · have hnone : k.2.queues = [] := by
        have hledger := (h.ledger .network).trans hattached
        simpa [Attachments.attached] using hledger
      show k₁.2.queues ++ [(fd, 0, tap)] ++ [(fd, 1, tap)] = _
      rw [hqueues, hnone]
      rfl

/-- `activate_network`, on the two queues of the record. -/
theorem activateNetwork_acquires (request : Activate) (hsane : b.net.Sane true)
    (hledger : Ledgered b k.2) (hqueues : request.queues.length = hyperIoNetworkQueues) :
    (activateNetwork request).wp acquisitions (fun r b' k' =>
      Activation .network request.queues b k r b' k') b k := by
  rw [activateNetwork, wp_bind, wp_get]
  dsimp only
  rw [wp_ite]
  split
  · -- there is no network
    exact .refused (.inl rfl)
  rw [wp_ite]
  split
  · -- features that do not go together
    exact .refused (.inr (.inl rfl))
  rw [wp_ite]
  split
  · -- the device is in use
    exact .refused (.inr (.inr rfl))
  rename_i hbusy
  rw [wp_bind]
  refine wp_mono (wp_and_free (configureVhost_acquires (d := .network) _ _ _ _ _ hsane)
    ((configureVhost_confined .network _ _ _ _ _).wp b)) ?_
  rintro status b₁ k₁ ⟨⟨hstatus, rfl, rfl⟩ | ⟨hclosed, hattached, rfl, hstatus⟩, hwithin⟩
  · -- refused, and nothing was touched
    rw [wp_ite, if_pos hstatus]
    exact .refused (hstatus.elim (fun h => .inr (.inr h)) fun h => .inr (.inl h))
  have htap : b.tap = none := by
    simp only [Bool.or_eq_true, not_or, Bool.not_eq_true, Option.isSome_eq_false_iff,
      Option.isNone_iff_eq_none] at hbusy
    exact hbusy.2
  have hidle : b.Idle .network := ⟨hclosed, fun _ => htap⟩
  have hstatus : status = .ok ∧ b₁.net.Configured request.queues ∨
      status = .backendFailure ∧ b₁.net.bound = false := by
    rwa [List.take_of_length_le (Nat.le_of_eq hqueues)] at hstatus
  have hne : ¬ (status = .busy ∨ status = .invalid) := by
    rcases hstatus with ⟨rfl, -⟩ | ⟨rfl, -⟩ <;> simp
  have hunderway : Underway .network request.queues k.1 k.2.taps b₁
      ((b₁.endpoint .network).held + k.1, k.2) :=
    .of_configured hidle hwithin hledger hattached hstatus
  rw [wp_ite, if_neg hne, wp_bind]
  refine wp_mono (attachNetwork_acquires hunderway hattached ?_ fun hok => ?_) ?_
  · rw [hwithin.tap (by simp [Device.part]), htap]
  · rcases hstatus with ⟨-, h⟩ | ⟨h, -⟩
    · exact h
    · rw [hok] at h; cases h
  rintro r b₂ ⟨fds, a⟩ ⟨h₂, hrunning⟩
  rw [wp_ite]
  split
  -- both queues run
  next hr =>
    obtain rfl : fds = b₂.held .network + k.1 := h₂.held
    exact .active hidle (hrunning hr) h₂.ledger
  next =>
    -- else all is undone
    rw [wp_bind]
    have hopen : b₂.net.attached = true → b₂.net.fd.isSome = true := fun hattached =>
      (h₂.configured (h₂.attached hattached)).fd
    exact wp_mono (quiesceNetwork_acquires h₂.ledger hopen h₂.held) fun r b' k' hquiesce =>
      h₂.rollback hidle hquiesce

end HyperIoVm
