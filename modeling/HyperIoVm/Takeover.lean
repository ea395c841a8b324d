import HyperIoVm.Runs

/-!
# Takeover of a binding

A binding is only taken over when nothing of the old one is held, and a release that succeeded
makes that possible: from then on the old binding can do nothing. A retirement that failed
keeps its binding until it is completed.
-/

namespace HyperIoVm

open Effects Routine

/-! ## Nothing left to release -/

section Released

variable {K : Type} {C : Contract Sys K} {k : K} {b : Backend}

theorem Endpoint.Closed.closeQueues {e : Endpoint} (h : e.Closed) (i : Fin 6) :
    { e with
      kick := Function.update e.kick i none
      call := Function.update e.call i none } = e := by
  have hkick : Function.update e.kick i none = e.kick := by
    rw [← (h.queues i).1, Function.update_eq_self]
  have hcall : Function.update e.call i none = e.call := by
    rw [← (h.queues i).2, Function.update_eq_self]
  rw [hkick, hcall]

/-- Writing back what a field already holds changes nothing. -/
theorem wp_modifyEndpoint_self {d : Device} {g : Endpoint → Endpoint}
    (hg : g (b.endpoint d) = b.endpoint d) {Q : Unit → Backend → K → Prop} :
    (modifyEndpoint d g).wp C Q b k ↔ Q () b k := by
  rw [modifyEndpoint, wp_modify, hg, Backend.setEndpoint_self]

/-- Closing a closed endpoint does nothing. -/
theorem endpointClose_closed {d : Device} (h : (b.endpoint d).Closed) :
    (endpointClose d).wp C (fun r b' k' => r = .ok ∧ b' = b ∧ k' = k) b k := by
  have hfd : { b.endpoint d with fd := none } = b.endpoint d := by rw [← h.fd]
  have hunbind : (endpointUnbind d).wp C (fun r b' k' => r = .ok ∧ b' = b ∧ k' = k) b k := by
    simp [endpointUnbind, h.bound]
  have hqueue (i : Fin 6) : (closeQueue d i).wp C (fun _ b' k' => b' = b ∧ k' = k) b k := by
    simp only [closeQueue, wp_bind, wp_get, (h.queues i).1, (h.queues i).2, closeIfOpen, wp_pure]
    rw [wp_modifyEndpoint_self (h.closeQueues i)]
    exact ⟨rfl, rfl⟩
  simp only [endpointClose, wp_bind, wp_get, h.fd, closeIfOpen, wp_pure]
  rw [wp_modifyEndpoint_self hfd]
  refine wp_mono hunbind ?_
  rintro _ b k ⟨rfl, rfl, rfl⟩
  rw [if_neg (by decide), wp_bind]
  refine wp_mono (wp_forM (J := fun _ b' k' => b' = b ∧ k' = k) ?_ ⟨rfl, rfl⟩)
    fun _ _ _ h => ⟨rfl, h⟩
  rintro _ i _ _ _ _ ⟨rfl, rfl⟩
  exact hqueue i

/-- Quiescing a closed device does nothing. -/
theorem quiesceDisk_closed (h : b.disk.Closed) :
    quiesceDisk.wp C (fun r b' k' => r = .ok ∧ b' = b ∧ k' = k) b k := by
  simp only [quiesceDisk, drainDisk, wp_bind, wp_get, wp_ite, wp_pure, h.attached, Bool.not_false,
    if_true]
  rw [if_neg (by decide)]
  exact endpointClose_closed (d := .storage) h

theorem quiesceNetwork_closed (h : b.net.Closed) (htap : b.tap = none) :
    quiesceNetwork.wp C (fun r b' k' => r = .ok ∧ b' = b ∧ k' = k) b k := by
  simp only [quiesceNetwork, drainNetwork, wp_bind, wp_get, wp_ite, wp_pure, h.attached,
    Bool.not_false, if_true]
  rw [if_neg (by decide)]
  refine wp_mono (endpointClose_closed (d := .network) h) ?_
  rintro _ b _ ⟨rfl, rfl, rfl⟩
  have hsame : ({ b with tap := none } : Backend) = b := by rw [← htap]
  rw [if_neg (by decide)]
  simp [closeTap, closeIfOpen, htap, hsame]

/-- Releasing a released backend does nothing, and makes no call. -/
theorem releaseMemory_released (h : b.Released) :
    releaseMemory.wp C (fun r b' k' => r = .ok ∧ b' = b ∧ k' = k) b k := by
  -- nothing is attached
  have hquiesce : quiesceAll.wp C (fun r b' k' => r = .ok ∧ b' = b ∧ k' = k) b k := by
    rw [quiesceAll, wp_bind]
    refine wp_mono (quiesceDisk_closed (h.endpoint .storage)) ?_
    rintro _ _ _ ⟨rfl, rfl, rfl⟩
    rw [wp_bind]
    refine wp_mono (quiesceNetwork_closed (h.endpoint .network) h.tap) ?_
    rintro _ b _ ⟨rfl, rfl, rfl⟩
    exact ⟨rfl, rfl, rfl⟩
  -- nothing is mapped
  have hunmap : unmapMemory.wp C (fun r b' k' => r = .ok ∧ b' = b ∧ k' = k) b k := by
    simp [unmapMemory, h.memory]
  -- no file is open
  have hclose : closeMemory.wp C (fun r b' k' => r = .ok ∧ b' = b ∧ k' = k) b k := by
    simp [closeMemory, h.memoryFd]
  -- no token is held
  have hretire : retireToken.wp C (fun r b' k' => r = .ok ∧ b' = b ∧ k' = k) b k := by
    simp [retireToken, h.token]
  -- and no grant is recorded
  have hfields : ({ b with token := 0, region := ⟨0, 0⟩ } : Backend) = b := by
    obtain ⟨-, -, -, htoken, hregion⟩ := h
    cases b
    simp only at htoken hregion
    subst htoken hregion
    rfl
  simp only [releaseMemory, wp_bind, wp_ite, wp_pure, wp_modify]
  refine wp_mono hquiesce ?_
  rintro _ b k ⟨rfl, rfl, rfl⟩
  rw [if_neg (by decide)]
  refine wp_mono hunmap ?_
  rintro _ b k ⟨rfl, rfl, rfl⟩
  rw [if_neg (by decide)]
  refine wp_mono hclose ?_
  rintro _ b k ⟨rfl, rfl, rfl⟩
  rw [if_neg (by decide)]
  refine wp_mono hretire ?_
  rintro _ b k ⟨rfl, rfl, rfl⟩
  rw [if_neg (by decide)]
  exact ⟨trivial, hfields, rfl⟩

/-- In a retired session every request is refused or has nothing left to release. -/
theorem dispatch_retired {session : Session} (hsession : session.retired = true) (h : b.Released)
    (m : Bytes) : (dispatch session m).wp C (fun r b' k' =>
      r.2 = session ∧ b' = b ∧ k' = k) b k := by
  have hsame : hyperIoSessionRetire session = session := by
    unfold hyperIoSessionRetire
    rw [← hsession]
  simp only [dispatch, wp_bind, wp_get, wp_ite, wp_pure]
  split
  · refine wp_mono (releaseMemory_released h) ?_
    rintro _ b k ⟨rfl, rfl, rfl⟩
    exact ⟨by simp [hsame], rfl, rfl⟩
  · have hpreparable : (!hyperIoSessionPreparable session) = true := by
      simp [hyperIoSessionPreparable, hsession]
    rw [if_pos hpreparable]
    exact ⟨trivial, trivial, trivial⟩

end Released

/-! ## Takeover of a binding -/

/-- Nothing acquired is held: neither memory nor token, no device, eventfd or TAP. -/
structure Backend.Bare (b : Backend) : Prop extends b.Quiesced where
  memory : b.memory = none
  memoryFd : b.memoryFd = none
  token : b.token = 0

/-- `idle` looks at some fields only; in a sane backend the others follow. -/
theorem Backend.Sane.bare {b : Backend} (h : b.Sane) (hidle : b.idle = true) : b.Bare := by
  simp only [Backend.idle, Bool.and_eq_true, Option.isNone_iff_eq_none, beq_iff_eq] at hidle
  have hmemory : b.memory = none := hidle.1.1.1.1.1.1.1
  exact ⟨h.quiesced hmemory, hmemory, hidle.1.1.1.1.1.1.2, hidle.1.1.1.1.1.2⟩

theorem Backend.Bare.idle {b : Backend} (h : b.Bare) : b.idle = true := by
  have hdisk := h.endpoint .storage
  have hnet := h.endpoint .network
  simp [Backend.idle, h.memory, h.memoryFd, h.token, h.tap,
    show b.disk.fd = none from hdisk.fd, show b.disk.bound = false from hdisk.bound,
    show b.net.fd = none from hnet.fd, show b.net.bound = false from hnet.bound]

theorem Backend.Released.bare {b : Backend} (h : b.Released) : b.Bare :=
  ⟨h.toQuiesced, h.memory, h.memoryFd, h.token⟩

/-- While anything of the memory is held the backend is not idle. -/
theorem Backend.Holding.not_idle {b : Backend} (h : b.Holding) : b.idle = false := by
  rcases h with h | h | h
  · cases hm : b.memory <;> simp_all [Backend.idle]
  · cases hm : b.memoryFd <;> simp_all [Backend.idle]
  · simp [Backend.idle, h]

/-- A round changes the binding only by a takeover. -/
theorem Round.takeover {s s' : Serving} {m : Bytes} {served : Served} (h : Round s m served s')
    (hmanaged : s.backend.managed = true) (hbinding : s'.session.binding ≠ s.session.binding) :
    s.session.binding < s'.session.binding ∧ operationOf m = s.backend.hello ∧ m.length = 40 ∧
      s.backend.idle = true := by
  cases h with
  | replayed => exact absurd rfl hbinding
  | rejected => exact absurd rfl hbinding
  | executed hexec r b _ hsession =>
    have hr : r.2.binding = (s.admission m).2.binding := by
      rcases hsession with h | ⟨-, -, h⟩ <;> rw [h]
      rfl
    have hb : (s.executed m r b).session.binding = (s.admission m).2.binding := hr
    rcases s.admit_cases m with h | ⟨h, -⟩ | ⟨h, hop, hsize, hidle, hlt⟩
    · exact absurd (by rw [h]) hexec.admitted
    · exact absurd (by rw [hb, h]) hbinding
    · rw [if_pos hmanaged] at hidle
      rw [hb, h]
      exact ⟨hlt, hop, hsize, hidle⟩

/-! ### After a release -/

theorem Backend.diagnostic_eq (b : Backend) : ∃ n, b.diagnostic = { b with diagnostics := n } := by
  unfold diagnostic
  split
  · exact ⟨b.diagnostics, rfl⟩
  · exact ⟨_, rfl⟩

theorem Serving.logged_backend (s : Serving) :
    ∃ n, s.logged.backend = { s.backend with diagnostics := n } := by
  obtain ⟨n, hn⟩ := s.backend.diagnostic_eq
  obtain ⟨n', hn'⟩ := s.backend.diagnostic.diagnostic_eq
  exact ⟨n', hn'.trans (by rw [hn])⟩

/-- In a retired session a record of the same binding makes no call and changes nothing but
the diagnostics counter and the session's epochs. -/
theorem serveRecord_retired {K : Type} {C : Contract Sys K} {k : K} {s : Serving} {m : Bytes}
    (hframed : Framed m) (hretired : s.session.retired = true) (hb : s.backend.Released)
    (hbinding : (Header.decode m).binding = s.session.binding) :
    (serveRecord s m).wp C (fun r k' => k' = k ∧ r.2.session.binding = s.session.binding ∧
      r.2.session.retired = true ∧ ∃ n, r.2.backend = { s.backend with diagnostics := n }) k := by
  refine Serving.wp_serveRecord hframed (fun _ => ⟨rfl, rfl, hretired, s.logged_backend⟩)
    (fun _ => ⟨rfl, rfl, hretired, s.logged_backend⟩) fun h => ?_
  have hcurrent : (s.admission m).2 = s.session := by
    refine Serving.admit_session fun htakeover => ?_
    rcases s.admit_cases m with h' | ⟨h', -⟩ | ⟨-, -, -, -, hlt⟩
    · rw [h'] at htakeover; cases htakeover
    · rw [h'] at htakeover; cases htakeover
    · exact UInt64.lt_irrefl _ (hbinding ▸ hlt)
  have hreleased : s.backend.diagnostic.Released := (Within.diagnostic [] _).released hb
  rw [hcurrent]
  refine wp_mono (dispatch_retired hretired hreleased m) ?_
  rintro ⟨answer, _⟩ _ k' ⟨rfl, rfl, rfl⟩
  exact ⟨rfl, rfl, hretired, s.logged_backend⟩

/-- The binding `binding` is over: it was retired, or taken over since. -/
def Serving.Past (binding : UInt64) (s : Serving) : Prop :=
  binding < s.session.binding ∨
    s.session.binding = binding ∧ s.session.retired = true ∧ s.backend.Released

/-! ### Turns -/

namespace Turn

/-- The turn executed a `RELEASE_MEMORY` that was answered `OK`. -/
def Retires (t : Turn) : Prop :=
  t.served.dispatched = true ∧ isRelease t.record = true ∧
    t.served.response.status = Status.ok.code

/-- The turn executed a `RELEASE_MEMORY`, or undid a `PREPARE_MEMORY`, and could not complete
the retirement. -/
def FailsToRetire (t : Turn) : Prop :=
  t.served.dispatched = true ∧
    (isRelease t.record = true ∨ operationOf t.record = .prepareMemory) ∧
    t.served.response.status = Status.quiescenceFailed.code

end Turn

theorem Settled.holding {t : Turn} (h : Settled t.before t.record t.served t.after)
    (hretires : ¬ t.Retires) (hholding : t.before.backend.Holding) : t.after.backend.Holding := by
  by_cases hrelease : t.served.dispatched = true ∧ isRelease t.record = true
  · rcases h.release hrelease.1 hrelease.2 with ⟨hok, -⟩ | ⟨-, h'⟩
    · exact absurd ⟨hrelease.1, hrelease.2, hok⟩ hretires
    · exact h'
  · refine h.keep ?_ hholding
    rw [not_and_or, Bool.not_eq_true, Bool.not_eq_true] at hrelease
    exact hrelease

theorem Settled.holding_of_fails {t : Turn} (h : Settled t.before t.record t.served t.after)
    (hfails : t.FailsToRetire) : t.after.backend.Holding := by
  obtain ⟨hserved, hop, hstatus⟩ := hfails
  rcases hop with hrelease | hprepare
  · rcases h.release hserved hrelease with ⟨hok, -⟩ | ⟨-, h'⟩
    · exact absurd (Status.code_injective (hok.symm.trans hstatus)) (by decide)
    · exact h'
  · exact h.prepare hserved hprepare hstatus

section Turns

variable {setup : Setup} {env : Environment Sys} {ms : List Bytes}

/-- What every turn of a managed service's run starts with, and what it makes of it. -/
theorem turns_settled {t : Turn} (ht : t ∈ turns env [] setup.serving ms) :
    (t.before.backend.Sane ∧ t.before.backend.hello = setup.hello) ∧
      (t.after.backend.Sane ∧ t.after.backend.hello = setup.hello) ∧
      Settled t.before t.record t.served t.after := by
  obtain ⟨pre, post, hts⟩ := List.append_of_mem ht
  have hround (s : Serving) (k : Outside) (m : Bytes) (hwell : wellFramed m)
      (hJ : Custody s.backend k ∧ s.backend.hello = setup.hello) :
      (serveRecord s m).wp linux (fun r k' =>
        (Custody r.2.backend k' ∧ r.2.backend.hello = setup.hello) ∧ Settled s m r.1 r.2) k := by
    have hframed := framed_of_wellFramed hwell
    refine Program.wp_mono (Program.wp_and_free (serveRecord_custody hframed hJ.1)
      (serveRecord_round hframed)) ?_
    rintro r k' ⟨⟨h, hsettled⟩, hround⟩
    obtain ⟨_, hwithin, -⟩ := hround.within
    refine ⟨⟨h, ?_⟩, hsettled⟩
    rw [← hJ.2]
    simp [Backend.hello, Backend.primary, hwithin.owner, hwithin.wwpn]
  obtain ⟨⟨hbefore, hhello⟩, -, ⟨hafter, hhello'⟩, hsettled⟩ := turns_wp
    (R := fun s _ m served s' _ => Settled s m served s') hround
    ⟨setup.custody, setup.backend_hello⟩ (linux_assumed _ _) hts
  exact ⟨⟨hbefore.sane, hhello⟩, ⟨hafter.sane, hhello'⟩, hsettled⟩

/-- A turn that changes the binding took over a bare backend. -/
theorem turns_takeover {t : Turn} (ht : t ∈ turns env [] setup.serving ms)
    (hbinding : t.after.session.binding ≠ t.before.session.binding) :
    t.before.session.binding < t.after.session.binding ∧ operationOf t.record = setup.hello ∧
      t.record.length = 40 ∧ t.before.backend.Bare := by
  obtain ⟨⟨hsane, hhello⟩, -⟩ := turns_settled ht
  obtain ⟨hlt, hop, hsize, hidle⟩ := (turns_round ht).2.takeover hsane.managed hbinding
  exact ⟨hlt, hop.trans hhello, hsize, hsane.bare hidle⟩

/-- A record that is not executed makes no call and changes nothing but the diagnostics. -/
theorem turns_not_dispatched {past : List (Event Sys)} {s : Serving} {t : Turn}
    (ht : t ∈ turns env past s ms) (h : t.served.dispatched = false) :
    t.events = [] ∧ t.after = t.before.logged := by
  obtain ⟨hframed, -⟩ := turns_round ht
  obtain ⟨-, past', hexec⟩ := turns_exec ht
  rcases t.before.replays_or_executes_or_rejects t.record with h' | h' | h'
  · rw [Serving.serveRecord_of_replays h'] at hexec
    exact ⟨(congrArg Prod.snd hexec).symm, (congrArg (·.1.2) hexec).symm⟩
  · rw [Serving.serveRecord_of_executes hframed h', Program.exec_bind] at hexec
    exact absurd (h.symm.trans (congrArg (·.1.1.dispatched) hexec).symm) Bool.false_ne_true
  · rw [Serving.serveRecord_of_rejects h'] at hexec
    exact ⟨(congrArg Prod.snd hexec).symm, (congrArg (·.1.2) hexec).symm⟩

/-- One more turn of a run, once `binding` is over. -/
theorem Serving.Past.turn {binding : UInt64} {past : List (Event Sys)} {s : Serving}
    {t : Turn} (ht : t ∈ turns env past s ms) (h : t.before.Past binding) :
    t.after.Past binding ∧ (t.binding = binding →
      t.events = [] ∧ ∃ n, t.after.backend = { t.before.backend with diagnostics := n }) := by
  cases hserved : t.served.dispatched with
  | false =>
    obtain ⟨hevents, hafter⟩ := turns_not_dispatched ht hserved
    rw [hafter]
    -- nothing but the log has changed
    refine ⟨?_, fun _ => ⟨hevents, t.before.logged_backend⟩⟩
    exact h.imp_right fun h =>
      ⟨h.1, h.2.1, t.before.logged_within.released h.2.2⟩
  | true =>
    obtain ⟨hframed, hround⟩ := turns_round ht
    obtain ⟨horder, hafter, -⟩ := hround.dispatched hserved
    have hle : t.before.session.binding ≤ t.binding := by
      rcases horder with hlt | ⟨heq, -⟩
      · exact UInt64.le_of_lt hlt
      · exact UInt64.le_of_eq heq
    -- a later binding has come before
    rcases h with hlt | ⟨hb, hretired, hreleased⟩
    · have hpast := UInt64.lt_of_lt_of_le hlt hle
      exact ⟨.inl (hafter ▸ hpast), fun hsame => absurd (hsame ▸ hpast) (UInt64.lt_irrefl _)⟩
    -- the same binding, which has released everything
    by_cases hsame : t.binding = binding
    · obtain ⟨-, past', hexec⟩ := turns_exec ht
      have hpost := (Program.wp_exec env past'
        (serveRecord_retired (C := .history Sys) (k := []) hframed hretired hreleased
          (hsame.trans hb.symm)) (Contract.history_assumed _ _)).2
      rw [hexec, Contract.history_after] at hpost
      obtain ⟨hevents, hbinding, hretired', n, hn⟩ := hpost
      have hreleased' : t.after.backend.Released := by
        rw [hn]
        exact ⟨⟨hreleased.endpoint, hreleased.tap⟩, hreleased.memory, hreleased.memoryFd,
          hreleased.token, hreleased.region⟩
      exact ⟨.inr ⟨hbinding.trans hb, hretired', hreleased'⟩, fun _ => ⟨hevents, n, hn⟩⟩
    · -- a later binding comes now
      have hlt : binding < t.binding :=
        UInt64.lt_of_le_of_ne (hb ▸ hle) fun hsame' => hsame hsame'.symm
      exact ⟨.inl (hafter ▸ hlt), fun hsame' => absurd hsame' hsame⟩

/-- A state whose binding is over, and not taken over yet: it is idle, and a primary HELLO with
any greater binding takes over. -/
theorem Serving.Past.takeover {s : Serving} {binding : UInt64} (h : s.Past binding)
    (hbinding : s.session.binding = binding) (hmanaged : s.backend.managed = true) :
    s.backend.idle = true ∧ ∀ m, wellFramed m → operationOf m = s.backend.hello →
      m.length = 40 → binding < (Header.decode m).binding → (s.admission m).1 = .takeover := by
  have hidle : s.backend.idle = true := by
    rcases h with hlt | ⟨-, -, hreleased⟩
    · exact absurd (hbinding ▸ hlt) (UInt64.lt_irrefl _)
    · exact hreleased.bare.idle
  refine ⟨hidle, fun m hwell hop hsize hlt => ?_⟩
  have hframed := framed_of_wellFramed hwell
  have hhello : (operationOf m == s.backend.hello && m.length == 40) = true := by
    simp [hop, hsize]
  unfold Serving.admission
  dsimp only
  rw [if_pos hmanaged, hidle, hhello]
  exact session_admit_takeover _ (hbinding ▸ hlt) hframed.epoch hframed.epoch_le

/-- After a release that succeeded, its binding is over. -/
theorem turns_retires {t : Turn} (ht : t ∈ turns env [] setup.serving ms) (h : t.Retires) :
    t.after.session.binding = t.binding ∧ t.after.Past t.binding := by
  obtain ⟨hserved, hrelease, hok⟩ := h
  obtain ⟨-, hbinding, -⟩ := (turns_round ht).2.dispatched hserved
  refine ⟨hbinding, .inr ⟨hbinding, ?_⟩⟩
  rcases (turns_settled ht).2.2.release hserved hrelease with ⟨-, hreleased, hretired⟩ | ⟨h, -⟩
  · exact ⟨hretired, hreleased⟩
  · exact absurd (Status.code_injective (hok.symm.trans h)) (by decide)

/-- While something of the memory is held, and no release succeeds, the binding stays. -/
theorem turns_pending {t : Turn} (ht : t ∈ turns env [] setup.serving ms)
    (hholding : t.before.backend.Holding) :
    t.after.session.binding = t.before.session.binding := by
  by_contra hbinding
  have hidle := (turns_takeover ht hbinding).2.2.2.idle
  rw [hholding.not_idle] at hidle
  cases hidle

/-- Takeover of a binding is safe and possible. In every run of a managed service: a record that
changes the binding is the primary device's 40-byte HELLO with a greater binding, and the
backend was bare. After a `RELEASE_MEMORY` that was answered `OK` the backend is idle and
admits a primary HELLO of every greater binding, for as long as there is none; no later
record of the released binding makes a call or changes the backend. While a retirement that
failed is pending, no record changes the binding. -/
theorem takeover_safe_and_possible (setup : Setup) (env : Environment Sys) (ms : List Bytes) :
    (∀ t ∈ turns env [] setup.serving ms,
      t.after.session.binding ≠ t.before.session.binding →
        t.before.session.binding < t.after.session.binding ∧
        operationOf t.record = setup.hello ∧ t.record.length = 40 ∧ t.before.backend.Bare) ∧
    (∀ pre t post, turns env [] setup.serving ms = pre ++ t :: post → t.Retires →
      (∀ u ∈ t :: post, u.after.session.binding = t.binding →
        u.after.backend.idle = true ∧
        ∀ m, wellFramed m → operationOf m = setup.hello → m.length = 40 →
          t.binding < (Header.decode m).binding → (u.after.admission m).1 = .takeover) ∧
      ∀ u ∈ post, u.binding = t.binding → u.events = [] ∧
        ∃ n, u.after.backend = { u.before.backend with diagnostics := n }) ∧
    (∀ pre t mid u post, turns env [] setup.serving ms = pre ++ t :: (mid ++ u :: post) →
      t.FailsToRetire → (∀ v ∈ mid, ¬ v.Retires) → u.after.session.binding = t.binding) := by
  -- a binding changes only by a hello of a later one when nothing is held
  refine ⟨fun t ht => turns_takeover ht, fun pre t post hts hretires => ?_,
    fun pre t mid u post hts hfails hmid => ?_⟩
  · -- the token was retired
    have hmem {u : Turn} (hu : u ∈ t :: post) : u ∈ turns env [] setup.serving ms :=
      hts ▸ List.mem_append_right _ hu
    obtain ⟨past', ms', hpost⟩ := turns_after hts
    have hpast := (turns_retires (hmem List.mem_cons_self) hretires).2
    have hbefore {u : Turn} (hu : u ∈ post) : u.before.Past t.binding := by
      obtain ⟨mid, rest, hsplit⟩ := List.append_of_mem hu
      refine turns_keep hpast (hpost ▸ hsplit) fun v hv h => ?_
      exact (h.turn (hmem (List.mem_cons_of_mem _ (hsplit ▸ List.mem_append_left _ hv)))).1
    refine ⟨fun u hu hbinding => ?_, fun u hu hbinding => ?_⟩
    · -- the later binding is admitted
      have hafter : u.after.Past t.binding := by
        rcases List.mem_cons.mp hu with rfl | hu'
        · exact hpast
        · exact ((hbefore hu').turn (hmem hu)).1
      obtain ⟨-, ⟨hsane, hhello⟩, -⟩ := turns_settled (hmem hu)
      exact hhello ▸ hafter.takeover hbinding hsane.managed
    · -- the binding that was retired does nothing more
      exact ((hbefore hu).turn (hmem (List.mem_cons_of_mem _ hu))).2 hbinding
  · -- the token is still held
    have hmem {v : Turn} (hv : v ∈ t :: (mid ++ u :: post)) : v ∈ turns env [] setup.serving ms :=
      hts ▸ List.mem_append_right _ hv
    have ht := hmem List.mem_cons_self
    obtain ⟨past', ms', hpost⟩ := turns_after hts
    obtain ⟨-, hbinding, -⟩ := (turns_round ht).2.dispatched hfails.1
    -- it holds something as long as no release succeeds
    have hu : u.before.session.binding = t.binding ∧ u.before.backend.Holding := by
      refine turns_keep (P := fun s => s.session.binding = t.binding ∧ s.backend.Holding)
        ⟨hbinding, (turns_settled ht).2.2.holding_of_fails hfails⟩ hpost.symm ?_
      rintro v hv ⟨hb, hholding⟩
      have hv' := hmem (List.mem_cons_of_mem _ (List.mem_append_left _ hv))
      exact ⟨(turns_pending hv' hholding).trans hb,
        (turns_settled hv').2.2.holding (hmid v hv) hholding⟩
    exact (turns_pending (hmem (by simp)) hu.2).trans hu.1

end Turns

end HyperIoVm
