import HyperIoVm.Runs

/-!
# The order of retirement

From its start to its exit a managed service retires what it acquired in the one safe order,
whichever calls fail and however often a retirement is tried again. A `RELEASE_MEMORY`
answers `OK` only when everything is retired; until then whatever is not retired stays on
record, no proof is given to the host, and a retry whose calls succeed completes it.
-/

namespace HyperIoVm

open Effects Routine

variable {b : Backend} {k : Outside} {es : List (Event Sys)}

/-! ## Both drains are tried -/

/-- The drain of an attached device was issued. -/
def Tried (e : Endpoint) (command : Command) (es : List (Event Sys)) : Prop :=
  e.attached = true →
    ∃ fd, e.fd = some fd ∧ ∃ r : Outcome, (⟨.ioctl fd command, r⟩ : Event Sys) ∈ es

theorem Tried.append {e : Endpoint} {command : Command} (h : Tried e command es)
    (es' : List (Event Sys)) : Tried e command (es ++ es') := fun hattached => by
  obtain ⟨fd, hfd, r, hr⟩ := h hattached
  exact ⟨fd, hfd, r, List.mem_append_left es' hr⟩

/-- An ioctl on an open descriptor is in the history, whatever it answered. -/
theorem ioctl_tried {e : Endpoint} {command : Command}
    (h : e.attached = true → e.fd.isSome = true) :
    (ioctl e.fd command).wp (.history Sys) (fun _ b' es' => b' = b ∧ Tried e command es') b es := by
  cases hfd : e.fd with
  | none =>
    refine ⟨rfl, fun hattached => ?_⟩
    rw [hfd] at h
    cases h hattached
  | some fd =>
    exact ⟨trivial, fun r _ => ⟨rfl, fun _ => ⟨fd, hfd, r, List.mem_append_right _ (by simp)⟩⟩⟩

theorem drainDisk_tried (h : b.disk.attached = true → b.disk.fd.isSome = true) :
    drainDisk.wp (.history Sys) (fun _ _ es' => Tried b.disk (.clearEndpoint b.wwpn) es') b es := by
  simp only [drainDisk, wp_bind, wp_get, wp_ite, wp_pure]
  split
  next hattached =>
    exact fun ha => absurd ha (by simpa using hattached)
  next =>
    refine wp_mono (ioctl_tried h) ?_
    rintro r _ es' ⟨rfl, htried⟩
    split <;> exact htried

theorem drainNetwork_tried (h : b.net.attached = true → b.net.fd.isSome = true) :
    drainNetwork.wp (.history Sys) (fun _ _ es' => Tried b.net .resetOwner es') b es := by
  simp only [drainNetwork, wp_bind, wp_get, wp_ite, wp_pure]
  split
  next hattached =>
    exact fun ha => absurd ha (by simpa using hattached)
  next =>
    refine wp_mono (ioctl_tried h) ?_
    rintro r _ es' ⟨rfl, htried⟩
    split <;> exact htried

/-- `quiesce_all` tries both drains, even when the first one fails. -/
theorem quiesceAll_tried (h : b.Sane) : quiesceAll.wp (.history Sys) (fun _ _ es' =>
    Tried b.disk (.clearEndpoint b.wwpn) es' ∧ Tried b.net .resetOwner es') b es := by
  have hdisk : quiesceDisk.wp (.history Sys) (fun _ _ es' =>
      Tried b.disk (.clearEndpoint b.wwpn) es') b es := by
    simp only [quiesceDisk, wp_bind, wp_ite, wp_pure]
    refine wp_mono (drainDisk_tried fun ha => ((h.endpoint .storage).attached ha).2) ?_
    intro r b' es' htried
    split
    · exact htried
    · exact keeps_history (fun _ _ ht => ht.append _) _ _ _ htried
  have hnet {b' : Backend} {es : List (Event Sys)} (hb : b'.net = b.net) :
      quiesceNetwork.wp (.history Sys) (fun _ _ es' => Tried b.net .resetOwner es') b' es := by
    simp only [quiesceNetwork, wp_bind]
    rw [← hb]
    have hattached : b'.net.attached = true → b'.net.fd.isSome = true := by
      rw [hb]
      exact fun ha => ((h.endpoint .network).attached ha).2
    refine wp_mono (drainNetwork_tried hattached) fun r b' es' htried => ?_
    exact keeps_history (fun _ _ ht => ht.append _) _ _ _ htried
  simp only [quiesceAll, wp_bind]
  refine wp_mono (wp_and_free hdisk (quiesceDisk_confined.wp b)) ?_
  rintro r b' es' ⟨htried, hwithin⟩
  refine wp_mono (wp_and (hnet (hwithin.net (by simp)))
    (keeps_history (fun _ _ ht => ht.append _) _ _ _ htried)) ?_
  exact fun _ _ _ hpost => ⟨hpost.2, hpost.1⟩

theorem releaseMemory_tried (h : b.Sane) : releaseMemory.wp (.history Sys) (fun _ _ es' =>
    Tried b.disk (.clearEndpoint b.wwpn) es' ∧ Tried b.net .resetOwner es') b es := by
  simp only [releaseMemory, wp_bind]
  refine wp_mono (quiesceAll_tried h) fun r b' es' htried => ?_
  exact keeps_history (P := fun es => Tried b.disk (.clearEndpoint b.wwpn) es ∧
    Tried b.net .resetOwner es) (fun _ _ ht => ⟨ht.1.append _, ht.2.append _⟩) _ _ _ htried

/-! ## No proof of a retirement that failed -/

/-- No proof of quiescence was accepted. -/
def Unproved (es : List (Event Sys)) : Prop :=
  ∀ fd token, (⟨.ioctl fd (.quiescent token), Outcome.ok⟩ : Event Sys) ∉ es

theorem unproved_sys {c : Call} (h : ∀ fd token, c ≠ .ioctl fd (.quiescent token)) :
    Keeps (.history Sys) (fun _ => Unproved) (sys c) := by
  refine keeps_perform (fun _ _ _ => trivial) fun _ es r hes fd token hmem => ?_
  rcases List.mem_append.mp hmem with hmem | hmem
  · exact hes fd token hmem
  · exact h fd token (congrArg Sigma.fst (List.mem_singleton.mp hmem)).symm

theorem unproved_ioctl (fd : Option Fd) {command : Command}
    (h : ∀ token, command ≠ .quiescent token) :
    Keeps (.history Sys) (fun _ => Unproved) (ioctl fd command) := by
  cases fd with
  | none => exact keeps_pure _
  | some fd => exact unproved_sys fun fd' token hc => h token (Call.ioctl.inj hc).2

theorem unproved_closeIfOpen (fd : Option Fd) :
    Keeps (.history Sys) (fun _ => Unproved) (closeIfOpen fd) := by
  cases fd with
  | none => exact keeps_pure _
  | some fd => exact keeps_bind (unproved_sys (by simp)) fun _ => keeps_pure _

theorem unproved_modify (f : Backend → Backend) :
    Keeps (.history Sys) (fun _ => Unproved) (modify f : Service PUnit) :=
  keeps_modify fun _ _ h => h

theorem endpointClose_unproved (d : Device) :
    Keeps (.history Sys) (fun _ => Unproved) (endpointClose d) := by
  have hunbind : Keeps (.history Sys) (fun _ => Unproved) (endpointUnbind d) :=
    keeps_bind keeps_get fun _ => keeps_ite (fun _ => keeps_pure _) fun _ =>
      keeps_bind (unproved_ioctl _ (by simp)) fun _ => keeps_ite (fun _ => keeps_pure _) fun _ =>
        keeps_bind (unproved_modify _) fun _ => keeps_pure _
  have hqueue (i : Fin 6) : Keeps (.history Sys) (fun _ => Unproved) (closeQueue d i) :=
    keeps_bind keeps_get fun _ => keeps_bind (unproved_closeIfOpen _) fun _ =>
      keeps_bind (unproved_closeIfOpen _) fun _ => unproved_modify _
  exact keeps_bind keeps_get fun _ => keeps_bind (unproved_closeIfOpen _) fun _ =>
    keeps_bind (unproved_modify _) fun _ => keeps_bind hunbind fun _ =>
      keeps_ite (fun _ => keeps_pure _) fun _ =>
        keeps_bind (keeps_forM hqueue) fun _ => keeps_pure _

theorem quiesceAll_unproved : Keeps (.history Sys) (fun _ => Unproved) quiesceAll := by
  have hdisk : Keeps (.history Sys) (fun _ => Unproved) drainDisk :=
    keeps_bind keeps_get fun _ => keeps_ite (fun _ => keeps_pure _) fun _ =>
      keeps_bind (unproved_ioctl _ (by simp)) fun _ => keeps_ite (fun _ => keeps_pure _) fun _ =>
        keeps_bind (unproved_modify _) fun _ => keeps_pure _
  have hnet : Keeps (.history Sys) (fun _ => Unproved) drainNetwork :=
    keeps_bind keeps_get fun _ => keeps_ite (fun _ => keeps_pure _) fun _ =>
      keeps_bind (unproved_ioctl _ (by simp)) fun _ =>
        keeps_ite (fun _ => keeps_bind (unproved_modify _) fun _ => keeps_pure _) fun _ =>
          keeps_bind (unproved_modify _) fun _ => keeps_pure _
  have htap : Keeps (.history Sys) (fun _ => Unproved) closeTap :=
    keeps_bind keeps_get fun _ => keeps_bind (unproved_closeIfOpen _) fun _ => unproved_modify _
  exact keeps_bind (keeps_bind hdisk fun _ => keeps_ite (fun _ => keeps_pure _) fun _ =>
      endpointClose_unproved .storage) fun _ =>
    keeps_bind (keeps_bind hnet fun _ => keeps_ite (fun _ => keeps_pure _) fun _ =>
      keeps_bind (endpointClose_unproved .network) fun _ => keeps_ite (fun _ => keeps_pure _)
        fun _ => keeps_bind htap fun _ => keeps_pure _) fun _ => keeps_pure _

/-- A release that does not complete has given no proof. -/
theorem releaseMemory_unproved (h : Unproved es) : releaseMemory.wp (.history Sys)
    (fun r _ es' => r ≠ .ok → Unproved es') b es := by
  -- only a token that was retired can be proof
  have hunmap : Keeps (.history Sys) (fun _ => Unproved) unmapMemory := by
    refine keeps_bind keeps_get fun b => ?_
    cases b.memory with
    | none => exact keeps_pure _
    | some address =>
      exact keeps_bind (unproved_sys (by simp)) fun _ => keeps_ite (fun _ => keeps_pure _) fun _ =>
        keeps_bind (unproved_modify _) fun _ => keeps_pure _
  have hclose : Keeps (.history Sys) (fun _ => Unproved) closeMemory := by
    refine keeps_bind keeps_get fun b => ?_
    cases b.memoryFd with
    | none => exact keeps_pure _
    | some fd =>
      exact keeps_bind (keeps_ite (fun _ => unproved_ioctl _ (by simp)) fun _ => keeps_pure _)
        fun _ => keeps_ite (fun _ => keeps_pure _) fun _ =>
          keeps_bind (unproved_sys (by simp)) fun _ => keeps_bind (unproved_modify _) fun _ =>
            keeps_pure _
  have hretire {b : Backend} {es : List (Event Sys)} (h : Unproved es) :
      retireToken.wp (.history Sys) (fun r _ es' => r = .failed → Unproved es') b es := by
    simp only [retireToken, wp_bind, wp_get, wp_ite, wp_pure]
    split
    · simp
    · cases b.memoryEndpoint.notification with
      | none => exact fun _ => h
      | some fd =>
        refine ⟨trivial, fun r _ hr fd' token hmem => ?_⟩
        rcases List.mem_append.mp hmem with hmem | hmem
        · exact h fd' token hmem
        · -- the ioctl has failed, so it retires nothing
          have hevent := List.mem_singleton.mp hmem
          rw [show r = Outcome.failed from hr] at hevent
          cases hevent
  simp only [releaseMemory, wp_bind, wp_ite, wp_pure, wp_modify]
  refine wp_mono (quiesceAll_unproved b es h) fun r b es h => ?_
  split
  · exact fun _ => h
  refine wp_mono (hunmap b es h) fun r b es h => ?_
  split
  · exact fun _ => h
  refine wp_mono (hclose b es h) fun r b es h => ?_
  split
  · exact fun _ => h
  refine wp_mono (hretire h) fun r b es h => ?_
  split
  next hfailed =>
    exact fun _ => h hfailed
  next => exact fun hr => absurd rfl hr

/-! ## A retirement whose calls succeed -/

/-- The call was answered with success; whatever `close` answers, the descriptor is gone. -/
def Succeeds : (c : Call) → c.Reply → Prop
  | .ioctl _ _, r => r = .ok
  | .munmap _ _, r => r = .ok
  | _, _ => True

theorem ioctl_succeeds {fd : Option Fd} {command : Command} (h : fd.isSome = true) :
    (ioctl fd command).wp (.assuming Succeeds) (fun r b' _ => r = .ok ∧ b' = b) b () := by
  obtain ⟨fd, rfl⟩ := Option.isSome_iff_exists.mp h
  exact ⟨trivial, fun r hr => ⟨hr, rfl⟩⟩

theorem closeIfOpen_succeeds (fd : Option Fd) :
    (closeIfOpen fd).wp (.assuming Succeeds) (fun _ b' _ => b' = b) b () := by
  cases fd with
  | none => exact rfl
  | some fd => exact ⟨trivial, fun _ _ => rfl⟩

theorem endpointClose_succeeds {d : Device}
    (h : (b.endpoint d).bound = true → (b.endpoint d).notification.isSome = true) :
    (endpointClose d).wp (.assuming Succeeds) (fun r _ _ => r = .ok) b () := by
  have hunbind {b : Backend}
      (h : (b.endpoint d).bound = true → (b.endpoint d).notification.isSome = true) :
      (endpointUnbind d).wp (.assuming Succeeds) (fun r _ _ => r = .ok) b () := by
    simp only [endpointUnbind, wp_bind, wp_get, wp_ite, wp_pure]
    split
    next => trivial
    next hbound =>
      refine wp_mono (ioctl_succeeds (h (by simpa using hbound))) ?_
      rintro _ _ _ ⟨rfl, rfl⟩
      rw [if_neg (by decide)]
      trivial
  simp only [endpointClose, wp_bind, wp_get]
  refine wp_mono (closeIfOpen_succeeds _) ?_
  rintro _ b _ rfl
  refine (wp_modify _).mpr (wp_mono (hunbind ?_) ?_)
  · rw [Backend.endpoint_setEndpoint]; exact h
  · rintro _ b _ rfl
    rw [if_neg (by decide), wp_bind]
    exact wp_mono (wp_forget (wp_free (Q := fun _ _ => True) fun _ _ => trivial)
      fun _ _ _ _ => trivial) fun _ _ _ _ => rfl

/-- Under a contract that assumes nothing, custody is kept when all calls succeed too. -/
theorem wp_custody {α : Type} {m : Service α} {Q : α → Backend → Prop}
    (h : m.wp linux (fun r b' k' => Custody b' k' ∧ Q r b') b k) :
    m.wp (.assuming Succeeds) (fun r b' _ => (∃ k', Custody b' k') ∧ Q r b') b () :=
  wp_mono (wp_forget h fun _ _ _ _ => trivial) fun _ _ _ h =>
    ⟨h.imp fun _ h => h.1, h.choose_spec.2⟩

theorem quiesceDisk_succeeds {mapped : Bool} (h : b.disk.Sane mapped) :
    quiesceDisk.wp (.assuming Succeeds) (fun r _ _ => r = .ok) b () := by
  have hdrain : drainDisk.wp (.assuming Succeeds) (fun r b' _ => r = .ok ∧
      b'.disk.bound = b.disk.bound ∧ b'.disk.notification = b.disk.notification) b () := by
    simp only [drainDisk, wp_bind, wp_get, wp_ite, wp_pure]
    split
    next => exact ⟨trivial, trivial, trivial⟩
    next hattached =>
      refine wp_mono (ioctl_succeeds (h.attached (by simpa using hattached)).2) ?_
      rintro _ _ _ ⟨rfl, rfl⟩
      rw [if_neg (by decide)]
      exact ⟨trivial, rfl, rfl⟩
  simp only [quiesceDisk, wp_bind, wp_ite, wp_pure]
  refine wp_mono hdrain ?_
  rintro _ b' _ ⟨rfl, hbound, hroute⟩
  rw [if_neg (by decide)]
  refine endpointClose_succeeds (d := .storage) ?_
  show b'.disk.bound = true → b'.disk.notification.isSome = true
  rw [hbound, hroute]
  exact h.routed

theorem quiesceNetwork_succeeds {mapped : Bool} (h : b.net.Sane mapped) :
    quiesceNetwork.wp (.assuming Succeeds) (fun r _ _ => r = .ok) b () := by
  -- a drained device keeps its binding
  have hdrain : drainNetwork.wp (.assuming Succeeds) (fun r b' _ => r = .ok ∧
      b'.net.bound = b.net.bound ∧ b'.net.notification = b.net.notification) b () := by
    simp only [drainNetwork, wp_bind, wp_get, wp_ite, wp_pure]
    split
    -- nothing is attached
    next => exact ⟨trivial, trivial, trivial⟩
    -- its descriptor is there, since it is attached
    next hattached =>
      refine wp_mono (ioctl_succeeds (h.attached (by simpa using hattached)).2) ?_
      rintro _ _ _ ⟨rfl, rfl⟩
      rw [if_neg (by decide)]
      exact ⟨trivial, rfl, rfl⟩
  have htap {b : Backend} : closeTap.wp (.assuming Succeeds) (fun _ _ _ => True) b () :=
    wp_mono (wp_forget (wp_free (Q := fun _ _ => True) fun _ _ => trivial)
      fun _ _ _ _ => trivial) fun _ _ _ _ => trivial
  -- a bound device has a route
  have hclose {b' : Backend} (hbound : b'.net.bound = b.net.bound)
      (hroute : b'.net.notification = b.net.notification) :
      (endpointClose .network).wp (.assuming Succeeds) (fun r _ _ => r = .ok) b' () := by
    refine endpointClose_succeeds (d := .network) ?_
    show b'.net.bound = true → b'.net.notification.isSome = true
    rw [hbound, hroute]
    exact h.routed
  simp only [quiesceNetwork, wp_bind, wp_ite, wp_pure]
  refine wp_mono hdrain ?_
  rintro _ b' _ ⟨rfl, hbound, hroute⟩
  rw [if_neg (by decide)]
  refine wp_mono (hclose hbound hroute) ?_
  rintro _ b' _ rfl
  rw [if_neg (by decide)]
  exact wp_mono htap fun _ _ _ _ => trivial

/-- A release whose calls all succeed completes, whatever an earlier one has left. -/
theorem releaseMemory_succeeds (h : Custody b k) :
    releaseMemory.wp (.assuming Succeeds) (fun r _ _ => r = .ok) b () := by
  -- both devices are idle
  have hquiesce : quiesceAll.wp (.assuming Succeeds) (fun r _ _ => r = .ok) b () := by
    simp only [quiesceAll, wp_bind, wp_pure]
    refine wp_mono (wp_and (quiesceDisk_succeeds (h.sane.endpoint .storage))
      (wp_custody (quiesceDisk_custody h))) ?_
    rintro _ b' _ ⟨rfl, ⟨k', h'⟩, -⟩
    refine wp_mono (quiesceNetwork_succeeds (h'.sane.endpoint .network)) ?_
    rintro _ _ _ rfl
    trivial
  -- nothing is mapped
  have hunmap {b : Backend} : unmapMemory.wp (.assuming Succeeds) (fun r _ _ => r = .ok) b () := by
    simp only [unmapMemory, wp_bind, wp_get]
    cases b.memory with
    | none => rfl
    | some address =>
      refine ⟨trivial, fun r hr => ?_⟩
      rw [show r = Outcome.ok from hr]
      rfl
  -- the file is closed
  have hclose {b : Backend} (hmanaged : b.managed = true) :
      closeMemory.wp (.assuming Succeeds) (fun r _ _ => r = .ok) b () := by
    simp only [closeMemory, wp_bind, wp_get]
    cases b.memoryFd with
    | none => rfl
    | some fd =>
      simp only [hmanaged, if_true, wp_bind]
      refine wp_mono (ioctl_succeeds rfl) ?_
      rintro _ _ _ ⟨rfl, rfl⟩
      exact ⟨trivial, fun _ _ => rfl⟩
  -- the token is retired
  have hretire {b : Backend} (h : b.Sane) :
      retireToken.wp (.assuming Succeeds) (fun r _ _ => r = .ok) b () := by
    simp only [retireToken, wp_bind, wp_get, wp_ite, wp_pure]
    split
    -- there is none
    next => trivial
    -- a token has its route
    next htoken =>
      exact wp_mono (ioctl_succeeds (h.routed htoken)) fun _ _ _ hpost => hpost.1
  simp only [releaseMemory, wp_bind, wp_ite, wp_pure, wp_modify]
  refine wp_mono (wp_and hquiesce (wp_custody (Q := fun r b' => r = .ok → b'.Quiesced)
    (wp_mono (quiesceAll_custody h) fun _ _ _ hpost => ⟨hpost.1, hpost.2.1⟩))) ?_
  rintro _ b _ ⟨rfl, ⟨k, h⟩, hquiesced⟩
  rw [if_neg (by decide)]
  refine wp_mono (wp_and hunmap (wp_custody (unmapMemory_custody h (hquiesced rfl)))) ?_
  rintro _ b _ ⟨rfl, ⟨k, h⟩, hquiesced, hmemory, -⟩
  rw [if_neg (by decide)]
  refine wp_mono (wp_and (hclose h.sane.managed)
    (wp_custody (closeMemory_custody h hquiesced (hmemory rfl)))) ?_
  rintro _ b _ ⟨rfl, ⟨k, h⟩, -⟩
  rw [if_neg (by decide)]
  refine wp_mono (hretire h.sane) ?_
  rintro _ b _ rfl
  rw [if_neg (by decide)]
  trivial

/-! ## Runs -/

/-- The control loop keeps custody, whichever records it is delivered. -/
theorem serve_custody {s : Serving} (h : Custody s.backend k) (inbox : List (Bytes × Taken)) :
    (serve s inbox).wp linux (fun r k' => Custody r.2.backend k') k := by
  induction inbox generalizing s k with
  | nil => exact h
  | cons record rest ih =>
    obtain ⟨m, taken⟩ := record
    rw [serve]
    split
    next => exact h
    next hwell =>
      rw [Program.wp_bind]
      refine Program.wp_mono
        (serveRecord_custody (framed_of_wellFramed (by simpa using hwell)) h) ?_
      rintro ⟨_, s'⟩ k' ⟨h', -⟩
      cases taken with
      | written => exact ih h'
      | _ => exact h'

/-- The process, from its start to its exit, keeps custody. -/
theorem serviceMain_custody (setup : Setup) (inbox : List (Bytes × Taken)) :
    (serviceMain setup inbox).wp linux (fun r k' => Custody r.2 k') setup.outside := by
  unfold serviceMain
  rw [Program.wp_bind]
  refine Program.wp_mono (serve_custody setup.custody inbox) fun r k h => ?_
  exact wp_mono (releaseMemory_custody h) fun _ _ _ hpost => hpost.1

/-- To execute `RELEASE_MEMORY` is to run `release_memory` and to answer its status. -/
theorem serveRecord_release {s : Serving} {m : Bytes} (hframed : Framed m) (h : s.Executes m)
    (hrelease : isRelease m = true) (hmanaged : s.backend.managed = true) :
    serveRecord s m = releaseMemory.run s.backend.diagnostic >>= fun r =>
      .done (⟨({ status := r.1 } : Answer).response (Header.decode m), true⟩,
        s.executed m ({ status := r.1 },
          if r.1 = .ok then hyperIoSessionRetire (s.admission m).2
          else (s.admission m).2) r.2) := by
  have hmanaged' : s.backend.diagnostic.managed = true :=
    (Within.diagnostic [] _).managed.trans hmanaged
  rw [Serving.serveRecord_of_executes hframed h]
  simp only [dispatch, StateT.run_bind, StateT.run_get, pure_bind, hrelease, hmanaged',
    Bool.and_self,
    if_true, bind_assoc]
  rfl

/-- A turn that executes `RELEASE_MEMORY` is one execution of `release_memory`. -/
theorem turns_release {env : Environment Sys} {past : List (Event Sys)} {s : Serving}
    {ms : List Bytes} {t : Turn} (ht : t ∈ turns env past s ms)
    (hserved : t.served.dispatched = true) (hrelease : isRelease t.record = true)
    (hmanaged : t.before.backend.managed = true) : ∃ past' status b',
      (releaseMemory.run t.before.backend.diagnostic).exec env past' = ((status, b'), t.events) ∧
      t.served.response.status = status.code := by
  obtain ⟨hframed, hround⟩ := turns_round ht
  obtain ⟨-, past', hexec⟩ := turns_exec ht
  rw [serveRecord_release hframed (hround.executes hserved) hrelease hmanaged,
    Program.exec_bind_done] at hexec
  obtain ⟨hserved', hevents⟩ := Prod.mk.inj hexec
  exact ⟨past', _, _, Prod.ext rfl hevents,
    congrArg (·.response.status) (Prod.mk.inj hserved').1.symm⟩

/-- Nothing of the guest's memory is held any more: no device is open or bound, no TAP and no
memory descriptor is open, nothing is mapped and every token is retired. -/
structure Outside.Retired (k : Outside) : Prop where
  quiet : k.fresh = true → k.Quiet
  memory : k.fresh = true → ∀ fd released, k.fds fd ≠ some (.memory released)
  maps : ∀ address, k.maps address = none
  tokens : ∀ token, k.tokens token = none

theorem Holds.retired (h : Holds b k) (hb : b.Released) : k.Retired where
  quiet hfresh := h.quiet hfresh hb.toQuiesced
  memory hfresh := h.no_memory hfresh hb.memoryFd
  maps := h.unmapped hb.memory
  tokens token := by
    cases htoken : k.tokens token with
    | none => rfl
    | some _ =>
      obtain ⟨_, hrecorded⟩ := h.tokens.owned token _ htoken
      rw [if_pos hb.token] at hrecorded
      cases hrecorded

/-- The order of retirement. In every run of a managed service, to its exit, for every choice
of outcomes: as long as Linux has not answered a descriptor that was in use, every call that
retires something was issued in order (`RetirementOrder`). A `RELEASE_MEMORY` that is executed
tries the drains of both attached devices; it answers `OK` and everything is retired, or it
answers `QUIESCENCE_FAILED`, the backend still records everything that is held, and no proof
was given; and it answers `OK` when its own calls succeed. -/
theorem retirement_in_order (setup : Setup) (env : Environment Sys) (inbox : List (Bytes × Taken)) :
    (∀ pre e post, ((serviceMain setup inbox).exec env []).2 = pre ++ e :: post →
      (linux.after setup.outside pre).fresh = true →
        (linux.after setup.outside pre).RetirementOrder e.1) ∧
    (∀ pre t post, turns env [] setup.serving (delivered inbox) = pre ++ t :: post →
      t.served.dispatched = true → isRelease t.record = true →
        Tried t.before.backend.disk (.clearEndpoint t.before.backend.wwpn) t.events ∧
        Tried t.before.backend.net .resetOwner t.events ∧
        (t.served.response.status = Status.ok.code ∧ t.after.backend.Released ∧
            (linux.after setup.outside (turnEvents (pre ++ [t]))).Retired ∨
          t.served.response.status = Status.quiescenceFailed.code ∧
            Holds t.after.backend (linux.after setup.outside (turnEvents (pre ++ [t]))) ∧
            Unproved t.events) ∧
        ((∀ e ∈ t.events, Succeeds e.1 e.2) → t.served.response.status = Status.ok.code)) := by
  refine ⟨fun pre e post hevents hfresh => ?_, fun pre t post hts hserved hrelease => ?_⟩
  · obtain ⟨hobeyed, -⟩ := Program.wp_exec env []
      (serviceMain_custody setup inbox) (linux_assumed _ _)
    rw [hevents] at hobeyed
    exact (Contract.Obeyed.allows linux hobeyed).1 hfresh
  · have hround (s : Serving) (k : Outside) (m : Bytes) (hwell : wellFramed m)
        (hJ : Custody s.backend k) := serveRecord_custody (framed_of_wellFramed hwell) hJ
    obtain ⟨hbefore, -, hafter, hsettled⟩ := turns_wp (J := fun s => Custody s.backend)
      (R := fun s _ m served s' _ => Settled s m served s') hround
      setup.custody (linux_assumed _ _) hts
    have ht : t ∈ turns env [] setup.serving (delivered inbox) := by simp [hts]
    obtain ⟨past', status, b', hexec, hstatus⟩ :=
      turns_release ht hserved hrelease hbefore.sane.managed
    have hwithin : Within [] t.before.backend t.before.backend.diagnostic := .diagnostic [] _
    have hstart := hbefore.quietly hwithin
    have htried := (Program.wp_exec env past'
      (releaseMemory_tried hstart.sane) (Contract.history_assumed [] _)).2
    have hunproved := (Program.wp_exec env past'
      (releaseMemory_unproved (b := t.before.backend.diagnostic)
        (show Unproved [] by simp [Unproved]))
      (Contract.history_assumed [] _)).2
    have hsucceeds := Program.wp_exec env past' (releaseMemory_succeeds hstart)
    rw [hexec] at htried hunproved hsucceeds
    rw [Contract.history_after, List.nil_append] at htried hunproved
    rw [hwithin.disk (by simp), hwithin.net (by simp), hwithin.wwpn] at htried
    refine ⟨htried.1, htried.2, ?_, fun h => ?_⟩
    · refine (hsettled.release hserved hrelease).imp (fun hok => ?_) fun hfailed => ?_
      · exact ⟨hok.1, hok.2.1, hafter.holds.retired hok.2.1⟩
      · refine ⟨hfailed.1, hafter.holds, hunproved ?_⟩
        rintro rfl
        exact absurd (Status.code_injective (hstatus.symm.trans hfailed.1)) (by decide)
    · have hok : status = .ok := (hsucceeds (Contract.assuming_assumed h)).2
      rw [hstatus, hok]

end HyperIoVm
