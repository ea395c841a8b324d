import HyperIoVm.Retire

/-!
# Acquisition

The functions that acquire: `configure_vhost`, the activations and `prepare_memory`. Each one
records what it acquires at once, so that every failure on the way leaves a backend the
retirement functions can give up, and each one that fails does so before it returns.
-/

namespace HyperIoVm

open Effects Routine

variable {b : Backend} {k : Outside}

/-! ## Configuration of an endpoint -/

/-- The vhost descriptor of `d` is open, and nothing is bound or attached yet. -/
structure Configuring (d : Device) (b : Backend) (k : Outside) : Prop where
  custody : Custody b k
  fd : (b.endpoint d).fd.isSome = true
  bound : (b.endpoint d).bound = false
  attached : (b.endpoint d).attached = false

theorem Within.endpoint_nil {b b' : Backend} (h : Within [] b b') (d : Device) :
    b'.endpoint d = b.endpoint d := h.endpoint d (by simp)

theorem Configuring.quietly {d : Device} {b b' : Backend} (h : Configuring d b k)
    (hb : Within [] b b') : Configuring d b' k where
  custody := h.custody.quietly hb
  fd := by rw [hb.endpoint_nil]; exact h.fd
  bound := by rw [hb.endpoint_nil]; exact h.bound
  attached := by rw [hb.endpoint_nil]; exact h.attached

/-- The endpoint's own fields other than its queues carry the configuration. -/
theorem Configuring.setEndpoint {d : Device} (h : Configuring d b k) {k' : Outside} {e : Endpoint}
    (hholds : Holds (b.setEndpoint d e) k') (hfd : e.fd = (b.endpoint d).fd)
    (hbound : e.bound = false) (hattached : e.attached = false)
    (hroute : e.notification = (b.endpoint d).notification) :
    Configuring d (b.setEndpoint d e) k' where
  custody := ⟨h.custody.sane.setEndpoint d
    ⟨fun ha => absurd (hattached.symm.trans ha) Bool.false_ne_true, fun _ _ => .inl (hfd ▸ h.fd),
      fun _ => (h.custody.sane.endpoint d).borrowed (.inl h.fd),
      fun hb => absurd (hbound.symm.trans hb) Bool.false_ne_true⟩ hroute, hholds⟩
  fd := by rw [Backend.endpoint_setEndpoint, hfd]; exact h.fd
  bound := by rw [Backend.endpoint_setEndpoint]; exact hbound
  attached := by rw [Backend.endpoint_setEndpoint]; exact hattached

theorem Configuring.kick {d : Device} (h : Configuring d b k) {i : Fin 6}
    (hi : (b.endpoint d).kick i = none) (r : Option Fd) :
    Configuring d (b.setEndpoint d { b.endpoint d with
      kick := Function.update (b.endpoint d).kick i r }) (k.next .eventfd r) := by
  refine h.setEndpoint ?_ rfl h.bound h.attached rfl
  have hslot : b.slots (.endpoint d (.kick i)) = none := by simp [Backend.slots, Endpoint.slots, hi]
  cases r with
  | none =>
    have hsame : Function.update (b.endpoint d).kick i none = (b.endpoint d).kick := by
      rw [← hi, Function.update_eq_self]
    rw [hsame]
    exact (b.setEndpoint_self d).symm ▸ h.custody.holds
  | some fd =>
    refine holds_setEndpoint (h.custody.holds.acquire hslot (o := .eventfd) (by simp)) ?_
    rw [Backend.slots_kick]; rfl

theorem Configuring.call {d : Device} (h : Configuring d b k) {i : Fin 6}
    (hi : (b.endpoint d).call i = none) (r : Option Fd) :
    Configuring d (b.setEndpoint d { b.endpoint d with
      call := Function.update (b.endpoint d).call i r }) (k.next .eventfd r) := by
  refine h.setEndpoint ?_ rfl h.bound h.attached rfl
  have hslot : b.slots (.endpoint d (.call i)) = none := by simp [Backend.slots, Endpoint.slots, hi]
  cases r with
  | none =>
    have hsame : Function.update (b.endpoint d).call i none = (b.endpoint d).call := by
      rw [← hi, Function.update_eq_self]
    rw [hsame]
    exact (b.setEndpoint_self d).symm ▸ h.custody.holds
  | some fd =>
    refine holds_setEndpoint (h.custody.holds.acquire hslot (o := .eventfd) (by simp)) ?_
    rw [Backend.slots_call]; rfl

/-- The queues other than `i` are the same in `b'` as in `b`. -/
def SameQueues (d : Device) (i : Fin 6) (b b' : Backend) : Prop :=
  ∀ j, j ≠ i → (b'.endpoint d).kick j = (b.endpoint d).kick j ∧
    (b'.endpoint d).call j = (b.endpoint d).call j

namespace SameQueues

variable {d : Device} {i : Fin 6} {b' b'' : Backend}

theorem trans (h : SameQueues d i b b') (h' : SameQueues d i b' b'') : SameQueues d i b b'' :=
  fun j hj => ⟨(h' j hj).1.trans (h j hj).1, (h' j hj).2.trans (h j hj).2⟩

theorem quietly (hb : Within [] b b') : SameQueues d i b b' := fun _ _ => by
  rw [hb.endpoint_nil]; exact ⟨rfl, rfl⟩

theorem kick (b : Backend) (r : Option Fd) : SameQueues d i b (b.setEndpoint d
    { b.endpoint d with kick := Function.update (b.endpoint d).kick i r }) := fun j hj => by
  rw [Backend.endpoint_setEndpoint]; exact ⟨Function.update_of_ne hj .., rfl⟩

theorem call (b : Backend) (r : Option Fd) : SameQueues d i b (b.setEndpoint d
    { b.endpoint d with call := Function.update (b.endpoint d).call i r }) := fun j hj => by
  rw [Backend.endpoint_setEndpoint]; exact ⟨rfl, Function.update_of_ne hj ..⟩

end SameQueues

theorem Silent.configuring {α : Type} {m : Service α} (hm : Silent m) {d : Device} (i : Fin 6)
    (h : Configuring d b k) :
    m.wp linux (fun _ b' k' => Configuring d b' k' ∧ SameQueues d i b b' ∧
      b'.endpoint d = b.endpoint d) b k :=
  wp_mono (hm.wp b k) fun _ _ _ hsame =>
    ⟨hsame.1 ▸ h.quietly hsame.2, .quietly hsame.2, hsame.2.endpoint_nil d⟩

theorem installQueue_custody {d : Device} (h : Configuring d b k) (areas : List Area) (i : Fin 6)
    (q : Queue) (bridge : Eventfds)
    (hi : (b.endpoint d).kick i = none ∧ (b.endpoint d).call i = none) :
    (installQueue d areas i q bridge).wp linux (fun _ b' k' =>
      Configuring d b' k' ∧ SameQueues d i b b') b k := by
  simp only [installQueue, wp_bind, wp_ite, wp_pure]
  split
  · exact ⟨h, .quietly (.refl [] b)⟩
  refine wp_mono ((installRings_silent d areas i q).configuring i h) ?_
  rintro rings b₁ k₁ ⟨h₁, hsame₁, hendpoint⟩
  rw [← hendpoint] at hi
  split
  · exact ⟨h₁, hsame₁⟩
  refine wp_sys .eventfd ⟨fun _ => trivial, trivial⟩ fun kick => (wp_modify _).mpr ?_
  have h₂ := h₁.kick hi.1 kick
  have hsame₂ := hsame₁.trans (.kick b₁ kick)
  cases kick with
  | none => exact ⟨h₂.quietly (.diagnostic [] _), hsame₂.trans (.quietly (.diagnostic [] _))⟩
  | some kick =>
  simp only [wp_bind]
  refine wp_sys .eventfd ⟨fun _ => trivial, trivial⟩ fun call => (wp_modify _).mpr ?_
  have h₃ := h₂.call (by rw [Backend.endpoint_setEndpoint]; exact hi.2) call
  have hsame₃ := hsame₂.trans (.call _ call)
  cases call with
  | none => exact ⟨h₃.quietly (.diagnostic [] _), hsame₃.trans (.quietly (.diagnostic [] _))⟩
  | some call =>
    refine wp_mono ((installEventfds_silent d i bridge kick call).configuring i h₃) ?_
    rintro _ b₄ k₄ ⟨h₄, hsame₄, -⟩
    exact ⟨h₄, hsame₃.trans hsame₄⟩

theorem installQueues_custody {d : Device} (areas : List Area) (qs : List (Fin 6 × Queue))
    (bridge : Eventfds) (hnodup : (qs.map Prod.fst).Nodup) {b : Backend} {k : Outside}
    (h : Configuring d b k)
    (hqs : ∀ i ∈ qs.map Prod.fst, (b.endpoint d).kick i = none ∧ (b.endpoint d).call i = none) :
    (installQueues d areas qs bridge).wp linux (fun _ b' k' => Configuring d b' k') b k := by
  induction qs generalizing bridge b k with
  | nil => exact h
  | cons iq qs ih =>
    obtain ⟨i, q⟩ := iq
    rw [List.map_cons, List.nodup_cons] at hnodup
    simp only [installQueues, wp_bind]
    refine wp_mono (installQueue_custody h areas i q bridge (hqs i List.mem_cons_self)) ?_
    rintro r b' k' ⟨h', hsame⟩
    cases r with
    | none => exact h'
    | some bridge =>
      refine ih bridge hnodup.2 h' fun j hj => ?_
      have hne : j ≠ i := fun hji => hnodup.1 (hji ▸ hj)
      rw [(hsame j hne).1, (hsame j hne).2]
      exact hqs j (List.mem_cons_of_mem _ hj)

/-- `BIND` succeeded: the route is bound. -/
theorem Configuring.bind {d : Device} (h : Configuring d b k) {fd : Fd}
    (hroute : (b.endpoint d).notification = some fd) (bridge : Eventfds) :
    Custody (b.setEndpoint d { b.endpoint d with bound := true }) (k.ioctl fd (.bind bridge)) := by
  have hslot : b.slots (.endpoint d .route) = some (fd, .route d false) := by
    simp [Backend.slots, Endpoint.slots, hroute, h.bound]
  have he := h.custody.sane.endpoint d
  refine ⟨h.custody.sane.setEndpoint d ⟨?_, fun _ _ => .inr rfl, fun _ => he.borrowed (.inl h.fd),
    fun _ => ?_⟩ rfl, holds_setEndpoint
      (h.custody.holds.ioctl (c := .bind bridge) hslot (by simp [Object.ioctl]) (by simp)) ?_⟩
  · exact fun ha => absurd (h.attached.symm.trans ha) Bool.false_ne_true
  · show (b.endpoint d).notification.isSome = true
    rw [hroute]; rfl
  · rw [Backend.slots_bound, hroute]; rfl

theorem installVhost_custody {d : Device} (h : Configuring d b k)
    (hqueues : ∀ i, (b.endpoint d).kick i = none ∧ (b.endpoint d).call i = none) (epoch : UInt32)
    (features : UInt64) (queues : List Queue) (areas : List Area) :
    (installVhost d epoch features queues areas).wp linux (fun r b' k' => Custody b' k' ∧
      (b'.endpoint d).attached = false ∧
      (r = .ok ∧ (b'.endpoint d).fd.isSome = true ∧ (b'.endpoint d).bound = true ∨
        r = .backendFailure)) b k := by
  simp only [installVhost, wp_bind, wp_ite, wp_pure]
  refine wp_mono ((setupVhost_silent d features).configuring 0 h) ?_
  rintro setup b₁ k₁ ⟨h₁, -, hendpoint⟩
  split
  · -- the features were refused
    exact ⟨h₁.custody, h₁.attached, .inr trivial⟩
  -- the queues are different, one descriptor a slot
  have hnodup : (((List.finRange 6).zip queues).map Prod.fst).Nodup := by
    refine (List.nodup_finRange 6).sublist ?_
    generalize List.finRange 6 = is
    induction is generalizing queues with
    | nil => simp
    | cons i is ih =>
      cases queues with
      | nil => simp
      | cons q queues => exact (ih queues).cons_cons i
  refine wp_mono (installQueues_custody areas _ _ hnodup h₁ fun i _ => hendpoint ▸ hqueues i) ?_
  rintro bridge b₂ k₂ h₂
  cases bridge with
  -- a queue was refused
  | none => exact ⟨h₂.custody, h₂.attached, .inr rfl⟩
  | some bridge =>
    simp only [wp_bind, wp_get, wp_ite, wp_pure, modifyEndpoint, wp_modify]
    refine wp_ioctl (fun _ _ => ⟨fun _ => trivial, trivial⟩) ?_ fun fd hroute => ?_
    · -- the bridge has not taken the binding
      rw [if_pos rfl]
      have h₃ := h₂.quietly (.diagnostic [] _)
      exact ⟨h₃.custody, h₃.attached, .inr trivial⟩
    · -- the bridge has bound the device
      rw [if_neg (by decide)]
      refine ⟨h₂.bind hroute bridge, ?_, .inl ⟨trivial, ?_, ?_⟩⟩ <;>
        rw [Backend.endpoint_setEndpoint]
      · exact h₂.attached
      · exact h₂.fd

/-- Opening the vhost node of a closed endpoint while the memory is mapped. -/
theorem Custody.openVhost {d : Device} (h : Custody b k) (hclosed : (b.endpoint d).Closed)
    (hmemory : b.memory.isSome = true) (fd : Fd) :
    Configuring d (b.setEndpoint d { b.endpoint d with fd := some fd })
      (k.acquire fd (.vhost d false)) := by
  have hslot : b.slots (.endpoint d .vhost) = none := by
    simp [Backend.slots, Endpoint.slots, hclosed.fd]
  refine ⟨⟨h.sane.setEndpoint d ⟨?_, fun _ _ => .inl rfl, fun _ => hmemory, ?_⟩ rfl,
    holds_setEndpoint (h.holds.acquire hslot (by simp)) ?_⟩, ?_, ?_, ?_⟩
  · exact fun ha => absurd (hclosed.attached.symm.trans ha) Bool.false_ne_true
  · exact fun hb => absurd (hclosed.bound.symm.trans hb) Bool.false_ne_true
  · rw [Backend.slots_fd, hclosed.attached]; rfl
  all_goals rw [Backend.endpoint_setEndpoint]
  · rfl
  · exact hclosed.bound
  · exact hclosed.attached

/-- `configure_vhost`: it refuses and changes nothing, or leaves an endpoint that is not
attached, bound and open when it succeeded. -/
theorem configureVhost_custody (d : Device) (h : Custody b k) (epoch : UInt32) (features : UInt64)
    (queues : List Queue) (count required : Nat) :
    (configureVhost d epoch features queues count required).wp linux (fun r b' k' =>
      Custody b' k' ∧
      ((r = .busy ∨ r = .invalid) ∨ (b'.endpoint d).attached = false ∧
        (r = .ok ∧ (b'.endpoint d).fd.isSome = true ∧ (b'.endpoint d).bound = true ∨
          r = .backendFailure))) b k := by
  simp only [configureVhost, wp_bind, wp_get, wp_ite, wp_pure]
  split
  · -- the device is in use
    exact ⟨h, .inl (.inl trivial)⟩
  rename_i hfree
  split
  · -- it is not ready, or the epoch is 0
    exact ⟨h, .inl (.inr trivial)⟩
  rename_i hready
  simp only [Bool.or_eq_true, not_or, Bool.not_eq_true] at hfree hready
  cases validateQueues b required 0 (queues.take count) [] with
  -- the queues are not valid
  | none => exact ⟨h, .inl (.inr rfl)⟩
  | some areas =>
    -- nothing of the endpoint is left from before
    have hclosed := (h.sane.endpoint d).closed (by simpa using hfree.1.1) hfree.1.2
    have hmemory : b.memory.isSome = true := by
      have hnone := hready.1.1.1.1
      cases hm : b.memory <;> simp_all
    simp only [wp_bind]
    refine wp_sys (.openNode (.vhost d)) ⟨fun _ => trivial, trivial⟩ fun r => ?_
    cases r with
    -- the device does not open
    | error _ => exact ⟨h.quietly (.diagnostic [] b), .inr ⟨
        (hclosed.attached ▸ by rw [(Within.diagnostic [] b).endpoint_nil]), .inr rfl⟩⟩
    | ok fd =>
      simp only [wp_bind, modifyEndpoint, wp_modify]
      refine wp_mono (installVhost_custody (h.openVhost hclosed hmemory fd) (fun i => ?_)
        epoch features _ areas) fun r b' k' hpost => ⟨hpost.1, .inr hpost.2⟩
      rw [Backend.endpoint_setEndpoint]
      exact hclosed.queues i

/-! ## Activation -/

theorem attachDisk_custody (status : Status) (h : Custody b k)
    (hready : status = .ok → (b.endpoint .storage).bound = true) :
    (attachDisk status).wp linux (fun _ b' k' => Custody b' k') b k := by
  have hquiesce {b : Backend} {k : Outside} (h : Custody b k) :
      quiesceDisk.wp linux (fun _ b' k' => Custody b' k') b k :=
    wp_mono (quiesceDisk_custody h) fun _ _ _ hpost => hpost.1
  simp only [attachDisk, wp_bind, wp_get, wp_ite, wp_pure, modifyEndpoint, wp_modify]
  split
  next hok =>
    refine wp_ioctl (fun _ _ => ⟨fun _ => trivial, trivial⟩) ?_ fun fd hfd => ?_
    · rw [if_neg (by decide)]
      exact hquiesce h
    · rw [if_pos rfl]
      exact h.setAttached (d := .storage) hfd (fun _ => hready hok) rfl (by simp)
  next =>
    rw [if_neg (by decide)]
    exact hquiesce h

theorem activateDisk_custody (h : Custody b k) (message : Activate) :
    (activateDisk message).wp linux (fun _ b' k' => Custody b' k') b k := by
  simp only [activateDisk, wp_bind, wp_get, wp_ite, wp_pure]
  split
  · exact h
  refine wp_mono (blockTargetReady_silent.wp b k) ?_
  rintro ready b k ⟨rfl, hb⟩
  have h := h.quietly hb
  split
  · exact h
  split
  · exact h
  split
  · exact h
  refine wp_mono (configureVhost_custody .storage h _ _ _ _ _) ?_
  rintro status b' k' ⟨h', hstatus⟩
  split
  next => exact h'
  next hrefused =>
    refine attachDisk_custody status h' fun hok => ?_
    rcases hstatus with hstatus | ⟨-, ⟨-, -, hbound⟩ | hstatus⟩
    · exact absurd hstatus hrefused
    · exact hbound
    · rw [hok] at hstatus; cases hstatus

/-! ### The TAP -/

theorem Custody.acquire_other (h : Custody b k) (fd : Fd) : Custody b (k.acquire fd .other) :=
  ⟨h.sane, h.holds.acquire_other⟩

theorem Custody.release_other (h : Custody b k) {fd : Fd}
    (hfd : k.fresh = true → k.fds fd = some .other) : Custody b (k.release fd) :=
  ⟨h.sane, h.holds.release_other hfd⟩

theorem Custody.openTap (h : Custody b k) (htap : b.tap = none) (hmemory : b.memory.isSome = true)
    (fd : Fd) : Custody { b with tap := some fd } (k.acquire fd .tap) := by
  have hslots : ({ b with tap := some fd } : Backend).slots =
      Function.update b.slots .tap (some (fd, .tap)) := by
    funext slot
    cases slot with
    | endpoint d field => cases d <;> rfl
    | tap => rfl
    | memory => rfl
  have hslot : b.slots .tap = none := by simp [Backend.slots, htap]
  refine ⟨⟨fun d => ?_, fun _ => hmemory, h.sane.mapped, h.sane.routed, h.sane.managed⟩, ?_⟩
  · cases d
    · exact h.sane.endpoint .storage
    · exact h.sane.endpoint .network
  · unfold Holds
    rw [hslots]
    exact h.holds.acquire hslot (by simp)

theorem openTap_custody (h : Custody b k) (htap : b.tap = none) (hmemory : b.memory.isSome = true) :
    openTap.wp linux (fun _ b' k' => Custody b' k') b k := by
  simp only [HyperIoVm.openTap, wp_bind]
  refine wp_sys (.openNode .tun) ⟨fun _ => trivial, trivial⟩ fun r => ?_
  cases r with
  | error _ =>
    simp only [wp_bind, wp_modify]
    have hsame : ({ b with tap := none } : Backend) = b := by rw [← htap]
    rw [hsame]
    exact h.quietly (.diagnostic [] b)
  | ok fd =>
    simp only [wp_bind, wp_modify]
    exact (configureTap_silent fd).custody (h.openTap htap hmemory fd)

theorem createTap_custody (h : Custody b k) (htap : b.tap = none)
    (hmemory : b.memory.isSome = true) :
    createTap.wp linux (fun _ b' k' => Custody b' k') b k := by
  have hreported {b : Backend} {k : Outside} (h : Custody b k) :
      (do diagnostic; return .failed : Service Outcome).wp linux
        (fun _ b' k' => Custody b' k') b k := h.quietly (.diagnostic [] b)
  simp only [createTap, wp_bind]
  refine wp_mono (openTap_custody h htap hmemory) ?_
  rintro (_ | name) b k h
  · exact h
  simp only [wp_bind]
  refine wp_mono ((Silent.sys (c := .ifNametoindex name) rfl).custody h) ?_
  rintro (_ | index) b k h
  · exact hreported h
  simp only [wp_bind]
  refine wp_sys .socket ⟨fun _ => trivial, trivial⟩ ?_
  rintro (_ | control)
  · exact hreported h
  simp only [wp_bind, wp_pure]
  have h := h.acquire_other control
  refine wp_mono ((attachTap_silent control name index).wp b _) ?_
  rintro result b' k' ⟨rfl, hb⟩
  have hopen : (k.acquire control .other).fds control = some .other := by simp [Outside.acquire]
  exact wp_sys (.close control) ⟨fun _ => ⟨_, hopen, trivial⟩, trivial⟩ fun _ =>
    (h.quietly hb).release_other fun _ => hopen

/-! ### The network device -/

theorem setBackend_custody (i : Nat) (h : Custody b k)
    (hbound : (b.endpoint .network).bound = true) :
    (setBackend i).wp linux (fun _ b' k' => Custody b' k' ∧
      (b'.endpoint .network).bound = true) b k := by
  simp only [setBackend, wp_bind, wp_get, wp_ite, wp_pure, modifyEndpoint, wp_modify]
  refine wp_ioctl (fun _ _ => ⟨fun _ => trivial, trivial⟩) ?_ fun fd hfd => ?_
  · rw [if_pos rfl]
    exact ⟨h.quietly (.diagnostic [] b),
      by rw [(Within.diagnostic [] b).endpoint_nil]; exact hbound⟩
  · rw [if_neg (by decide)]
    refine ⟨h.setAttached (d := .network) hfd (fun _ => hbound) rfl (by simp), ?_⟩
    rw [Backend.endpoint_setEndpoint]
    exact hbound

theorem attachNetwork_custody (status : Status) (h : Custody b k) (htap : b.tap = none)
    (hready : status = .ok → (b.endpoint .network).bound = true) :
    (attachNetwork status).wp linux (fun _ b' k' => Custody b' k') b k := by
  simp only [attachNetwork, wp_bind, wp_ite, wp_pure]
  split
  next hok =>
    have hbound := hready hok
    have hmemory := (h.sane.endpoint .network).borrowed (.inr hbound)
    refine wp_mono (wp_and_free (createTap_custody h htap hmemory) (createTap_confined.wp b)) ?_
    rintro tap b' k' ⟨h', hwithin⟩
    split
    · exact h'
    have hbound' : (b'.endpoint .network).bound = true := by
      rw [hwithin.endpoint .network (by simp [Device.part])]; exact hbound
    simp only [firstFailure, wp_bind, wp_ite, wp_pure]
    refine wp_mono (setBackend_custody 0 h' hbound') ?_
    rintro r b k ⟨h, hbound⟩
    split
    · exact h
    refine wp_mono (setBackend_custody 1 h hbound) ?_
    rintro r b k ⟨h, -⟩
    split <;> exact h
  next =>
    rw [if_pos trivial]
    exact h

theorem activateNetwork_custody (h : Custody b k) (request : Activate) :
    (activateNetwork request).wp linux (fun _ b' k' => Custody b' k') b k := by
  simp only [activateNetwork, wp_bind, wp_get, wp_ite, wp_pure]
  split
  · exact h
  split
  · exact h
  split
  · exact h
  rename_i hfree
  have htap : b.tap = none := by simp at hfree; exact hfree.2
  refine wp_mono (wp_and_free (configureVhost_custody .network h _ _ _ _ _)
    ((configureVhost_confined .network _ _ _ _ _).wp b)) ?_
  rintro status b' k' ⟨⟨h', hstatus⟩, hwithin⟩
  split
  · exact h'
  rename_i hrefused
  have htap' : b'.tap = none := (hwithin.tap (by simp [Device.part])).trans htap
  refine wp_mono (attachNetwork_custody status h' htap' fun hok => ?_) ?_
  · rcases hstatus with hstatus | ⟨-, ⟨-, -, hbound⟩ | hstatus⟩
    · exact absurd hstatus hrefused
    · exact hbound
    · rw [hok] at hstatus; cases hstatus
  · rintro r b k h
    split
    · exact h
    · exact wp_mono (quiesceNetwork_custody h) fun _ _ _ hpost => hpost.1

/-! ## `prepare_memory` -/

/-- A sane backend without a mapping has no device that could use one. -/
theorem Backend.Sane.quiesced (h : b.Sane) (hmemory : b.memory = none) : b.Quiesced where
  endpoint d := by
    have he := h.endpoint d
    have hborrowed := he.borrowed
    rw [hmemory] at hborrowed
    refine he.closed ?_ ?_
    · cases hfd : (b.endpoint d).fd with
      | none => rfl
      | some fd => exact absurd (hborrowed (.inl (by simp [hfd]))) Bool.false_ne_true
    · exact Bool.eq_false_iff.mpr fun hb => absurd (hborrowed (.inr hb)) Bool.false_ne_true
  tap := by
    cases htap : b.tap with
    | none => rfl
    | some fd =>
      have hlive := h.tap (by simp [htap])
      rw [hmemory] at hlive
      cases hlive

/-- How `prepare_memory` ends once it has begun to acquire. -/
def PrepareEnds (r : Status) (b : Backend) (k : Outside) : Prop :=
  Custody b k ∧ (r = .ok ∧ b.memory.isSome = true ∨ r = .backendFailure ∧ b.Released ∨
    r = .quiescenceFailed ∧ b.Holding)

theorem rollbackMemory_custody (h : Custody b k) :
    rollbackMemory.wp linux PrepareEnds b k := by
  simp only [rollbackMemory, wp_bind, wp_pure]
  refine wp_mono (releaseMemory_custody h) ?_
  rintro r b k ⟨h, ⟨rfl, hreleased⟩ | ⟨rfl, hholding⟩⟩
  · exact ⟨h, .inr (.inl ⟨rfl, hreleased⟩)⟩
  · exact ⟨h, .inr (.inr ⟨rfl, hholding⟩)⟩

theorem Custody.openMemory (h : Custody b k) (hmemoryFd : b.memoryFd = none) (fd : Fd) :
    Custody { b with memoryFd := some fd } (k.acquire fd (.memory false)) := by
  have hslots : ({ b with memoryFd := some fd } : Backend).slots =
      Function.update b.slots .memory (some (fd, .memory false)) := by
    funext slot
    cases slot with
    | endpoint d field => cases d <;> rfl
    | tap => rfl
    | memory => rfl
  have hslot : b.slots .memory = none := by simp [Backend.slots, hmemoryFd]
  refine ⟨⟨fun d => ?_, h.sane.tap, fun _ => rfl, h.sane.routed, h.sane.managed⟩, ?_⟩
  · cases d
    · exact h.sane.endpoint .storage
    · exact h.sane.endpoint .network
  · unfold Holds
    rw [hslots]
    exact h.holds.acquire hslot (by simp)

theorem Custody.map (h : Custody b k) (hmemory : b.memory = none) {fd : Fd}
    (hmemoryFd : b.memoryFd = some fd) (address : UInt64) (region : MemoryInfo) :
    Custody { b with memory := some address, region := region }
      { k with maps := Function.update k.maps address (some region.length) } := by
  have hslots : ({ b with memory := some address, region := region } : Backend).slots =
      b.slots := by
    funext slot
    cases slot with
    | endpoint d field => cases d <;> rfl
    | tap => rfl
    | memory => rfl
  have hquiesced := h.sane.quiesced hmemory
  refine ⟨⟨fun d => ?_, fun _ => rfl, fun _ => ?_, h.sane.routed, h.sane.managed⟩, ?_⟩
  · cases d
    · exact (hquiesced.endpoint .storage).sane _
    · exact (hquiesced.endpoint .network).sane _
  · show b.memoryFd.isSome = true
    rw [hmemoryFd]; rfl
  · have hmaps := h.holds.maps.acquire (s := ()) region.length
      (by simp [Backend.mapping, hmemory]) (h.holds.unmapped hmemory address)
    rw [Function.update_eq_const_of_subsingleton] at hmaps
    refine ⟨fun hfresh => ?_, hmaps, h.holds.tokens⟩
    rw [hslots]
    exact h.holds.fds hfresh

/-- Nothing is mapped, and the memory descriptor and the token are as given. -/
structure Unmapped (memoryFd : Option Fd) (token : UInt64) (b : Backend) (k : Outside) : Prop where
  custody : Custody b k
  memory : b.memory = none
  memoryFd : b.memoryFd = memoryFd
  token : b.token = token

theorem Silent.unmapped {α : Type} {m : Service α} (hm : Silent m) {memoryFd : Option Fd}
    {token : UInt64} (h : Unmapped memoryFd token b k) :
    m.wp linux (fun _ b' k' => Unmapped memoryFd token b' k') b k :=
  wp_mono (hm.wp b k) fun _ _ _ hsame => hsame.1 ▸ ⟨h.custody.quietly hsame.2,
    (hsame.2.memory (by simp)).trans h.memory, (hsame.2.memoryFd (by simp)).trans h.memoryFd,
    (hsame.2.token (by simp)).trans h.token⟩

theorem mapMemory_custody {prepare : MemoryPrepare} (h : Unmapped none prepare.token b k) :
    (mapMemory prepare).wp linux PrepareEnds b k := by
  simp only [mapMemory, wp_bind, wp_get]
  refine wp_mono (Silent.diagnostic.unmapped h) ?_
  rintro _ b k h
  refine wp_sys (.openNode (.memory b.memoryPath)) ⟨fun _ => trivial, trivial⟩ fun r => ?_
  cases r with
  -- the device of the memory does not open
  | error _ => exact rollbackMemory_custody h.custody
  | ok fd =>
  simp only [wp_bind, wp_modify]
  -- its descriptor is held from here on
  have hopen : Unmapped (some fd) prepare.token { b with memoryFd := some fd }
      (k.acquire fd (.memory false)) :=
    ⟨h.custody.openMemory h.memoryFd fd, h.memory, rfl, h.token⟩
  refine wp_mono (Silent.diagnostic.unmapped hopen) ?_
  rintro _ b k h
  refine wp_mono ((Silent.sys (c := .memoryInfo fd) rfl).unmapped h) ?_
  rintro (_ | window) b k h
  · -- it does not say what it can map
    exact rollbackMemory_custody h.custody
  simp only [wp_bind, wp_ite]
  split
  · -- the grant does not lie in its window
    exact rollbackMemory_custody h.custody
  refine wp_mono ((Silent.ioctl (some fd) (c := .memoryPrepare prepare) rfl).unmapped h) ?_
  rintro r b k h
  split
  · -- it is not prepared
    exact rollbackMemory_custody h.custody
  refine wp_mono (Silent.diagnostic.unmapped h) ?_
  rintro _ b k h
  refine wp_sys (.mmap fd prepare.length) ⟨fun _ => trivial, trivial⟩ fun r => ?_
  cases r with
  -- it cannot be mapped
  | none => exact rollbackMemory_custody h.custody
  | some address =>
    simp only [wp_bind, diagnostic, wp_modify, wp_pure]
    have hb : Within [] b b.diagnostic := .diagnostic [] b
    -- the mapping is held, and the token with it
    have hmap := (h.custody.quietly hb).map ((hb.memory (by simp)).trans h.memory)
      ((hb.memoryFd (by simp)).trans h.memoryFd) address ⟨prepare.guestBase, prepare.length⟩
    have hfields : ({ b.diagnostic with
        memory := some address, memoryFd := some fd, token := prepare.token,
        region := ⟨prepare.guestBase, prepare.length⟩ } : Backend) =
        { b.diagnostic with
          memory := some address, region := ⟨prepare.guestBase, prepare.length⟩ } := by
      rw [← h.token, ← h.memoryFd, ← hb.token (by simp), ← hb.memoryFd (by simp)]
    rw [hfields]
    exact ⟨hmap, .inl ⟨rfl, rfl⟩⟩

/-- `ADMIT` succeeded: the token is recorded. -/
theorem Custody.admitted (h : Custody b k) (hfree : b.token = 0) {token : UInt64}
    (htoken : token ≠ 0)
    (hroute : b.memoryEndpoint.notification.isSome = true) :
    Custody { b with token } { k with tokens := Function.update k.tokens token (some ()) } := by
  have hslots : ({ b with token } : Backend).slots = b.slots := by
    funext slot
    cases slot with
    | endpoint d field => cases d <;> rfl
    | tap => rfl
    | memory => rfl
  refine ⟨⟨fun d => ?_, h.sane.tap, h.sane.mapped, fun _ => hroute, h.sane.managed⟩, ?_⟩
  · cases d
    · exact h.sane.endpoint .storage
    · exact h.sane.endpoint .network
  · have hnone : k.tokens token = none := by
      cases ht : k.tokens token with
      | none => rfl
      | some u =>
        obtain ⟨_, hslot⟩ := h.holds.tokens.owned token u ht
        simp [hfree] at hslot
    have htokens := h.holds.tokens.acquire (s := ()) () (by simp [hfree]) hnone
    rw [Function.update_eq_const_of_subsingleton] at htokens
    refine ⟨fun hfresh => ?_, h.holds.maps, ?_⟩
    · rw [hslots]
      exact h.holds.fds hfresh
    · have hslot : (fun _ : Unit => if token = 0 then none else some (token, ())) =
          fun _ => some (token, ()) := funext fun _ => if_neg htoken
      rw [hslot]
      exact htokens

theorem grantMemory_custody {prepare : MemoryPrepare} (h : Unmapped none 0 b k)
    (htoken : prepare.token ≠ 0) :
    (grantMemory prepare).wp linux (fun r b' k' => PrepareEnds r b' k' ∨
      r = .invalid ∧ k' = k ∧ b' = b) b k := by
  simp only [grantMemory, wp_bind, wp_get]
  cases hroute : b.memoryEndpoint.notification with
  | none => exact .inr ⟨rfl, rfl, rfl⟩
  | some fd =>
  refine wp_sys (.ioAdmit fd _) ⟨fun _ => trivial, h.custody.holds.free h.memory h.memoryFd⟩
    fun r => ?_
  cases r with
  | none => exact .inr ⟨rfl, rfl, rfl⟩
  | some extentCount =>
  refine wp_mono (Q := PrepareEnds) ?_ fun _ _ _ hends => .inl hends
  simp only [wp_bind, wp_modify, wp_ite]
  have hadmitted : Unmapped none prepare.token { b with token := prepare.token }
      { k with tokens := Function.update k.tokens prepare.token (some ()) } :=
    ⟨h.custody.admitted h.token htoken (by simp [hroute]), h.memory, h.memoryFd, rfl⟩
  refine wp_mono ((Silent.sys (c := .calloc (prepare.length / 4096)) rfl).unmapped hadmitted) ?_
  rintro r b k h
  split
  · exact rollbackMemory_custody h.custody
  refine wp_mono ((walkExtents_silent (some fd) _ _ _ _ _).unmapped h) ?_
  rintro (_ | ⟨cursor, pages⟩) b k h
  · exact rollbackMemory_custody h.custody
  simp only [wp_ite]
  split
  · exact rollbackMemory_custody h.custody
  · exact mapMemory_custody h

/-- `prepare_memory`: it refuses and changes nothing, always so while anything is held; or it
maps the memory; or it gives up what it acquired, as far as that succeeds. -/
theorem prepareMemory_custody (h : Custody b k) (request : PrepareMemory) :
    (prepareMemory request).wp linux (fun r b' k' =>
      PrepareEnds r b' k' ∧ ¬ b.Holding ∨ (r = .busy ∨ r = .invalid) ∧ k' = k ∧ b' = b) b k := by
  simp only [prepareMemory, wp_bind, wp_get, wp_ite, wp_pure]
  split
  · exact .inr ⟨.inl trivial, trivial, trivial⟩
  rename_i hfree
  simp only [h.sane.managed, Bool.not_true, Bool.false_or, Bool.or_eq_true, bne_iff_ne, ne_eq,
    not_or, Bool.not_eq_true, Option.isSome_eq_false_iff, Option.isNone_iff_eq_none,
    not_not] at hfree
  obtain ⟨⟨hmemory, hmemoryFd⟩, htoken⟩ := hfree
  have hholding : ¬ b.Holding := by
    rintro (hm | hm | hm)
    · rw [hmemory] at hm; cases hm
    · rw [hmemoryFd] at hm; cases hm
    · exact hm htoken
  split
  · exact .inr ⟨.inr trivial, trivial, trivial⟩
  split
  next hzero =>
    exact wp_mono (mapMemory_custody ⟨h, hmemory, hmemoryFd, htoken.trans hzero.symm⟩)
      fun _ _ _ hends => .inl ⟨hends, hholding⟩
  rename_i hnonzero
  split
  · exact .inr ⟨.inr trivial, trivial, trivial⟩
  · refine wp_mono (grantMemory_custody ⟨h, hmemory, hmemoryFd, htoken⟩ hnonzero) ?_
    rintro r b' k' (hends | ⟨rfl, hk, hb⟩)
    · exact .inl ⟨hends, hholding⟩
    · exact .inr ⟨.inr rfl, hk, hb⟩

end HyperIoVm
