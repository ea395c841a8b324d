import HyperIoVm.Custody

/-!
# Retirement

The functions that give things up: the drains, `endpoint_close`, `quiesce_all` and
`release_memory`. Each one keeps custody and issues its calls in the order of `linux`; one
that answers success has given up everything it is there for.
-/

namespace HyperIoVm

open Effects Routine

variable {b : Backend} {k : Outside}

/-! ## Which slot records which object -/

namespace Backend

theorem slots_vhost {slot : Slot} {fd : Fd} {d : Device} {attached : Bool}
    (h : b.slots slot = some (fd, .vhost d attached)) : slot = .endpoint d .vhost := by
  cases slot with
  | endpoint d' field => cases field <;> simp_all [slots, Endpoint.slots]
  | tap => simp [slots] at h
  | memory => simp [slots] at h

theorem slots_route {slot : Slot} {fd : Fd} {d : Device} {bound : Bool}
    (h : b.slots slot = some (fd, .route d bound)) : slot = .endpoint d .route := by
  cases slot with
  | endpoint d' field => cases field <;> simp_all [slots, Endpoint.slots]
  | tap => simp [slots] at h
  | memory => simp [slots] at h

theorem slots_tap {slot : Slot} {fd : Fd} (h : b.slots slot = some (fd, .tap)) : slot = .tap := by
  cases slot with
  | endpoint d' field => cases field <;> simp [slots, Endpoint.slots] at h
  | tap => rfl
  | memory => simp [slots] at h

theorem slots_memory {slot : Slot} {fd : Fd} {released : Bool}
    (h : b.slots slot = some (fd, .memory released)) : slot = .memory := by
  cases slot with
  | endpoint d' field => cases field <;> simp [slots, Endpoint.slots] at h
  | tap => simp [slots] at h
  | memory => rfl

end Backend

namespace Holds

/-- A device without descriptor has no vhost descriptor open anywhere. -/
theorem no_vhost (h : Holds b k) (hfresh : k.fresh = true) {d : Device}
    (hd : (b.endpoint d).fd = none) (fd : Fd) (attached : Bool) :
    k.fds fd ≠ some (.vhost d attached) :=
  h.absent hfresh (by simp) (fun slot fd hslot => by
    rw [Backend.slots_vhost hslot] at hslot
    simp [Backend.slots, Endpoint.slots, hd] at hslot) fd

/-- While the backend is quiesced nothing outside reaches the memory. -/
theorem quiet (h : Holds b k) (hfresh : k.fresh = true) (hb : b.Quiesced) : k.Quiet where
  vhost fd d attached := h.no_vhost hfresh (hb.endpoint d).fd fd attached
  route fd d := h.absent hfresh (by simp) (fun slot fd hslot => by
    rw [Backend.slots_route hslot] at hslot
    simp [Backend.slots, Endpoint.slots, (hb.endpoint d).bound] at hslot) fd
  tap fd := h.absent hfresh (by simp) (fun slot fd hslot => by
    rw [Backend.slots_tap hslot] at hslot
    simp [Backend.slots, hb.tap] at hslot) fd

theorem unmapped (h : Holds b k) (hb : b.memory = none) (address : UInt64) :
    k.maps address = none := by
  cases hmaps : k.maps address with
  | none => rfl
  | some length =>
    obtain ⟨_, hmapping⟩ := h.maps.owned address length hmaps
    simp [Backend.mapping, hb] at hmapping

theorem no_memory (h : Holds b k) (hfresh : k.fresh = true) (hb : b.memoryFd = none) (fd : Fd)
    (released : Bool) : k.fds fd ≠ some (.memory released) :=
  h.absent hfresh (by simp) (fun slot fd hslot => by
    rw [Backend.slots_memory hslot] at hslot
    simp [Backend.slots, hb] at hslot) fd

theorem free (h : Holds b k) (hmemory : b.memory = none) (hmemoryFd : b.memoryFd = none) : k.Free :=
  ⟨h.unmapped hmemory, fun hfresh => h.no_memory hfresh hmemoryFd⟩

end Holds

/-! ## Closing an endpoint -/

/-- The endpoint with the eventfds of `done` closed. -/
def Endpoint.closeQueues (e : Endpoint) (done : List (Fin 6)) : Endpoint :=
  { e with
    kick := fun i => if i ∈ done then none else e.kick i
    call := fun i => if i ∈ done then none else e.call i }

@[simp] theorem Endpoint.closeQueues_nil (e : Endpoint) : e.closeQueues [] = e := by
  simp [Endpoint.closeQueues]

theorem Endpoint.closeQueues_append (e : Endpoint) (done : List (Fin 6)) (i : Fin 6) :
    { e.closeQueues done with
      kick := Function.update (e.closeQueues done).kick i none
      call := Function.update (e.closeQueues done).call i none } = e.closeQueues (done ++ [i]) := by
  have hupdate (f : Fin 6 → Option Fd) :
      Function.update (fun j => if j ∈ done then none else f j) i none =
        fun j => if j ∈ done ++ [i] then none else f j := by
    funext j
    by_cases hj : j = i
    · subst hj; simp
    · simp [hj]
  simp only [closeQueues, hupdate]

theorem modifyEndpoint_mapping (b : Backend) (d : Device) (e : Endpoint) :
    (b.setEndpoint d e).mapping = b.mapping := by simp [Backend.mapping]

/-- The endpoint a step changes, over what the step leaves behind. -/
theorem holds_setEndpoint {slots : Slot → Option (Fd × Object)} {d : Device} {e : Endpoint}
    (h : Owns slots b.mapping b.token k) (hslots : (b.setEndpoint d e).slots = slots) :
    Holds (b.setEndpoint d e) k := by
  unfold Holds
  rw [hslots, modifyEndpoint_mapping, Backend.setEndpoint_token]
  exact h

theorem endpointUnbind_holds (d : Device) (h : Holds b k) (hfd : (b.endpoint d).fd = none) :
    (endpointUnbind d).wp linux (fun r b' k' => Holds b' k' ∧
      (r = .failed ∧ b' = b ∧ (b.endpoint d).bound = true ∨
        r = .ok ∧ b' = b.setEndpoint d { b.endpoint d with bound := false })) b k := by
  simp only [endpointUnbind, wp_bind, wp_get, wp_ite, wp_pure]
  split
  next hbound =>
    simp only [Bool.not_eq_true'] at hbound
    have hsame : b.setEndpoint d { b.endpoint d with bound := false } = b := by
      rw [← hbound]; exact b.setEndpoint_self d
    exact ⟨h, .inr ⟨trivial, hsame.symm⟩⟩
  next hbound =>
    simp only [Bool.not_eq_true', Bool.not_eq_false] at hbound
    have hslot {fd : Fd} (hroute : (b.endpoint d).notification = some fd) :
        b.slots (.endpoint d .route) = some (fd, .route d true) := by
      simp [Backend.slots, Endpoint.slots, hroute, hbound]
    refine wp_ioctl (fun fd hroute => ⟨fun hfresh => ?_, trivial⟩) ?_ (fun fd hroute => ?_)
    · exact ⟨d, h.live hfresh (hslot hroute), h.no_vhost hfresh hfd⟩
    · rw [if_pos rfl]
      exact ⟨h, .inl ⟨trivial, rfl, hbound⟩⟩
    · rw [if_neg (by decide)]
      refine ⟨holds_setEndpoint (h.ioctl (hslot hroute) (by simp [Object.ioctl]) (by simp)) ?_,
        .inr ⟨trivial, rfl⟩⟩
      rw [Backend.slots_bound, hroute]; rfl

theorem closeQueue_holds (d : Device) (i : Fin 6) (h : Holds b k) :
    (closeQueue d i).wp linux (fun _ b' k' => Holds b' k' ∧
      b' = b.setEndpoint d { b.endpoint d with
        kick := Function.update (b.endpoint d).kick i none
        call := Function.update (b.endpoint d).call i none }) b k := by
  have hcall : Function.update b.slots (.endpoint d (.kick i)) none (.endpoint d (.call i)) =
      ((b.endpoint d).call i).map (·, .eventfd) := by
    rw [Function.update_of_ne (by simp)]; rfl
  simp only [closeQueue, wp_bind, wp_get]
  refine wp_mono (wp_closeIfOpen h (s := .endpoint d (.kick i)) rfl trivial) ?_
  rintro _ _ k₁ ⟨rfl, h₁⟩
  refine wp_mono (wp_closeIfOpen h₁ hcall trivial) ?_
  rintro _ b _ ⟨rfl, h₂⟩
  refine ⟨holds_setEndpoint h₂ ?_, rfl⟩
  have hcalls := (b.setEndpoint d { b.endpoint d with
    kick := Function.update (b.endpoint d).kick i none }).slots_call d i none
  rw [Backend.slots_kick, Backend.setEndpoint_setEndpoint, Backend.endpoint_setEndpoint] at hcalls
  exact hcalls

/-- `endpoint_close` on a drained device. -/
theorem endpointClose_custody (d : Device) (h : Custody b k)
    (hdrained : (b.endpoint d).attached = false) :
    (endpointClose d).wp linux (fun r b' k' => Custody b' k' ∧
      (r = .ok → (b'.endpoint d).Closed) ∧
      (r = .failed → (b'.endpoint d).bound = true)) b k := by
  have hslot : b.slots (.endpoint d .vhost) = (b.endpoint d).fd.map (·, .vhost d false) := by
    rw [← hdrained]; rfl
  simp only [endpointClose, wp_bind, wp_get]
  refine wp_mono (wp_closeIfOpen h.holds hslot rfl) ?_
  rintro _ b k₁ ⟨rfl, h₁⟩
  simp only [modifyEndpoint, wp_modify]
  have hclosed : Holds (b.setEndpoint d { b.endpoint d with fd := none }) k₁ :=
    holds_setEndpoint h₁ (b.slots_fd d none)
  refine wp_mono (endpointUnbind_holds d hclosed (by simp)) ?_
  rintro r b₂ k₂ ⟨h₂, hr⟩
  rw [Backend.endpoint_setEndpoint, Backend.setEndpoint_setEndpoint] at hr
  rcases hr with ⟨rfl, rfl, hbound⟩ | ⟨rfl, rfl⟩
  · -- still bound: the endpoint keeps its eventfds
    have hbound : (b.endpoint d).bound = true := hbound
    have he := h.sane.endpoint d
    rw [if_pos rfl, wp_pure]
    refine ⟨⟨h.sane.setEndpoint d ⟨?_, ?_, ?_, ?_⟩ rfl, h₂⟩, by simp,
      fun _ => by simpa using hbound⟩
    · intro hattached; rw [hdrained] at hattached; cases hattached
    · exact fun i _ => .inr hbound
    · exact fun _ => he.borrowed (.inr hbound)
    · exact he.routed
  · -- no longer bound, so the eventfds are closed
    rw [if_neg (by decide)]
    simp only [wp_bind, wp_pure]
    have hqueues : (forM (List.finRange 6) (closeQueue d)).wp linux (fun _ b' k' =>
        Holds b' k' ∧ b' = b.setEndpoint d
          (Endpoint.closeQueues { b.endpoint d with fd := none, bound := false }
            (List.finRange 6)))
        (b.setEndpoint d { b.endpoint d with fd := none, bound := false }) k₂ := by
      refine wp_forM (J := fun done b' k' => Holds b' k' ∧ b' = b.setEndpoint d
        (Endpoint.closeQueues { b.endpoint d with fd := none, bound := false } done))
        ?_ ⟨h₂, by simp⟩
      rintro pre i _ _ _ k' ⟨h', rfl⟩
      refine wp_mono (closeQueue_holds d i h') ?_
      rintro _ _ k'' ⟨h'', rfl⟩
      refine ⟨h'', ?_⟩
      rw [Backend.endpoint_setEndpoint, Backend.setEndpoint_setEndpoint,
        Endpoint.closeQueues_append]
    refine wp_mono hqueues ?_
    rintro _ _ k₃ ⟨h₃, rfl⟩
    have hclosed : (Endpoint.closeQueues { b.endpoint d with fd := none, bound := false }
        (List.finRange 6)).Closed :=
      ⟨rfl, rfl, hdrained, fun i => by simp [Endpoint.closeQueues]⟩
    refine ⟨⟨h.sane.setEndpoint d (hclosed.sane _) rfl, h₃⟩, fun _ => ?_, by simp⟩
    rw [Backend.endpoint_setEndpoint]
    exact hclosed

/-! ## The drains -/

/-- A drain keeps custody; when it succeeds the device is no longer attached. -/
def Drains (d : Device) (m : Service Outcome) : Prop :=
  ∀ b k, Custody b k → m.wp linux (fun r b' k' => Custody b' k' ∧
    (r = .ok → (b'.endpoint d).attached = false) ∧
    (r = .failed → (b'.endpoint d).bound = true)) b k

/-- An ioctl that attaches or detaches the device, and the field that records it. -/
theorem Custody.setAttached {d : Device} {command : Command} {fd : Fd} {attached : Bool}
    (h : Custody b k) (hfd : (b.endpoint d).fd = some fd)
    (hbound : attached = true → (b.endpoint d).bound = true)
    (hcommand : (Object.vhost d (b.endpoint d).attached).ioctl command = .vhost d attached)
    (htoken : ∀ t, command ≠ .quiescent t) :
    Custody (b.setEndpoint d { b.endpoint d with attached }) (k.ioctl fd command) := by
  have hslot : b.slots (.endpoint d .vhost) = some (fd, .vhost d (b.endpoint d).attached) := by
    simp [Backend.slots, Endpoint.slots, hfd]
  have he := h.sane.endpoint d
  refine ⟨h.sane.setEndpoint d ⟨fun ha => ⟨hbound ha, ?_⟩, he.queues, he.borrowed, he.routed⟩ rfl,
    holds_setEndpoint (h.holds.ioctl hslot (by simp [hcommand]) htoken) ?_⟩
  · show (b.endpoint d).fd.isSome = true
    rw [hfd]; rfl
  · rw [Backend.slots_attached, hfd, hcommand]
    rfl

theorem drainDisk_drains : Drains .storage drainDisk := by
  intro b k h
  simp only [drainDisk, wp_bind, wp_get, wp_ite, wp_pure]
  split
  next hattached =>
    exact ⟨h, fun _ => by simpa [Backend.endpoint] using hattached, by simp⟩
  next hattached =>
    simp only [Bool.not_eq_true', Bool.not_eq_false] at hattached
    refine wp_ioctl (fun fd hfd => ⟨fun hfresh => ?_, trivial⟩) ?_ (fun fd hfd => ?_)
    · refine h.holds.live hfresh (s := .endpoint .storage .vhost) ?_
      simp [Backend.slots, Endpoint.slots, Backend.endpoint, hfd, hattached]
    · rw [if_pos rfl]
      exact ⟨h, by simp, fun _ => ((h.sane.endpoint .storage).attached hattached).1⟩
    · rw [if_neg (by decide)]
      exact ⟨h.setAttached (d := .storage) hfd (by simp) rfl (by simp), fun _ => rfl, by simp⟩

theorem drainNetwork_drains : Drains .network drainNetwork := by
  intro b k h
  simp only [drainNetwork, wp_bind, wp_get, wp_ite, wp_pure]
  split
  next hattached =>
    exact ⟨h, fun _ => by simpa [Backend.endpoint] using hattached, by simp⟩
  next hattached =>
    simp only [Bool.not_eq_true', Bool.not_eq_false] at hattached
    refine wp_ioctl (fun fd hfd => ⟨fun hfresh => ?_, trivial⟩) ?_ (fun fd hfd => ?_)
    · refine h.holds.live hfresh (s := .endpoint .network .vhost) ?_
      simp [Backend.slots, Endpoint.slots, Backend.endpoint, hfd, hattached]
    · rw [if_pos rfl]
      have hwithin : Within [] b b.diagnostic := .diagnostic [] b
      refine ⟨h.within (hwithin.mono (by simp)), by simp, fun _ => ?_⟩
      rw [hwithin.endpoint .network (by simp)]
      exact ((h.sane.endpoint .network).attached hattached).1
    · rw [if_neg (by decide)]
      exact ⟨h.setAttached (d := .network) hfd (by simp) rfl (by simp), fun _ => rfl, by simp⟩

theorem quiesceDisk_custody (h : Custody b k) :
    quiesceDisk.wp linux (fun r b' k' => Custody b' k' ∧
      (r = .ok → (b'.endpoint .storage).Closed) ∧
      (r = .failed → (b'.endpoint .storage).bound = true)) b k := by
  simp only [quiesceDisk, wp_bind, wp_ite, wp_pure]
  refine wp_mono (drainDisk_drains b k h) ?_
  rintro r b k ⟨h, hok, hfailed⟩
  cases r with
  | failed => exact ⟨h, by simp, fun _ => hfailed rfl⟩
  | ok => exact endpointClose_custody .storage h (hok rfl)

theorem closeTap_custody (h : Custody b k) :
    closeTap.wp linux (fun _ b' k' => Custody b' k' ∧ b' = { b with tap := none }) b k := by
  simp only [closeTap, wp_bind, wp_get, wp_modify]
  refine wp_mono (wp_closeIfOpen h.holds (s := .tap) (o := .tap) rfl trivial) ?_
  rintro _ b k' ⟨rfl, hk⟩
  have hslots : ({ b with tap := none } : Backend).slots = Function.update b.slots .tap none := by
    funext slot
    cases slot with
    | endpoint d field => cases d <;> rfl
    | tap => rfl
    | memory => rfl
  refine ⟨⟨⟨fun d => ?_, by simp, h.sane.mapped, h.sane.routed, h.sane.managed⟩, ?_⟩, rfl⟩
  · cases d
    · exact h.sane.endpoint .storage
    · exact h.sane.endpoint .network
  · unfold Holds
    rw [hslots]
    exact hk

theorem quiesceNetwork_custody (h : Custody b k) :
    quiesceNetwork.wp linux (fun r b' k' => Custody b' k' ∧
      (r = .ok → (b'.endpoint .network).Closed ∧ b'.tap = none) ∧
      (r = .failed → (b'.endpoint .network).bound = true)) b k := by
  simp only [quiesceNetwork, wp_bind, wp_ite, wp_pure]
  refine wp_mono (drainNetwork_drains b k h) ?_
  rintro r b k ⟨h, hok, hfailed⟩
  cases r with
  | failed => exact ⟨h, by simp, fun _ => hfailed rfl⟩
  | ok =>
    rw [if_neg (by decide)]
    refine wp_mono (endpointClose_custody .network h (hok rfl)) ?_
    rintro r b k ⟨h, hok, hfailed⟩
    cases r with
    | failed => exact ⟨h, by simp, fun _ => hfailed rfl⟩
    | ok =>
      rw [if_neg (by decide)]
      refine wp_mono (closeTap_custody h) ?_
      rintro _ _ k' ⟨h', rfl⟩
      exact ⟨h', fun _ => ⟨hok rfl, rfl⟩, by simp⟩

/-- `quiesce_all`: both devices drained and closed, or the memory is still borrowed. -/
theorem quiesceAll_custody (h : Custody b k) :
    quiesceAll.wp linux (fun r b' k' => Custody b' k' ∧ (r = .ok → b'.Quiesced) ∧
      (r = .failed → b'.memory.isSome = true)) b k := by
  have hborrowed {b : Backend} {k : Outside} (h : Custody b k) {d : Device}
      (hbound : (b.endpoint d).bound = true) : b.memory.isSome = true :=
    (h.sane.endpoint d).borrowed (.inr hbound)
  simp only [quiesceAll, wp_bind, wp_pure]
  refine wp_mono (quiesceDisk_custody h) ?_
  rintro disk b k ⟨h, hdiskOk, hdiskFailed⟩
  refine wp_mono (wp_and_free (quiesceNetwork_custody h) (quiesceNetwork_confined.wp b)) ?_
  rintro network b' k' ⟨⟨h', hnetOk, hnetFailed⟩, hwithin⟩
  have hstorage : b'.endpoint .storage = b.endpoint .storage :=
    hwithin.endpoint .storage (by simp [networkParts, Device.part])
  refine ⟨h', fun hr => ?_, fun hr => ?_⟩
  · have hboth : disk = .ok ∧ network = .ok := by
      cases disk <;> cases network <;> first | exact ⟨rfl, rfl⟩ | cases hr
    obtain ⟨hnet, htap⟩ := hnetOk hboth.2
    refine ⟨fun d => ?_, htap⟩
    cases d with
    | storage => rw [hstorage]; exact hdiskOk hboth.1
    | network => exact hnet
  · cases disk with
    | failed => exact hborrowed h' (d := .storage) (by rw [hstorage]; exact hdiskFailed rfl)
    | ok =>
      cases network with
      | failed => exact hborrowed h' (hnetFailed rfl)
      | ok => cases hr

/-! ## `release_memory` -/

/-- The memory fields of a released backend. -/
structure Backend.Released (b : Backend) : Prop extends b.Quiesced where
  memory : b.memory = none
  memoryFd : b.memoryFd = none
  token : b.token = 0
  region : b.region = ⟨0, 0⟩

/-- Something of the memory is still held. -/
def Backend.Holding (b : Backend) : Prop :=
  b.memory.isSome = true ∨ b.memoryFd.isSome = true ∨ b.token ≠ 0

theorem unmapMemory_custody (h : Custody b k) (hquiesced : b.Quiesced) :
    unmapMemory.wp linux (fun r b' k' => Custody b' k' ∧ b'.Quiesced ∧
      (r = .ok → b'.memory = none) ∧ (r = .failed → b'.memory.isSome = true)) b k := by
  simp only [unmapMemory, wp_bind, wp_get]
  cases hmemory : b.memory with
  | none => exact ⟨h, hquiesced, fun _ => hmemory, by simp⟩
  | some address =>
    have hmapping : b.mapping = some (address, b.region.length) := by
      simp [Backend.mapping, hmemory]
    refine ⟨⟨fun hfresh => ⟨h.holds.maps.live () _ _ hmapping, h.holds.quiet hfresh hquiesced⟩,
      trivial⟩, fun r _ => ?_⟩
    cases r with
    | failed => exact ⟨h, hquiesced, by simp, fun _ => by simp [hmemory]⟩
    | ok =>
      refine ⟨⟨⟨fun d => ?_, ?_, by simp, h.sane.routed, h.sane.managed⟩, ?_⟩,
        ⟨hquiesced.endpoint, hquiesced.tap⟩, fun _ => rfl, by simp⟩
      · exact (hquiesced.endpoint d).sane _
      · intro htap
        rw [show b.tap = none from hquiesced.tap] at htap
        cases htap
      · have hmaps := h.holds.maps.release (s := ()) hmapping
        rw [Function.update_eq_const_of_subsingleton] at hmaps
        exact ⟨h.holds.fds, hmaps, h.holds.tokens⟩

theorem closeMemory_custody (h : Custody b k) (hquiesced : b.Quiesced) (hmemory : b.memory = none) :
    closeMemory.wp linux (fun r b' k' => Custody b' k' ∧ b'.Quiesced ∧ b'.memory = none ∧
      (r = .ok → b'.memoryFd = none) ∧ (r = .failed → b'.memoryFd.isSome = true)) b k := by
  simp only [closeMemory, wp_bind, wp_get]
  cases hfd : b.memoryFd with
  -- it is not open
  | none => exact ⟨h, hquiesced, hmemory, fun _ => hfd, by simp⟩
  | some fd =>
    have hslot : b.slots .memory = some (fd, .memory false) := by simp [Backend.slots, hfd]
    simp only [h.sane.managed, if_true, wp_bind]
    refine wp_ioctl (fun fd' hfd' => ⟨fun hfresh => ?_, trivial⟩) ?_ (fun fd' hfd' => ?_)
    · obtain rfl := Option.some.inj hfd'
      exact ⟨h.holds.live hfresh hslot, h.holds.quiet hfresh hquiesced, h.holds.unmapped hmemory⟩
    · -- the frames were not released, and the file stays
      rw [if_pos rfl]
      exact ⟨h, hquiesced, hmemory, by simp, fun _ => by simp [hfd]⟩
    · -- they were released, and the file is closed
      obtain rfl := Option.some.inj hfd'
      rw [if_neg (by decide)]
      have hreleased := h.holds.ioctl (c := .memoryRelease) hslot (by simp [Object.ioctl]) (by simp)
      have hslot' : Function.update b.slots .memory (some (fd, .memory true)) .memory =
          some (fd, .memory true) := Function.update_self ..
      refine ⟨⟨fun hfresh => ⟨_, hreleased.live hfresh hslot', rfl⟩, trivial⟩, fun _ _ => ?_⟩
      have hclosed := hreleased.release hslot'
      rw [Function.update_idem] at hclosed
      have hslots : ({ b with memoryFd := none } : Backend).slots =
          Function.update b.slots .memory none := by
        funext slot
        cases slot with
        | endpoint d field => cases d <;> rfl
        | tap => rfl
        | memory => rfl
      refine ⟨⟨⟨fun d => (hquiesced.endpoint d).sane _, h.sane.tap, ?_, h.sane.routed,
        h.sane.managed⟩, ?_⟩, ⟨hquiesced.endpoint, hquiesced.tap⟩, hmemory, fun _ => rfl, by simp⟩
      · intro hlive
        rw [show b.memory = none from hmemory] at hlive
        cases hlive
      · unfold Holds
        rw [hslots]
        exact hclosed

/-- The token is retired last; the field that records it is cleared by the caller. -/
theorem retireToken_custody (h : Custody b k) (hquiesced : b.Quiesced) (hmemory : b.memory = none)
    (hmemoryFd : b.memoryFd = none) :
    retireToken.wp linux (fun r b' k' => b' = b ∧
      (r = .ok → Owns b.slots b.mapping 0 k') ∧
      (r = .failed → Custody b k' ∧ b.token ≠ 0)) b k := by
  simp only [retireToken, wp_bind, wp_get, wp_ite, wp_pure]
  split
  -- there is no token
  next htoken =>
    refine ⟨trivial, fun _ => ?_, by simp⟩
    have hholds := h.holds
    unfold Holds at hholds
    rwa [htoken] at hholds
  -- the route of the token is still held
  next htoken =>
    have htokens : (fun _ : Unit => if b.token = 0 then none else some (b.token, ())) () =
        some (b.token, ()) := if_neg htoken
    refine wp_ioctl (fun fd hroute => ⟨fun hfresh => ?_, h.holds.free hmemory hmemoryFd,
      h.holds.tokens.live () _ _ htokens⟩) ⟨rfl, by simp, fun _ => ⟨h, htoken⟩⟩ fun fd hroute => ?_
    · -- the driver allows it: nothing is bound, mapped or open
      have hlive : ∃ d, k.fds fd = some (.route d false) := by
        have hrouted (d : Device) (hd : (b.endpoint d).notification = some fd) :
            k.fds fd = some (.route d false) := h.holds.live hfresh (s := .endpoint d .route) (by
          simp [Backend.slots, Endpoint.slots, hd, (hquiesced.endpoint d).bound])
        unfold Backend.memoryEndpoint at hroute
        split at hroute
        · exact ⟨.storage, hrouted .storage hroute⟩
        · exact ⟨.network, hrouted .network hroute⟩
      exact ⟨hlive, h.holds.tokens.live () _ _ htokens, h.holds.quiet hfresh hquiesced,
        h.holds.unmapped hmemory, h.holds.no_memory hfresh hmemoryFd⟩
    · -- it has lost its token
      refine ⟨rfl, fun _ => ⟨fun hfresh => ?_, h.holds.maps, ?_⟩, by simp⟩
      · unfold Outside.held
        rw [Outside.ioctl_fds fun o => by cases o <;> rfl]
        exact h.holds.fds hfresh
      · have hretired := h.holds.tokens.release (s := ()) htokens
        rw [Function.update_eq_const_of_subsingleton] at hretired
        exact hretired

/-- `release_memory`: everything is given up, or something of the memory is still held. -/
theorem releaseMemory_custody (h : Custody b k) :
    releaseMemory.wp linux (fun r b' k' => Custody b' k' ∧
      (r = .ok ∧ b'.Released ∨ r = .quiescenceFailed ∧ b'.Holding)) b k := by
  simp only [releaseMemory, wp_bind, wp_ite, wp_pure, wp_modify]
  refine wp_mono (quiesceAll_custody h) ?_
  rintro r b k ⟨h, hquiesced, hfailed⟩
  cases r with
  -- something is not idle
  | failed => exact ⟨h, .inr ⟨trivial, .inl (hfailed rfl)⟩⟩
  | ok =>
  rw [if_neg (by decide)]
  refine wp_mono (unmapMemory_custody h (hquiesced rfl)) ?_
  rintro r b k ⟨h, hquiesced, hmemory, hfailed⟩
  cases r with
  -- something is mapped
  | failed => exact ⟨h, .inr ⟨trivial, .inl (hfailed rfl)⟩⟩
  | ok =>
  rw [if_neg (by decide)]
  refine wp_mono (closeMemory_custody h hquiesced (hmemory rfl)) ?_
  rintro r b k ⟨h, hquiesced, hmemory, hmemoryFd, hfailed⟩
  cases r with
  -- the file is open
  | failed => exact ⟨h, .inr ⟨trivial, .inr (.inl (hfailed rfl))⟩⟩
  | ok =>
  rw [if_neg (by decide)]
  refine wp_mono (retireToken_custody h hquiesced hmemory (hmemoryFd rfl)) ?_
  rintro r b k ⟨rfl, hretired, hfailed⟩
  cases r with
  -- the token is not retired
  | failed =>
    obtain ⟨h, htoken⟩ := hfailed rfl
    exact ⟨h, .inr ⟨trivial, .inr (.inr htoken)⟩⟩
  -- nothing is left
  | ok =>
    rw [if_neg (by decide)]
    have hslots : ({ b with token := 0, region := ⟨0, 0⟩ } : Backend).slots = b.slots := by
      funext slot
      cases slot with
      | endpoint d field => cases d <;> rfl
      | tap => rfl
      | memory => rfl
    have hreleased : ({ b with token := 0, region := ⟨0, 0⟩ } : Backend).Released :=
      ⟨⟨hquiesced.endpoint, hquiesced.tap⟩, hmemory, hmemoryFd rfl, rfl, rfl⟩
    refine ⟨⟨⟨fun d => (hreleased.endpoint d).sane _, h.sane.tap, h.sane.mapped,
      fun h => absurd rfl h,
      h.sane.managed⟩, ?_⟩, .inl ⟨trivial, hreleased⟩⟩
    have howns := hretired rfl
    unfold Holds
    rw [hslots]
    simpa [Backend.mapping, hmemory] using howns

end HyperIoVm
