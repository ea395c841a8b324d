import HyperIoVm.Independence
import HyperIoVm.Upkeep

/-!
# Runs of a managed service

Custody holds from the start of a managed service, in every state between two records. While
a device holds anything, the guest memory it borrows is mapped; and a record that releases
the memory gives everything up, or leaves something held.
-/

namespace HyperIoVm

open Effects Routine

/-! ## One record -/

/-- What a record means for the memory: a `RELEASE_MEMORY` releases everything and retires
the session, or leaves something held; nothing else loses hold of it. -/
structure Settled (s : Serving) (m : Bytes) (served : Served) (s' : Serving) : Prop where
  release : served.dispatched = true → isRelease m = true →
    served.response.status = Status.ok.code ∧ s'.backend.Released ∧ s'.session.retired = true ∨
      served.response.status = Status.quiescenceFailed.code ∧ s'.backend.Holding
  keep : served.dispatched = false ∨ isRelease m = false → s.backend.Holding → s'.backend.Holding
  prepare : served.dispatched = true → operationOf m = .prepareMemory →
    served.response.status = Status.quiescenceFailed.code → s'.backend.Holding

theorem Within.released {b b' : Backend} (h : Within [] b b') (hb : b.Released) : b'.Released where
  endpoint d := by rw [h.endpoint_nil]; exact hb.endpoint d
  tap := (h.tap (by simp)).trans hb.tap
  memory := (h.memory (by simp)).trans hb.memory
  memoryFd := (h.memoryFd (by simp)).trans hb.memoryFd
  token := (h.token (by simp)).trans hb.token
  region := (h.region (by simp)).trans hb.region

theorem Serving.logged_within (s : Serving) : Within [] s.backend s.logged.backend :=
  (Within.diagnostic [] _).trans (.diagnostic [] _)

theorem serveRecord_custody {s : Serving} {m : Bytes} {k : Outside} (hframed : Framed m)
    (h : Custody s.backend k) : (serveRecord s m).wp linux (fun r k' =>
      Custody r.2.backend k' ∧ Settled s m r.1 r.2) k := by
  have hlogged (response : Response) : Custody s.logged.backend k ∧
      Settled s m ⟨response, false⟩ s.logged :=
    ⟨h.quietly s.logged_within, ⟨by simp, fun _ => s.logged_within.holding (by simp), by simp⟩⟩
  refine Serving.wp_serveRecord hframed (fun _ => hlogged _) (fun _ => hlogged _) fun _ => ?_
  have hstart : Within [] s.backend s.backend.diagnostic := .diagnostic [] _
  refine wp_mono (dispatch_custody (h.quietly hstart) (s.admission m).2 m) ?_
  rintro r b k' ⟨h', hrelease, hother⟩
  have hend : Within [] b b.diagnostic := .diagnostic [] _
  refine ⟨h'.quietly hend, fun _ hm => ?_, fun hm hs => ?_, fun _ hm hr => ?_⟩
  · refine (hrelease hm).imp (fun hok => ?_) fun hfailed => ?_
    · obtain ⟨hok, hreleased, hretired⟩ := hok
      refine ⟨congrArg Status.code hok, hend.released hreleased, ?_⟩
      show r.2.retired = true
      rw [hretired]; rfl
    · exact ⟨congrArg Status.code hfailed.1, hend.holding (by simp) hfailed.2⟩
  · rcases hm with hm | hm
    · cases hm
    · exact hend.holding (by simp) ((hother hm).1 (hstart.holding (by simp) hs))
  · have hm' : isRelease m = false := by simp [isRelease, hm]
    exact hend.holding (by simp) ((hother hm').2 hm (Status.code_injective hr))

/-! ## The start -/

namespace Setup

variable (setup : Setup)

theorem backend_released : setup.backend.Released := by
  obtain ⟨_, _, _, role⟩ := setup
  cases role with
  | owner clients =>
    exact ⟨⟨fun d => by cases d <;> exact ⟨rfl, rfl, rfl, fun _ => ⟨rfl, rfl⟩⟩, rfl⟩,
      rfl, rfl, rfl, rfl⟩
  | client storage network distinct =>
    exact ⟨⟨fun d => by cases d <;> exact ⟨rfl, rfl, rfl, fun _ => ⟨rfl, rfl⟩⟩, rfl⟩,
      rfl, rfl, rfl, rfl⟩

theorem backend_managed : setup.backend.managed = true := by
  obtain ⟨_, _, _, role⟩ := setup
  cases role <;> rfl

/-- The two notification routes were opened separately. -/
theorem routes_distinct {fd : Fd} (hdisk : setup.backend.disk.notification = some fd) :
    setup.backend.net.notification ≠ some fd := by
  obtain ⟨_, _, _, role⟩ := setup
  cases role with
  | owner clients => cases hdisk
  | client storage network distinct =>
    cases storage with
    | none => cases hdisk
    | some s =>
      cases network with
      | none =>
        intro hnet
        cases hnet
      | some n =>
        intro hnet
        have hs : s.notification = fd := Option.some.inj hdisk
        have hn : n.notification = fd := Option.some.inj hnet
        exact distinct s rfl n rfl (hs.trans hn.symm)

theorem backend_hello : setup.backend.hello = setup.hello := by
  obtain ⟨_, _, _, role⟩ := setup
  cases role with
  | owner clients => rfl
  | client storage network distinct =>
    cases storage with
    | none => rfl
    | some s => simp [Setup.backend, Setup.hello, Backend.hello, Backend.primary, s.wwpn_ne]

/-- At the start the routes are all there is. -/
theorem backend_slots (slot : Slot) (fd : Fd) (o : Object)
    (h : setup.backend.slots slot = some (fd, o)) :
    ∃ d, slot = .endpoint d .route ∧ o = .route d false ∧
      (setup.backend.endpoint d).notification = some fd := by
  have hb := setup.backend_released
  cases slot with
  | endpoint d field =>
    cases field with
    | vhost => simp [Backend.slots, Endpoint.slots, (hb.endpoint d).fd] at h
    | route =>
      simp only [Backend.slots, Endpoint.slots, (hb.endpoint d).bound, Option.map_eq_some_iff,
        Prod.mk.injEq] at h
      obtain ⟨fd', hfd, rfl, rfl⟩ := h
      exact ⟨d, rfl, rfl, hfd⟩
    | kick i => simp [Backend.slots, Endpoint.slots, ((hb.endpoint d).queues i).1] at h
    | call i => simp [Backend.slots, Endpoint.slots, ((hb.endpoint d).queues i).2] at h
  | tap => simp [Backend.slots, hb.tap] at h
  | memory => simp [Backend.slots, hb.memoryFd] at h

theorem outside_fds {fd : Fd} {o : Object} (h : setup.outside.fds fd = some o) :
    ∃ d, o = .route d false ∧ (setup.backend.endpoint d).notification = some fd := by
  unfold Setup.outside at h
  dsimp only at h
  split at h
  · exact ⟨.storage, (Option.some.inj h).symm, ‹_›⟩
  · split at h
    · exact ⟨.network, (Option.some.inj h).symm, ‹_›⟩
    · cases h

/-- A managed service starts with custody of its routes. -/
theorem custody : Custody setup.backend setup.outside := by
  have hb := setup.backend_released
  refine ⟨⟨fun d => (hb.endpoint d).sane _, fun h => ?_, fun h => ?_, fun h => absurd hb.token h,
    setup.backend_managed⟩, ⟨fun _ => ⟨?_, ?_, ?_⟩, .empty (fun _ => ?_) fun _ => rfl,
      .empty (fun _ => if_pos hb.token) fun _ => rfl⟩⟩
  · rw [hb.tap] at h; cases h
  · rw [hb.memory] at h; cases h
  · intro slot fd o h
    obtain ⟨d, -, rfl, hroute⟩ := setup.backend_slots slot fd o h
    refine Outside.held_of_ne_other ?_ (by simp)
    unfold Setup.outside
    dsimp only
    cases d with
    | storage => exact if_pos hroute
    | network =>
      rw [if_neg fun hdisk => setup.routes_distinct hdisk hroute]
      exact if_pos hroute
  · intro fd o h
    obtain ⟨d, rfl, hroute⟩ := setup.outside_fds (Outside.held_eq h)
    refine ⟨.endpoint d .route, ?_⟩
    simp [Backend.slots, Endpoint.slots, hroute, (hb.endpoint d).bound]
  · intro slot slot' fd o o' h h'
    obtain ⟨d, rfl, -, hroute⟩ := setup.backend_slots slot fd o h
    obtain ⟨d', rfl, -, hroute'⟩ := setup.backend_slots slot' fd o' h'
    cases d <;> cases d' <;> first
      | rfl
      | exact absurd hroute' (setup.routes_distinct hroute)
      | exact absurd hroute (setup.routes_distinct hroute')
  · simp [Backend.mapping, hb.memory]

end Setup

/-! ## Borrowed memory -/

/-- The guest mapping is live, of the region's length, and its descriptor is open. -/
def Mapped (b : Backend) (k : Outside) : Prop :=
  ∃ address fd, b.memory = some address ∧ k.maps address = some b.region.length ∧
    b.memoryFd = some fd ∧ (k.fresh = true → k.fds fd = some (.memory false))

/-- What devices hold is borrowed from the guest mapping. -/
structure Borrowed (b : Backend) (k : Outside) : Prop where
  device : ∀ d, (b.endpoint d).fd.isSome = true ∨ (b.endpoint d).bound = true ∨
    (b.endpoint d).attached = true → Mapped b k
  tap : b.tap.isSome = true → Mapped b k
  attached : ∀ d, (b.endpoint d).attached = true →
    (b.endpoint d).bound = true ∧ (b.endpoint d).fd.isSome = true
  queues : ∀ d i, ((b.endpoint d).kick i).isSome = true ∨ ((b.endpoint d).call i).isSome = true →
    (b.endpoint d).fd.isSome = true ∨ (b.endpoint d).bound = true
  live : ∀ address length, k.maps address = some length → b.memory = some address ∧ Mapped b k

theorem Custody.borrowed {b : Backend} {k : Outside} (h : Custody b k) : Borrowed b k := by
  have hmapped (hmemory : b.memory.isSome = true) : Mapped b k := by
    obtain ⟨address, haddress⟩ := Option.isSome_iff_exists.mp hmemory
    obtain ⟨fd, hfd⟩ := Option.isSome_iff_exists.mp (h.sane.mapped hmemory)
    refine ⟨address, fd, haddress, h.holds.maps.live () _ _ (by simp [Backend.mapping, haddress]),
      hfd, fun hfresh => h.holds.live hfresh (s := .memory) (by simp [Backend.slots, hfd])⟩
  refine ⟨fun d hd => hmapped ((h.sane.endpoint d).borrowed ?_), fun ht => hmapped (h.sane.tap ht),
    fun d => (h.sane.endpoint d).attached, fun d => (h.sane.endpoint d).queues,
    fun address length hmaps => ?_⟩
  · rcases hd with hd | hd | hd
    · exact .inl hd
    · exact .inr hd
    · exact .inr ((h.sane.endpoint d).attached hd).1
  · obtain ⟨_, hmapping⟩ := h.holds.maps.owned address length hmaps
    cases hmemory : b.memory with
    | none => simp [Backend.mapping, hmemory] at hmapping
    | some address' =>
      simp only [Backend.mapping, hmemory, Option.map_some, Option.some.injEq,
        Prod.mk.injEq] at hmapping
      exact ⟨by rw [hmapping.1], hmapped (by simp [hmemory])⟩

/-- A managed service has custody in the state any run leaves it in. -/
theorem endState_custody (setup : Setup) (env : Environment Sys) (ms : List Bytes) :
    Custody (endState setup.serving (turns env [] setup.serving ms)).backend
      (linux.after setup.outside (turnEvents (turns env [] setup.serving ms))) :=
  (turns_end_wp (J := fun s k => Custody s.backend k) (fun _ _ _ hwell h =>
    Program.wp_mono (serveRecord_custody (framed_of_wellFramed hwell) h) fun _ _ hpost => hpost.1)
    setup.custody (linux_assumed _ _)).2

/-- The borrowed-memory invariant: in every state a managed service reaches between two
records, from its start and for every choice of system-call outcomes, a device that holds
anything borrows a live mapping of the region's length. -/
theorem memory_is_borrowed (setup : Setup) (env : Environment Sys) (ms : List Bytes) :
    Borrowed (endState setup.serving (turns env [] setup.serving ms)).backend
      (linux.after setup.outside (turnEvents (turns env [] setup.serving ms))) :=
  (endState_custody setup env ms).borrowed

end HyperIoVm
