import HyperIoVm.OwnerMemory

/-!
# Runs of a service in its role

What a record may do in the role a service was started in, for every record of every run.
-/

namespace HyperIoVm

open Effects Routine

/-! ## Where an answer comes from -/

section Turns

variable {env : Environment Sys} {past : List (Event Sys)} {s : Serving} {ms : List Bytes}
  {pre : List Turn} {t : Turn} {post : List Turn}

/-- The reply that is repeated was given to the same record when it was executed. -/
theorem turns_replayed (hs : s.previous = []) (hts : turns env past s ms = pre ++ t :: post)
    (hreplays : t.before.Replays t.record) : ∃ u ∈ pre, u.served.dispatched = true ∧
      u.record = t.record ∧ u.served.response = t.before.previousReply := by
  have hmemory : t.before.previous = [] ∨ ∃ u ∈ pre, u.served.dispatched = true ∧
      u.record = t.before.previous ∧ u.served.response = t.before.previousReply := by
    refine turns_keep (P := fun s => s.previous = [] ∨ ∃ u ∈ pre, u.served.dispatched = true ∧
      u.record = s.previous ∧ u.served.response = s.previousReply) (.inl hs) hts
      fun v hv hbefore => ?_
    have hround := (turns_round (hts ▸ List.mem_append_left _ hv)).2
    cases hserved : v.served.dispatched with
    | false =>
      rw [hround.not_dispatched hserved]
      exact hbefore
    | true =>
      have hremembers := hround.remembers hserved
      exact .inr ⟨v, hv, hserved, hremembers.previous.symm, hremembers.reply.symm⟩
  have hframed := (turns_round (hts ▸ List.mem_append_right _ List.mem_cons_self :
    t ∈ turns env past s ms)).1
  rcases hmemory with hnil | ⟨u, hu, hserved, hrecord, hreply⟩
  · have hsize := hframed.size
    rw [hreplays.2.2, hnil] at hsize
    cases hsize
  · exact ⟨u, hu, hserved, hrecord.trans hreplays.2.2.symm, hreply⟩

/-- An `OK` is the answer of an executed record: this one, or an earlier one that is repeated. -/
theorem turns_ok (hs : s.previous = []) (hts : turns env past s ms = pre ++ t :: post)
    (hok : t.served.response.status = Status.ok.code) : ∃ u ∈ pre ++ [t],
      (t.served.dispatched = true → u = t) ∧ u.served.dispatched = true ∧
      u.record = t.record ∧ u.served.response.status = Status.ok.code := by
  have ht : t ∈ turns env past s ms := hts ▸ List.mem_append_right _ List.mem_cons_self
  have hround := (turns_round ht).2
  cases hserved : t.served.dispatched with
  | true =>
    exact ⟨t, List.mem_append_right _ (List.mem_singleton_self t), fun _ => rfl, hserved, rfl, hok⟩
  | false =>
    generalize hresult : t.served = served at *
    generalize t.after = after at *
    cases hround with
    | replayed hreplays =>
      obtain ⟨u, hu, hdispatched, hrecord, hresponse⟩ := turns_replayed hs hts hreplays
      refine ⟨u, List.mem_append_left _ hu, fun h => ?_, hdispatched, hrecord, ?_⟩
      · cases h
      · rw [hresponse]
        exact hok
    | rejected _ => cases Status.code_injective (s := .invalid) (t := .ok) hok
    | executed => cases hserved

/-- What `dispatch` keeps of the backend, a record keeps. -/
theorem serveRecord_keeps {K : Type} {C : Contract Sys K} {J : Backend → K → Prop} {k : K}
    (hwithin : ∀ b b' k, Within [] b b' → J b k → J b' k)
    (hdispatch : ∀ session m, Keeps C J (dispatch session m)) {m : Bytes} (hframed : Framed m)
    (hs : J s.backend k) : (serveRecord s m).wp C (fun r k' => J r.2.backend k') k := by
  have hlogged : J s.logged.backend k := hwithin _ _ _ s.logged_within hs
  refine Serving.wp_serveRecord hframed (fun _ => hlogged) (fun _ => hlogged) fun _ => ?_
  refine wp_mono (hdispatch _ m _ k (hwithin _ _ _ (.diagnostic [] _) hs)) fun r b k' h => ?_
  exact hwithin _ _ _ (.diagnostic [] _) h

/-- What `dispatch` keeps of the backend holds throughout a run. -/
theorem turns_dispatch {K : Type} {C : Contract Sys K} {J : Backend → K → Prop} {k : K}
    (hassumed : ∀ k es, C.Assumed k es)
    (hwithin : ∀ b b' k, Within [] b b' → J b k → J b' k)
    (hdispatch : ∀ session m, Keeps C J (dispatch session m)) (hs : J s.backend k)
    (hts : turns env past s ms = pre ++ t :: post) :
    C.Obeyed k (turnEvents pre) ∧ C.Obeyed (C.after k (turnEvents pre)) t.events ∧
      J t.before.backend (C.after k (turnEvents pre)) ∧
      J t.after.backend (C.after k (turnEvents (pre ++ [t]))) := by
  have hround (s : Serving) (k : K) (m : Bytes) (hwell : wellFramed m = true)
      (hJ : J s.backend k) : (serveRecord s m).wp C (fun r k' => J r.2.backend k') k :=
    serveRecord_keeps hwithin hdispatch (framed_of_wellFramed hwell) hJ
  have hrun := turns_wp (C := C) (J := fun s => J s.backend) (R := fun _ _ _ _ _ _ => True)
    (fun s k m hwell hJ => Program.wp_mono (hround s k m hwell hJ) fun _ _ h => ⟨h, trivial⟩)
    hs (hassumed _ _) hts
  have hend : C.Obeyed k (turnEvents (turns env past s ms)) :=
    (turns_end_wp (J := fun s => J s.backend) hround hs (hassumed _ _)).1
  rw [hts, turnEvents_append, C.obeyed_append] at hend
  exact ⟨hend.1, hrun.2.1, hrun.1, hrun.2.2.1⟩

/-- The target name is fixed when the service starts. -/
theorem turns_wwpn (ht : t ∈ turns env past s ms) : t.before.backend.wwpn = s.backend.wwpn := by
  obtain ⟨pre, post, hts⟩ := List.append_of_mem ht
  refine turns_keep (P := fun s' => s'.backend.wwpn = s.backend.wwpn) rfl hts fun v hv hbefore => ?_
  obtain ⟨_, hwithin, -⟩ := (turns_round (hts ▸ List.mem_append_left _ hv)).2.within
  exact hwithin.wwpn.trans hbefore

/-- The events of a turn, watched from its beginning. -/
theorem turns_history {Q : Serving → Bytes → Served → List (Event Sys) → Prop}
    (hround : ∀ s m, Framed m →
      (serveRecord s m).wp (.history Sys) (fun r h => Q s m r.1 h) [])
    (ht : t ∈ turns env past s ms) : Q t.before t.record t.served t.events := by
  obtain ⟨hwell, past', hexec⟩ := turns_exec ht
  have hpost := (Program.wp_exec env past' (hround t.before t.record (framed_of_wellFramed hwell))
    (Contract.history_assumed _ _)).2
  rw [hexec, Contract.history_after, List.nil_append] at hpost
  exact hpost

end Turns

/-! ## One record -/

theorem serveRecord_lun {s : Serving} {m : Bytes} (hframed : Framed m) :
    (serveRecord s m).wp (.history Sys) (fun r h =>
      (operationOf m = .hello ∨ operationOf m = .activate) → r.1.dispatched = true →
        r.1.response.status = Status.ok.code → LunSeen s.backend.wwpn h) [] := by
  refine Serving.wp_serveRecord hframed (fun _ _ h => by cases h) (fun _ _ h => by cases h)
    fun _ => ?_
  by_cases hop : operationOf m = .hello ∨ operationOf m = .activate
  · refine wp_mono (dispatch_lun hop _) fun r b h hlun _ _ hok => ?_
    rw [(Within.diagnostic [] s.backend).wwpn.symm]
    exact hlun (Status.code_injective hok)
  · exact wp_mono (keeps_history (P := fun _ => True) (fun _ _ _ => trivial) _ _ _ trivial)
      fun _ _ _ _ hop' => absurd hop' hop

/-- A client makes no call for a request to the block owner, and refuses it. -/
theorem serveRecord_not_owner {s : Serving} {m : Bytes} (hframed : Framed m) :
    (serveRecord s m).wp (.history Sys) (fun r h => s.backend.blocks = none →
      (operationOf m).isBlock = true → h = [] ∧
        (r.1.dispatched = true → r.1.response.status ≠ Status.ok.code)) [] := by
  refine Serving.wp_serveRecord hframed (fun _ _ _ => ⟨rfl, fun h => by cases h⟩)
    (fun _ _ _ => ⟨rfl, fun h => by cases h⟩) fun _ => ?_
  have hblocks : s.backend.diagnostic.blocks = s.backend.blocks :=
    (Within.diagnostic [] s.backend).blocks (by simp)
  by_cases hrole : s.backend.blocks = none ∧ (operationOf m).isBlock = true
  · refine wp_mono (dispatch_not_owner (hblocks.trans hrole.1) hrole.2 _) fun r b h hpost => ?_
    exact fun _ _ => ⟨hpost.2.2, fun _ hok => hpost.1 (Status.code_injective hok)⟩
  · exact wp_mono (keeps_history (P := fun _ => True) (fun _ _ _ => trivial) _ _ _ trivial)
      fun _ _ _ _ hnone hop => absurd ⟨hnone, hop⟩ hrole

/-! ## The start -/

namespace Start

variable (start : Start)

theorem endpoint_closed (d : Device) : (start.backend.endpoint d).Closed := by
  cases start with
  | managed setup => exact setup.backend_released.endpoint d
  | standalone fixture => cases d <;> exact ⟨rfl, rfl, rfl, fun _ => ⟨rfl, rfl⟩⟩

theorem tap : start.backend.tap = none := by
  cases start with
  | managed setup => exact setup.backend_released.tap
  | standalone fixture => rfl

theorem absent {d : Device} (hd : start.backend.hasDevice d = false) :
    Absent d (start.backend.endpoint d) start.backend :=
  ⟨hd, rfl, start.endpoint_closed d, fun _ => start.tap⟩

/-- The owner starts with neither device nor memory. -/
theorem ownerHolds (howner : start.backend.blocks.isSome = true) :
    OwnerHolds start.backend 0 := by
  cases start with
  | standalone fixture => cases howner
  | managed setup =>
    obtain ⟨path, scsi, resources, role⟩ := setup
    cases role with
    | client storage network distinct => cases howner
    | owner clients =>
      have hclosed (d : Device) :
          Absent d {} (Start.managed ⟨path, scsi, resources, .owner clients⟩).backend :=
            ⟨by cases d <;> rfl, by cases d <;> rfl, ⟨rfl, rfl, rfl, fun _ => ⟨rfl, rfl⟩⟩,
              fun _ => rfl⟩
      exact ⟨rfl, hclosed .storage, hclosed .network, rfl, rfl⟩

end Start

/-- No more is ever mapped than the contract lets the owner map. -/
theorem ownerCalls_bounded {k : Nat} {es : List (Event Sys)}
    (hobeyed : ownerCalls.Obeyed k es) (hle : k ≤ hyperIoBlockMaxRead.toNat) :
    ownerCalls.after k es ≤ hyperIoBlockMaxRead.toNat := by
  induction es generalizing k with
  | nil => exact hle
  | cons e es ih =>
    obtain ⟨hallow, hrest⟩ := hobeyed
    refine ih hrest ?_
    obtain ⟨c, r⟩ := e
    cases c with
    | mmap fd length =>
      cases r with
      | none => exact hle
      | some address => exact hallow
    | munmap address length =>
      cases r with
      | ok => exact Nat.le_trans (Nat.sub_le _ _) hle
      | failed => exact hle
    | _ => exact hle

/-- Role confinement. In every run: the block owner keeps token 0, both endpoints and the TAP
as they were, and never has more than 1 MiB mapped; a service that is not the owner answers
every `BLOCK_*` record with a failure and no call at all, and no record makes it call for a
disk or LUN; a device the service does not have stays closed, and neither its vhost node nor,
for the network, a TAP is opened; and a `HELLO` or `ACTIVATE` is answered `OK` only for a
storage client, by a round that saw the client's LUN link. -/
theorem role_confinement (start : Start) (env : Environment Sys) (ms : List Bytes) :
    let run := turns env [] start.serving ms
    (start.backend.blocks.isSome = true →
      ownerCalls.Obeyed 0 (turnEvents run) ∧ ∀ t ∈ run,
        t.after.backend.token = 0 ∧ t.after.backend.disk = {} ∧ t.after.backend.net = {} ∧
        t.after.backend.tap = none ∧ t.after.backend.mappedBytes ≤ 0x100000) ∧
    (start.backend.blocks = none → ∀ t ∈ run, t.after.backend.blocks = none ∧
      (∀ e ∈ t.events, Call.purpose e.1 ≠ .blocks) ∧
      ((operationOf t.record).isBlock = true →
        t.served.response.status ≠ Status.ok.code ∧ t.events = [])) ∧
    (∀ d, start.backend.hasDevice d = false → ∀ t ∈ run,
      t.after.backend.endpoint d = start.backend.endpoint d ∧
      (d = .network → t.after.backend.tap = none) ∧
      ∀ e ∈ t.events, Call.purpose e.1 ≠ .device d) ∧
    ∀ pre t post, run = pre ++ t :: post →
      (operationOf t.record = .hello ∨ operationOf t.record = .activate) →
      t.served.response.status = Status.ok.code →
        ∃ u ∈ pre ++ [t], (t.served.dispatched = true → u = t) ∧ u.record = t.record ∧
          LunSeen start.backend.wwpn u.events := by
  intro run
  have hearlier {pre : List Turn} {t : Turn} {post : List Turn} (hts : run = pre ++ t :: post)
      (u : Turn) (hu : u ∈ pre ++ [t]) : u ∈ run := by
    rw [hts, List.append_cons]
    exact List.mem_append_left _ hu
  refine ⟨fun howner => ⟨?_, fun t ht => ?_⟩, fun hclient t ht => ?_, fun d hd t ht => ?_,
    fun pre t post hts hop hok => ?_⟩
  · exact (turns_end_wp (J := fun s => OwnerHolds s.backend) (fun s k m hwell hJ =>
      serveRecord_keeps (fun _ _ _ hb h => h.within (hb.mono (by simp))) dispatch_owner
        (framed_of_wellFramed hwell) hJ) (start.ownerHolds howner) (ownerCalls_assumed _ _)).1
  · obtain ⟨pre, post, hts⟩ := List.append_of_mem ht
    obtain ⟨hpre, hobeyed, -, hafter⟩ := turns_dispatch ownerCalls_assumed
      (fun _ _ _ hb h => h.within (hb.mono (by simp))) dispatch_owner (start.ownerHolds howner) hts
    refine ⟨hafter.token, hafter.storage.endpoint, hafter.network.endpoint, hafter.network.tap rfl,
      ?_⟩
    rw [← hafter.mapped]
    refine ownerCalls_bounded (k := 0) ?_ (Nat.zero_le _)
    rw [turnEvents_append, ownerCalls.obeyed_append]
    simpa using ⟨hpre, hobeyed⟩
  · have hturn (u : Turn) (hu : u ∈ run) : u.before.backend.blocks = none ∧
        u.after.backend.blocks = none ∧ ∀ e ∈ u.events, Call.purpose e.1 ≠ .blocks := by
      obtain ⟨pre, post, hts⟩ := List.append_of_mem hu
      obtain ⟨-, hobeyed, hbefore, hafter⟩ := turns_dispatch (J := fun b _ => b.blocks = none)
        (k := ()) Contract.only_assumed (fun _ _ _ hb h => (hb.blocks (by simp)).trans h)
        dispatch_client hclient hts
      exact ⟨hbefore, hafter, Contract.only_obeyed hobeyed⟩
    have hblock (u : Turn) (hu : u ∈ run) (hop : (operationOf u.record).isBlock = true) :
        u.events = [] ∧
          (u.served.dispatched = true → u.served.response.status ≠ Status.ok.code) :=
      turns_history (Q := fun s m served h => s.backend.blocks = none →
        (operationOf m).isBlock = true → h = [] ∧
          (served.dispatched = true → served.response.status ≠ Status.ok.code))
        (fun _ _ hframed => serveRecord_not_owner hframed) hu (hturn u hu).1 hop
    refine ⟨(hturn t ht).2.1, (hturn t ht).2.2, fun hop => ⟨fun hok => ?_, (hblock t ht hop).1⟩⟩
    obtain ⟨pre, post, hts⟩ := List.append_of_mem ht
    obtain ⟨u, hu, -, hserved, hrecord, hstatus⟩ := turns_ok rfl hts hok
    exact (hblock u (hearlier hts u hu) (hrecord ▸ hop)).2 hserved hstatus
  · obtain ⟨pre, post, hts⟩ := List.append_of_mem ht
    obtain ⟨-, hobeyed, -, hafter⟩ := turns_dispatch
      (J := fun b _ => Absent d (start.backend.endpoint d) b) (k := ()) Contract.only_assumed
      (fun _ _ _ hb h => h.within hb (by simp)) dispatch_absent (start.absent hd) hts
    exact ⟨hafter.endpoint, hafter.tap, Contract.only_obeyed hobeyed⟩
  · obtain ⟨u, hu, hsame, hserved, hrecord, hstatus⟩ := turns_ok rfl hts hok
    have hrun := hearlier hts u hu
    have hlun := turns_history (Q := fun s m served h =>
      (operationOf m = .hello ∨ operationOf m = .activate) → served.dispatched = true →
        served.response.status = Status.ok.code → LunSeen s.backend.wwpn h)
      (fun _ _ hframed => serveRecord_lun hframed) hrun
    refine ⟨u, hu, hsame, hrecord, ?_⟩
    rw [turns_wwpn hrun] at hlun
    exact hlun (hrecord ▸ hop) hserved hstatus

end HyperIoVm
