import HyperIoVm.Rounds

/-!
# Order and replay of records

A record that is executed is ahead of the state it is executed in, by its binding or, within
the binding, by its transaction; and the state then stands exactly at that record. From this
every run executes its records in strictly increasing order, and the record executed last is
the one that is replayed.
-/

namespace HyperIoVm

open Effects

/-! ## The position of a record -/

namespace Turn

def binding (t : Turn) : UInt64 := (Header.decode t.record).binding
def transaction (t : Turn) : UInt64 := (Header.decode t.record).transaction
def epoch (t : Turn) : UInt64 := (Header.decode t.record).epoch

/-- The device a turn's record is counted for. -/
def device (t : Turn) : Fin 2 := t.before.backend.recordDevice (operationOf t.record)

/-- Lexicographic order of (binding, transaction). -/
def Precedes (t u : Turn) : Prop :=
  t.binding < u.binding ∨ t.binding = u.binding ∧ t.transaction < u.transaction

end Turn

/-- `m` is ahead of everything `s` has executed. -/
def Serving.Precedes (s : Serving) (m : Bytes) : Prop :=
  s.session.binding < (Header.decode m).binding ∨
    s.session.binding = (Header.decode m).binding ∧
      s.lastTransaction < (Header.decode m).transaction

/-! ## One round -/

namespace Round

variable {s s' : Serving} {m : Bytes} {served : Served}

/-- The role a backend was set up for never changes. -/
theorem recordDevice (h : Round s m served s') :
    s'.backend.recordDevice = s.backend.recordDevice := by
  have hrole {b b' : Backend} {ps : List Part} (hb : Within ps b b') :
      b'.recordDevice = b.recordDevice := by
    funext op
    simp [Backend.recordDevice, Backend.primary, hb.owner, hb.wwpn]
  cases h with
  | replayed _ => exact hrole ((Within.diagnostic [] _).trans (.diagnostic [] _))
  | rejected _ => exact hrole ((Within.diagnostic [] _).trans (.diagnostic [] _))
  | executed _ r b hb _ => exact hrole (hb.trans (.diagnostic _ b))

/-- A record that is not executed leaves session and transaction alone. -/
theorem not_dispatched (h : Round s m served s') (hserved : served.dispatched = false) :
    s' = s.logged := by
  cases h with
  | replayed _ => rfl
  | rejected _ => rfl
  | executed => cases hserved

theorem executes (h : Round s m served s') (hserved : served.dispatched = true) :
    s.Executes m := by
  cases h with
  | replayed => cases hserved
  | rejected => cases hserved
  | executed h => exact h

/-- A record that is executed was ahead of the state, and the state then stands at it. -/
theorem dispatched (h : Round s m served s') (hserved : served.dispatched = true) :
    s.Precedes m ∧ s'.session.binding = (Header.decode m).binding ∧
      s'.lastTransaction = (Header.decode m).transaction ∧
      s'.session.epoch (s.backend.recordDevice (operationOf m)) = (Header.decode m).epoch := by
  cases h with
  | replayed => cases hserved
  | rejected => cases hserved
  | executed hexec r b _ hsession =>
    have hbinding : r.2.binding = (Header.decode m).binding := by
      rw [← Serving.admit_binding hexec.admitted]
      rcases hsession with h | ⟨-, -, h⟩ <;> rw [h]
      rfl
    refine ⟨?_, hbinding, rfl, Function.update_self ..⟩
    rcases s.admit_cases m with h | ⟨h, hb, -⟩ | ⟨h, -, -, -, hb⟩
    · exact absurd (by rw [h]) hexec.admitted
    · rcases hexec with hx | ⟨-, hx⟩
      · rw [h] at hx; cases hx
      · exact .inr ⟨hb.symm, hx⟩
    · exact .inl hb

/-- Within a binding a record changes the epoch of its own device only; the epoch it is
executed with is at least the device's. -/
theorem epoch (h : Round s m served s') (hbinding : s'.session.binding = s.session.binding) :
    (∀ d, d ≠ s.backend.recordDevice (operationOf m) → s'.session.epoch d = s.session.epoch d) ∧
    (served.dispatched = true →
      s.session.epoch (s.backend.recordDevice (operationOf m)) ≤ (Header.decode m).epoch) := by
  cases h with
  | replayed _ => exact ⟨fun _ _ => rfl, fun h => by cases h⟩
  | rejected _ => exact ⟨fun _ _ => rfl, fun h => by cases h⟩
  | executed hexec r b _ hsession =>
    have hr : r.2.binding = (s.admission m).2.binding ∧ r.2.epoch = (s.admission m).2.epoch := by
      rcases hsession with h | ⟨-, -, h⟩ <;> rw [h] <;> exact ⟨rfl, rfl⟩
    have hadmission : s.admission m = (.current, s.session) ∧
        s.session.epoch (s.backend.recordDevice (operationOf m)) ≤ (Header.decode m).epoch := by
      rcases s.admit_cases m with h | ⟨h, -, he⟩ | ⟨h, -, -, -, hb⟩
      · exact absurd (by rw [h]) hexec.admitted
      · exact ⟨h, he⟩
      · have hstart : r.2.binding = (Header.decode m).binding := by rw [hr.1, h]
        rw [show s.session.binding = r.2.binding from hbinding.symm, hstart] at hb
        exact absurd hb (UInt64.lt_irrefl _)
    rw [hadmission.1] at hr
    refine ⟨fun d hd => ?_, fun _ => hadmission.2⟩
    show Function.update r.2.epoch _ (Header.decode m).epoch d = s.session.epoch d
    rw [Function.update_of_ne hd, hr.2]

/-- Within a binding no device's epoch goes back. -/
theorem epoch_le (h : Round s m served s') (hbinding : s'.session.binding = s.session.binding)
    (d : Fin 2) : s.session.epoch d ≤ s'.session.epoch d := by
  obtain ⟨hother, hown⟩ := h.epoch hbinding
  cases hserved : served.dispatched with
  | false => rw [h.not_dispatched hserved]; exact UInt64.le_refl _
  | true =>
    by_cases hd : d = s.backend.recordDevice (operationOf m)
    · rw [hd, (h.dispatched hserved).2.2.2]; exact hown hserved
    · rw [hother d hd]; exact UInt64.le_refl _

end Round

/-! ## Runs -/

/-- What holds of an executed turn with respect to any earlier state of its run. -/
structure Serving.Ahead (s : Serving) (t : Turn) : Prop where
  role : t.before.backend.recordDevice = s.backend.recordDevice
  order : s.Precedes t.record
  epoch : s.session.binding = t.binding → s.session.epoch t.device ≤ t.epoch

/-- One round earlier, an executed turn is still ahead. -/
theorem Serving.Ahead.step {s s' : Serving} {m : Bytes} {served : Served} {t : Turn}
    (h : s'.Ahead t) (hround : Round s m served s') : s.Ahead t := by
  refine ⟨h.role.trans hround.recordDevice, ?_, ?_⟩
  · cases hserved : served.dispatched with
    | false =>
      have horder := h.order
      rw [hround.not_dispatched hserved] at horder
      exact horder
    | true =>
      obtain ⟨hm, hbinding, htransaction, hepoch⟩ := hround.dispatched hserved
      have horder := h.order
      unfold Serving.Precedes at hm horder ⊢
      rw [hbinding, htransaction] at horder
      rcases hm with hm | ⟨hm, hm'⟩ <;> rcases horder with ho | ⟨ho, ho'⟩
      · exact .inl (UInt64.lt_trans hm ho)
      · exact .inl (ho ▸ hm)
      · exact .inl (hm ▸ ho)
      · exact .inr ⟨hm.trans ho, UInt64.lt_trans hm' ho'⟩
  · intro hb
    -- the binding cannot have moved away and come back
    have hsame : s'.session.binding = s.session.binding := by
      cases hserved : served.dispatched with
      | false => rw [hround.not_dispatched hserved]; rfl
      | true =>
        obtain ⟨hm, hbinding, -⟩ := hround.dispatched hserved
        have hle : s'.session.binding ≤ t.binding := by
          rcases h.order with ho | ⟨ho, -⟩
          · exact UInt64.le_of_lt ho
          · exact UInt64.le_of_eq ho
        refine UInt64.le_antisymm (hb ▸ hle) ?_
        rw [hbinding]
        rcases hm with hm | ⟨hm, -⟩
        · exact UInt64.le_of_lt hm
        · exact UInt64.le_of_eq hm
    exact UInt64.le_trans (hround.epoch_le hsame _) (h.epoch (hsame.trans hb))

section

variable {env : Environment Sys} {past : List (Event Sys)}

/-- Every executed turn is ahead of the state its run started in. -/
theorem turns_ahead {s : Serving} {ms : List Bytes} {t : Turn} (ht : t ∈ turns env past s ms)
    (hserved : t.served.dispatched = true) : s.Ahead t := by
  induction ms generalizing past s with
  | nil => simp [turns] at ht
  | cons m ms ih =>
    rw [turns] at ht
    split at ht
    next hwell =>
      have hround := exec_round env past (s := s) hwell
      rcases List.mem_cons.mp ht with rfl | ht
      · refine ⟨rfl, (hround.dispatched hserved).1, fun hb => ?_⟩
        obtain ⟨-, hbinding, -⟩ := hround.dispatched hserved
        exact (hround.epoch (hbinding.trans hb.symm)).2 hserved
      · exact (ih ht).step hround
    next => simp at ht

/-- Execution is at most once and in order: over a whole run of the control loop, from any
backend and for any records, the pairs (binding, transaction) of the records that are
dispatched increase strictly, and within a binding each device's epochs never decrease. -/
theorem dispatched_in_order (env : Environment Sys) (past : List (Event Sys)) (s : Serving)
    (ms : List Bytes) :
    ((turns env past s ms).filter (·.served.dispatched)).Pairwise fun t u =>
      t.Precedes u ∧ (t.binding = u.binding → t.device = u.device → t.epoch ≤ u.epoch) := by
  induction ms generalizing past s with
  | nil => exact .nil
  | cons m ms ih =>
    rw [turns]
    split
    next hwell =>
      have hround := exec_round env past (s := s) hwell
      rw [List.filter_cons]
      split
      next hserved =>
        refine List.pairwise_cons.mpr ⟨fun u hu => ?_, ih _ _⟩
        obtain ⟨hu, huserved⟩ := List.mem_filter.mp hu
        have hahead := turns_ahead hu huserved
        obtain ⟨hm, hbinding, htransaction, hepoch⟩ := hround.dispatched hserved
        have horder := hahead.order
        unfold Serving.Precedes at horder
        rw [hbinding, htransaction] at horder
        refine ⟨horder, fun hb hd => ?_⟩
        have hle := hahead.epoch (hbinding.trans hb)
        rw [← hd] at hle
        exact UInt64.le_trans (UInt64.le_of_eq hepoch.symm) hle
      next => exact ih _ _
    next => exact .nil

/-! ## Replay -/

/-- `s` still remembers `m` as the last record executed, with its reply `r`. -/
structure Serving.Remembers (s : Serving) (m : Bytes) (r : Response) : Prop where
  binding : s.session.binding = (Header.decode m).binding
  epoch : s.session.epoch (s.backend.recordDevice (operationOf m)) = (Header.decode m).epoch
  transaction : s.lastTransaction = (Header.decode m).transaction
  previous : s.previous = m
  reply : s.previousReply = r

theorem Round.remembers {s s' : Serving} {m : Bytes} {served : Served}
    (h : Round s m served s') (hserved : served.dispatched = true) :
    s'.Remembers m served.response := by
  obtain ⟨-, hbinding, htransaction, hepoch⟩ := h.dispatched hserved
  refine ⟨hbinding, by rw [h.recordDevice]; exact hepoch, htransaction, ?_, ?_⟩
  all_goals
    cases h with
    | replayed => cases hserved
    | rejected => cases hserved
    | executed => rfl

/-- Records that are not executed are forgotten at once. -/
theorem Serving.Remembers.step {s s' : Serving} {m m' : Bytes} {r : Response} {served : Served}
    (h : s.Remembers m r) (hround : Round s m' served s') (hserved : served.dispatched = false) :
    s'.Remembers m r := by
  have hrole := hround.recordDevice
  rw [hround.not_dispatched hserved] at hrole ⊢
  exact ⟨h.binding, by rw [hrole]; exact h.epoch, h.transaction, h.previous, h.reply⟩

/-- The remembered record is admitted, and recognised. -/
theorem Serving.Remembers.replays {s : Serving} {m : Bytes} {r : Response}
    (h : s.Remembers m r) (hframed : Framed m) : s.Replays m := by
  refine ⟨?_, h.transaction.symm, h.previous.symm⟩
  unfold Serving.admission
  dsimp only
  rw [← h.binding, session_admit_current]
  · rw [h.binding]; exact hframed.binding
  · exact hframed.epoch
  · exact hframed.epoch_le
  · exact UInt64.le_of_eq h.epoch

/-- The remembered record stays remembered while no other is executed. -/
theorem turns_remember {s : Serving} {ms : List Bytes} {m : Bytes} {r : Response}
    (h : s.Remembers m r) {mid : List Turn} {u : Turn} {post : List Turn}
    (hts : turns env past s ms = mid ++ u :: post)
    (hmid : ∀ v ∈ mid, v.served.dispatched = false) : u.before.Remembers m r := by
  refine turns_keep (P := fun s => s.Remembers m r) h hts fun v hv hbefore => ?_
  exact hbefore.step (turns_round (hts ▸ List.mem_append_left _ hv)).2 (hmid v hv)

/-- The bytes of a rejection: the record's identity, the length 48 and the status. -/
theorem rejection_written (m : Bytes) : (rejection m).written =
    { Header.decode m with length := 48, flags := hyperIoReply }.encode ++
      htole32 Status.invalid.code ++ htole32 0 := by
  have hprefix (h : Header) (a b : Bytes) (ha : a.length = 4) (hb : b.length = 4) (c : Bytes) :
      (h.encode ++ a ++ b ++ c).take 48 = h.encode ++ a ++ b := by
    rw [List.take_append_of_le_length (by simp [ha, hb]), List.take_of_length_le (by simp [ha, hb])]
  exact hprefix _ _ _ (length_leBytes 4 _) (length_leBytes 4 _) _

/-- Replay and rejection are inert. In every run of the control loop: the record executed last
is answered again with the bytes of its first reply, as often as it is repeated and whatever
was rejected in between; a record that is refused, or is neither new nor the one executed
last, is answered `INVALID` in 48 bytes. Neither makes a system call or changes anything but
the diagnostics counter. -/
theorem replay_and_rejection_inert (env : Environment Sys) (past : List (Event Sys))
    (s : Serving) (ms : List Bytes) :
    (∀ pre t mid u post, turns env past s ms = pre ++ t :: (mid ++ u :: post) →
      t.served.dispatched = true → (∀ v ∈ mid, v.served.dispatched = false) →
      u.record = t.record →
        u.served.response.written = t.served.response.written ∧
        u.served.dispatched = false ∧ u.events = [] ∧ u.after = u.before.logged) ∧
    (∀ u ∈ turns env past s ms, u.before.Rejects u.record →
        u.served.response.written =
          { Header.decode u.record with length := 48, flags := hyperIoReply }.encode ++
            htole32 Status.invalid.code ++ htole32 0 ∧
        u.served.response.written.length = 48 ∧
        u.served.dispatched = false ∧ u.events = [] ∧ u.after = u.before.logged) := by
  refine ⟨fun pre t mid u post hts hserved hmid hrecord => ?_, fun u hu hrejects => ?_⟩
  · have ht : t ∈ turns env past s ms := by simp [hts]
    have hu : u ∈ turns env past s ms := by simp [hts]
    obtain ⟨past', ms', hrest⟩ := turns_after hts
    have hremembers : u.before.Remembers u.record t.served.response :=
      turns_remember (hrecord ▸ (turns_round ht).2.remembers hserved) hrest.symm hmid
    obtain ⟨-, past'', hexec⟩ := turns_exec hu
    rw [Serving.serveRecord_of_replays (hremembers.replays (turns_round hu).1), Program.exec_done,
      Prod.mk.injEq, Prod.mk.injEq] at hexec
    obtain ⟨⟨hreply, hafter⟩, hevents⟩ := hexec
    rw [← hreply, ← hafter, ← hevents, hremembers.reply]
    exact ⟨rfl, rfl, rfl, rfl⟩
  · obtain ⟨-, past', hexec⟩ := turns_exec hu
    rw [Serving.serveRecord_of_rejects hrejects, Program.exec_done, Prod.mk.injEq,
      Prod.mk.injEq] at hexec
    obtain ⟨⟨hreply, hafter⟩, hevents⟩ := hexec
    rw [← hreply, ← hafter, ← hevents, rejection_written]
    refine ⟨rfl, ?_, rfl, rfl, rfl⟩
    simp [htole32]

end

end HyperIoVm
