import HyperIoVm.Confinement
import HyperIoVm.Setup

/-!
# What one record can do

A well-framed record is replayed, executed or rejected. `Round` lists the three outcomes
with everything each of them implies, and the rule `wp_serveRecord` reduces a property of
`serveRecord` to one of `dispatch`.
-/

namespace HyperIoVm

open Effects Routine

/-- The header of a record that passed the checks of `serve`. -/
structure Framed (m : Bytes) : Prop where
  size : 40 ≤ m.length
  length : (Header.decode m).length.toNat = m.length
  flags : (Header.decode m).flags = 0
  binding : (Header.decode m).binding ≠ 0
  epoch : (Header.decode m).epoch ≠ 0
  epoch_le : (Header.decode m).epoch ≤ 0xffffffff
  transaction : 0 < (Header.decode m).transaction

theorem framed_of_wellFramed {m : Bytes} (h : wellFramed m = true) : Framed m := by
  simp only [wellFramed, Bool.and_eq_true, decide_eq_true_eq, beq_iff_eq, bne_iff_ne] at h
  obtain ⟨⟨⟨⟨⟨⟨⟨⟨⟨hsize, -⟩, -⟩, -⟩, hlength⟩, hflags⟩, hbinding⟩, htransaction⟩, hepoch⟩,
    hmax⟩ := h
  exact ⟨hsize, hlength, hflags, hbinding, hepoch, hmax, UInt64.pos_iff_ne_zero.mpr htransaction⟩

/-- The reply to a rejected record. -/
def rejection (m : Bytes) : Response := ({ status := .invalid } : Answer).response (Header.decode m)

namespace Serving

variable (s : Serving) (m : Bytes)

/-! ## The three outcomes -/

/-- `m` is the last executed record, and still admitted. -/
def Replays : Prop :=
  (s.admission m).1 = .current ∧ (Header.decode m).transaction = s.lastTransaction ∧ m = s.previous

/-- `m` is admitted and new: it starts a binding, or its transaction is ahead of the last. -/
def Executes : Prop :=
  (s.admission m).1 = .takeover ∨
    (s.admission m).1 = .current ∧ s.lastTransaction < (Header.decode m).transaction

/-- `m` is refused, or neither new nor the last executed record. -/
def Rejects : Prop :=
  (s.admission m).1 = .refused ∨
    (s.admission m).1 = .current ∧ (Header.decode m).transaction ≤ s.lastTransaction ∧
      ¬ ((Header.decode m).transaction = s.lastTransaction ∧ m = s.previous)

theorem replays_or_executes_or_rejects : s.Replays m ∨ s.Executes m ∨ s.Rejects m := by
  unfold Replays Executes Rejects
  cases hverdict : (s.admission m).1 with
  | refused => exact .inr (.inr (.inl rfl))
  | takeover => exact .inr (.inl (.inl rfl))
  | current =>
    by_cases hnew : s.lastTransaction < (Header.decode m).transaction
    · exact .inr (.inl (.inr ⟨rfl, hnew⟩))
    · by_cases hsame : (Header.decode m).transaction = s.lastTransaction ∧ m = s.previous
      · exact .inl ⟨rfl, hsame⟩
      · exact .inr (.inr (.inr ⟨rfl, UInt64.not_lt.mp hnew, hsame⟩))

/-- The state after a record that was not executed: two more diagnostics at most. -/
def logged : Serving := { s with backend := s.backend.diagnostic.diagnostic }

/-- The state after an executed record, from what `dispatch` left behind. -/
def executed (r : Answer × Session) (b : Backend) : Serving where
  backend := b.diagnostic
  session := { r.2 with
    epoch := Function.update r.2.epoch
      (s.backend.recordDevice (operationOf m)) (Header.decode m).epoch }
  lastTransaction := (Header.decode m).transaction
  previous := m
  previousReply := r.1.response (Header.decode m)

/-! ## Admission -/

/-- Admission, with what each verdict implies and the session it leaves. -/
theorem admit_cases :
    s.admission m = (.refused, s.session) ∨
    (s.admission m = (.current, s.session) ∧ (Header.decode m).binding = s.session.binding ∧
      s.session.epoch (s.backend.recordDevice (operationOf m)) ≤
        (Header.decode m).epoch) ∨
    (s.admission m = (.takeover,
        { binding := (Header.decode m).binding
          epoch := Function.update (fun _ => 0)
            (s.backend.recordDevice (operationOf m)) (Header.decode m).epoch
          retired := false }) ∧
      operationOf m = s.backend.hello ∧ m.length = 40 ∧
      (if s.backend.managed then s.backend.idle else s.session.binding == 0) = true ∧
      s.session.binding < (Header.decode m).binding) := by
  rcases session_admit_cases s.session (Header.decode m).binding (Header.decode m).epoch
    (operationOf m == s.backend.hello && m.length == 40)
    (if s.backend.managed then s.backend.idle else s.session.binding == 0)
    (s.backend.recordDevice (operationOf m)) with h | h | h
  · exact .inl h
  · exact .inr (.inl ⟨h.1, h.2.1, h.2.2.1⟩)
  · obtain ⟨hadmission, hhello, hidle, hbinding, -⟩ := h
    rw [Bool.and_eq_true, beq_iff_eq, beq_iff_eq] at hhello
    exact .inr (.inr ⟨hadmission, hhello.1, hhello.2, hidle, hbinding⟩)

variable {s m}

/-- A record that is not a takeover leaves the session to `dispatch` as it is. -/
theorem admit_session (h : (s.admission m).1 ≠ .takeover) : (s.admission m).2 = s.session := by
  rcases s.admit_cases m with h' | ⟨h', -⟩ | ⟨h', -⟩ <;> rw [h'] at h ⊢
  exact absurd rfl h

theorem admit_binding (h : (s.admission m).1 ≠ .refused) :
    (s.admission m).2.binding = (Header.decode m).binding := by
  rcases s.admit_cases m with h' | ⟨h', hb, -⟩ | ⟨h', -⟩ <;> rw [h'] at h ⊢
  · exact absurd rfl h
  · exact hb.symm

theorem Executes.admitted (h : s.Executes m) : (s.admission m).1 ≠ .refused := by
  rcases h with h | ⟨h, -⟩ <;> rw [h] <;> decide

/-! ## The equations of `serveRecord` -/

theorem serveRecord_of_replays (h : s.Replays m) :
    serveRecord s m = .done (⟨s.previousReply, false⟩, s.logged) := by
  obtain ⟨hverdict, htransaction, hprevious⟩ := h
  have hadmission : s.admission m = (.current, s.session) :=
    Prod.ext hverdict (admit_session (by rw [hverdict]; decide))
  simp [serveRecord, hadmission, htransaction, ← hprevious, logged]

theorem serveRecord_of_rejects (h : s.Rejects m) :
    serveRecord s m = .done (⟨rejection m, false⟩, s.logged) := by
  rcases h with hverdict | ⟨hverdict, htransaction, hprevious⟩
  · have hadmission : s.admission m = (.refused, s.session) :=
      Prod.ext hverdict (admit_session (by rw [hverdict]; decide))
    simp [serveRecord, hadmission, logged, rejection]
  · have hadmission : s.admission m = (.current, s.session) :=
      Prod.ext hverdict (admit_session (by rw [hverdict]; decide))
    simp [serveRecord, hadmission, logged, rejection, hprevious, UInt64.not_lt.mpr htransaction]

theorem serveRecord_of_executes (hframed : Framed m) (h : s.Executes m) :
    serveRecord s m = (do
      let (r, b) ← (dispatch (s.admission m).2 m).run s.backend.diagnostic
      return (⟨r.1.response (Header.decode m), true⟩, s.executed m r b)) := by
  have hrole : s.backend.diagnostic.recordDevice = s.backend.recordDevice := by
    unfold Backend.diagnostic
    split <;> rfl
  rcases h with hverdict | ⟨hverdict, htransaction⟩
  · obtain ⟨session, hadmission⟩ : ∃ session, s.admission m = (.takeover, session) :=
      ⟨_, Prod.ext hverdict rfl⟩
    have hnew : (Header.decode m).transaction ≠ 0 := (UInt64.pos_iff_ne_zero.mp hframed.transaction)
    simp [serveRecord, hadmission, hnew, hframed.transaction, executed, hrole]
  · have hadmission : s.admission m = (.current, s.session) :=
      Prod.ext hverdict (admit_session (by rw [hverdict]; decide))
    have hnew : (Header.decode m).transaction ≠ s.lastTransaction :=
      (UInt64.ne_of_lt htransaction).symm
    simp [serveRecord, hadmission, hnew, htransaction, executed, hrole]

variable {K : Type} {C : Contract Sys K} {k : K}

/-- To reason about a record, reason about each of its three outcomes. -/
theorem wp_serveRecord {Q : Served × Serving → K → Prop} (hframed : Framed m)
    (hreplays : s.Replays m → Q (⟨s.previousReply, false⟩, s.logged) k)
    (hrejects : s.Rejects m → Q (⟨rejection m, false⟩, s.logged) k)
    (hexecutes : s.Executes m → (dispatch (s.admission m).2 m).wp C (fun r b k' =>
      Q (⟨r.1.response (Header.decode m), true⟩, s.executed m r b) k') s.backend.diagnostic k) :
    (serveRecord s m).wp C Q k := by
  rcases s.replays_or_executes_or_rejects m with h | h | h
  · rw [serveRecord_of_replays h]; exact hreplays h
  · rw [serveRecord_of_executes hframed h, Program.wp_bind]; exact hexecutes h
  · rw [serveRecord_of_rejects h]; exact hrejects h

end Serving

/-! ## The session after `dispatch` -/

/-- Of the session, `dispatch` changes nothing but the retirement flag, and that only when it
released the memory. -/
theorem dispatch_session (session : Session) (m : Bytes) (b : Backend) :
    (dispatch session m).wp (.free Sys) (fun r _ _ =>
      r.2 = session ∨
        isRelease m = true ∧ r.1.status = .ok ∧ r.2 = hyperIoSessionRetire session) b () := by
  simp only [dispatch, wp_bind, wp_get, wp_ite, wp_pure]
  split
  next hrelease =>
    rw [Bool.and_eq_true] at hrelease
    refine wp_free fun status _ => ?_
    by_cases hok : status = .ok
    · exact .inr ⟨hrelease.1, hok, by rw [if_pos hok]⟩
    · exact .inl (by rw [if_neg hok])
  next =>
    split
    · exact .inl trivial
    · split <;> exact wp_free fun _ _ => .inl trivial

/-! ## Rounds -/

/-- One round of the control loop: what it answered and the state it left. -/
inductive Round (s : Serving) (m : Bytes) : Served → Serving → Prop where
  | replayed (h : s.Replays m) : Round s m ⟨s.previousReply, false⟩ s.logged
  | rejected (h : s.Rejects m) : Round s m ⟨rejection m, false⟩ s.logged
  | executed (h : s.Executes m) (r : Answer × Session) (b : Backend)
      (backend : Within ((operationOf m).touched r.1.status) s.backend b)
      (session : r.2 = (s.admission m).2 ∨
        isRelease m = true ∧ r.1.status = .ok ∧ r.2 = hyperIoSessionRetire (s.admission m).2) :
      Round s m ⟨r.1.response (Header.decode m), true⟩ (s.executed m r b)

theorem serveRecord_round {s : Serving} {m : Bytes} (hframed : Framed m) :
    (serveRecord s m).wp (.free Sys) (fun r _ => Round s m r.1 r.2) () := by
  refine Serving.wp_serveRecord hframed .replayed .rejected fun h => ?_
  refine wp_mono (wp_and (dispatch_session (s.admission m).2 m s.backend.diagnostic)
    (dispatch_confined (s.admission m).2 m s.backend.diagnostic)) fun r b _ hpost => ?_
  exact .executed h r b ((Within.diagnostic _ _).trans hpost.2) hpost.1

section Turns

variable {env : Environment Sys} {past : List (Event Sys)} {s : Serving} {ms : List Bytes}

/-- Serving a record in any environment is a round. -/
theorem exec_round (env : Environment Sys) (past : List (Event Sys)) {m : Bytes}
    (hwell : wellFramed m = true) :
    Round s m ((serveRecord s m).exec env past).1.1 ((serveRecord s m).exec env past).1.2 :=
  (Program.wp_exec env past (serveRecord_round (framed_of_wellFramed hwell))
    (Contract.free_assumed _ _)).2

/-- Every turn of a run is a round. -/
theorem turns_round {t : Turn} (ht : t ∈ turns env past s ms) :
    Framed t.record ∧ Round t.before t.record t.served t.after := by
  obtain ⟨hwell, past', hexec⟩ := turns_exec ht
  have hround := exec_round env past' (s := t.before) hwell
  rw [hexec] at hround
  exact ⟨framed_of_wellFramed hwell, hround⟩

end Turns

end HyperIoVm
