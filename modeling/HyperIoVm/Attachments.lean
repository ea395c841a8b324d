import HyperIoVm.Effects.Product
import HyperIoVm.Confinement

/-!
# What is attached to the vhost devices

A device is attached from the first `SET_ENDPOINT` or `NET_SET_BACKEND` that succeeds to the
next drain that succeeds. The contract `attachments` keeps this ledger from the system calls
alone, and lets a program drain a device only while something is attached to it.
-/

namespace HyperIoVm

open Effects Routine

/-! ## The ledger -/

/-- The device an ioctl attaches something to. -/
def Command.attaches : Command → Option Device
  | .setEndpoint _ => some .storage
  | .netSetBackend _ _ => some .network
  | _ => none

/-- The device an ioctl drains. -/
def Command.drains : Command → Option Device
  | .clearEndpoint _ => some .storage
  | .resetOwner => some .network
  | _ => none

/-- Something was attached to the device. -/
def Attached (d : Device) (es : List (Event Sys)) : Prop :=
  ∃ fd command, command.attaches = some d ∧
    (⟨.ioctl fd command, Outcome.ok⟩ : Event Sys) ∈ es

/-- A drain of the device was issued. -/
def DrainIssued (d : Device) (es : List (Event Sys)) : Prop :=
  ∃ fd command, ∃ r : Outcome, command.drains = some d ∧
    (⟨.ioctl fd command, r⟩ : Event Sys) ∈ es

/-- What the calls so far have attached: the vhost-scsi endpoint with its target name, the
vhost-net queues with their index and their TAP; the drains that were issued; and the TAPs that
were opened. -/
structure Attachments where
  endpoint : Option (Fd × String) := none
  queues : List (Fd × Nat × Fd) := []
  drains : List Device := []
  taps : List Fd := []
  deriving DecidableEq, Repr

namespace Attachments

def attached (a : Attachments) : Device → Bool
  | .storage => a.endpoint.isSome
  | .network => !a.queues.isEmpty

def next (a : Attachments) : (c : Call) → c.Reply → Attachments
  | .ioctl fd (.setEndpoint wwpn), .ok => { a with endpoint := some (fd, wwpn) }
  | .ioctl fd (.netSetBackend index (some tap)), .ok =>
    { a with queues := a.queues ++ [(fd, index, tap)] }
  | .ioctl _ (.clearEndpoint _), .ok =>
    { a with endpoint := none, drains := a.drains ++ [.storage] }
  | .ioctl _ (.clearEndpoint _), .failed => { a with drains := a.drains ++ [.storage] }
  | .ioctl _ .resetOwner, .ok => { a with queues := [], drains := a.drains ++ [.network] }
  | .ioctl _ .resetOwner, .failed => { a with drains := a.drains ++ [.network] }
  | .openNode .tun, .ok fd => { a with taps := a.taps ++ [fd] }
  | _, _ => a

end Attachments

/-- A device is only drained while something is attached to it, and a vhost-net queue is never
detached on its own. -/
def attachments : Contract Sys Attachments where
  allows a c := ∀ fd command, c = .ioctl fd command →
    (∀ d, command.drains = some d → a.attached d = true) ∧ ∀ i, command ≠ .netSetBackend i none
  assumes _ _ _ := True
  next := Attachments.next

theorem attachments_assumed (a : Attachments) (es : List (Event Sys)) :
    attachments.Assumed a es := Contract.assumed_of_all fun _ _ _ => trivial

/-- Calls that neither attach nor drain anything, and open no TAP. -/
def Call.neutral : Call → Bool
  | .ioctl _ command => command.attaches.isNone && command.drains.isNone
  | .openNode node => node ≠ .tun
  | _ => true

theorem attachments_neutral {c : Call} (h : c.neutral = true) (a : Attachments) (r : c.Reply) :
    attachments.allows a c ∧ attachments.next a c r = a := by
  refine ⟨fun fd command hc => ?_, ?_⟩
  · subst hc
    simp only [Call.neutral, Bool.and_eq_true, Option.isNone_iff_eq_none] at h
    refine ⟨fun d hd => ?_, fun i hi => ?_⟩
    · rw [h.2] at hd; cases hd
    · rw [hi] at h; cases h.1
  · cases c with
    | ioctl fd command => cases command <;> first | rfl | cases h
    | openNode node => cases node <;> first | rfl | simp [Call.neutral] at h
    | _ => rfl

/-! ## What the ledger says about the calls -/

section Ledger

variable {a : Attachments} {d : Device} {e : Event Sys} {es : List (Event Sys)}

theorem attached_cons : Attached d (e :: es) ↔ Attached d [e] ∨ Attached d es := by
  simp only [Attached, List.mem_cons, List.not_mem_nil, or_false]
  grind

theorem drainIssued_cons : DrainIssued d (e :: es) ↔ DrainIssued d [e] ∨ DrainIssued d es := by
  simp only [DrainIssued, List.mem_cons, List.not_mem_nil, or_false]
  grind

theorem not_attached_nil : ¬ Attached d [] := by simp [Attached]

theorem not_drainIssued_nil : ¬ DrainIssued d [] := by simp [DrainIssued]

/-- The calls that are not neutral. -/
theorem Call.neutral_or (c : Call) : c.neutral = true ∨ c = .openNode .tun ∨
    ∃ fd command, c = .ioctl fd command ∧
      ((∃ wwpn, command = .setEndpoint wwpn) ∨ (∃ wwpn, command = .clearEndpoint wwpn) ∨
        command = .resetOwner ∨ ∃ i tap, command = .netSetBackend i tap) := by
  cases c with
  | ioctl fd command =>
    cases command <;> first | exact .inl rfl | exact .inr (.inr ⟨fd, _, rfl, by simp⟩)
  | openNode node => cases node <;> first | exact .inl rfl | exact .inr (.inl rfl)
  | _ => exact .inl rfl

theorem not_attached (h : ∀ fd command, command.attaches = some d → e.1 ≠ .ioctl fd command) :
    ¬ Attached d [e] := by
  rintro ⟨fd, command, hattaches, hmem⟩
  exact h fd command hattaches (by rw [← List.mem_singleton.mp hmem])

theorem not_drainIssued (h : ∀ fd command, command.drains = some d → e.1 ≠ .ioctl fd command) :
    ¬ DrainIssued d [e] := by
  rintro ⟨fd, command, r, hdrains, hmem⟩
  exact h fd command hdrains (by rw [← List.mem_singleton.mp hmem])

theorem attached_ioctl {fd : Fd} {command : Command} {r : Outcome} :
    Attached d [⟨.ioctl fd command, r⟩] ↔ command.attaches = some d ∧ r = .ok := by
  constructor
  · rintro ⟨_, _, hattaches, hmem⟩
    cases List.mem_singleton.mp hmem
    exact ⟨hattaches, rfl⟩
  · rintro ⟨hattaches, rfl⟩
    exact ⟨fd, command, hattaches, List.mem_singleton_self _⟩

theorem drainIssued_ioctl {fd : Fd} {command : Command} {r : Outcome} :
    DrainIssued d [⟨.ioctl fd command, r⟩] ↔ command.drains = some d := by
  constructor
  · rintro ⟨_, _, _, hdrains, hmem⟩
    cases List.mem_singleton.mp hmem
    exact hdrains
  · exact fun hdrains => ⟨fd, command, r, hdrains, List.mem_singleton_self _⟩

/-- What one event does to the ledger. -/
structure LedgerStep (d : Device) (a : Attachments) (e : Event Sys) (a' : Attachments) : Prop where
  attached : a'.attached d = true → a.attached d = true ∨ Attached d [e]
  attaches : Attached d [e] → a'.attached d = true
  allowed : DrainIssued d [e] → a.attached d = true
  drained : a.attached d = true → a'.attached d = false → DrainIssued d [e]
  drains : d ∈ a'.drains ↔ d ∈ a.drains ∨ DrainIssued d [e]

/-- An event that attaches and drains nothing. -/
theorem LedgerStep.of_same {a' : Attachments} (hattached : ¬ Attached d [e])
    (hdrain : ¬ DrainIssued d [e]) (ha : a'.attached d = a.attached d)
    (hdrains : a'.drains = a.drains) : LedgerStep d a e a' where
  attached h := .inl (ha ▸ h)
  attaches h := absurd h hattached
  allowed h := absurd h hdrain
  drained h h' := absurd ((ha ▸ h').symm.trans h) Bool.false_ne_true
  drains := by simp [hdrains, hdrain]

theorem attachments_step (hallow : attachments.allows a e.1) :
    LedgerStep d a e (attachments.next a e.1 e.2) := by
  obtain ⟨c, r⟩ := e
  rcases c.neutral_or with hneutral | rfl | ⟨fd, command, rfl, hcommand⟩
  · rw [show attachments.next a c r = a from (attachments_neutral hneutral a r).2]
    refine .of_same (not_attached fun fd command h => ?_) (not_drainIssued fun fd command h => ?_)
      rfl rfl
    · rintro rfl
      simp [Call.neutral, h] at hneutral
    · rintro rfl
      simp [Call.neutral, h] at hneutral
  · refine .of_same (not_attached fun _ _ _ h => by cases h)
      (not_drainIssued fun _ _ _ h => by cases h) ?_ ?_
    · cases (r : Except Errno Fd) <;> cases d <;> rfl
    · cases (r : Except Errno Fd) <;> rfl
  · obtain ⟨hdrain, hnone⟩ := hallow fd command rfl
    have hallowed (h : DrainIssued d [⟨.ioctl fd command, r⟩]) : a.attached d = true :=
      hdrain d (drainIssued_ioctl.mp h)
    change Outcome at r
    -- one ioctl that attaches or drains a device, as it succeeds or fails
    rcases hcommand with ⟨wwpn, rfl⟩ | ⟨wwpn, rfl⟩ | rfl | ⟨i, _ | tap, rfl⟩
    case inr.inr.inr.none => exact absurd rfl (hnone i)
    all_goals
      cases r <;> dsimp only [attachments, Attachments.next] <;> cases d <;>
        refine ⟨?_, ?_, hallowed, ?_, ?_⟩ <;>
        simp +contextual [attached_ioctl, drainIssued_ioctl, Command.attaches, Command.drains,
          Attachments.attached]

/-- A drain is issued only if something was attached before. -/
theorem attached_of_drainIssued (h : attachments.Obeyed a es) (hdrain : DrainIssued d es) :
    a.attached d = true ∨ Attached d es := by
  induction es generalizing a with
  | nil => exact absurd hdrain not_drainIssued_nil
  | cons e es ih =>
    rw [attached_cons]
    rcases drainIssued_cons.mp hdrain with he | hes
    · exact .inl ((attachments_step h.1).allowed he)
    · rcases ih h.2 hes with hnext | hlater
      · exact ((attachments_step h.1).attached hnext).imp_right .inl
      · exact .inr (.inr hlater)

/-- What was attached and is not any more was drained. -/
theorem drainIssued_of_ledger (h : attachments.Obeyed a es)
    (hattached : a.attached d = true ∨ Attached d es)
    (hafter : (attachments.after a es).attached d = false) : DrainIssued d es := by
  induction es generalizing a with
  | nil =>
    rcases hattached with hbefore | hnil
    · exact absurd (hafter.symm.trans hbefore) Bool.false_ne_true
    · exact absurd hnil not_attached_nil
  | cons e es ih =>
    have hstep := attachments_step (d := d) h.1
    rw [drainIssued_cons]
    by_cases hnext : (attachments.next a e.1 e.2).attached d = true
    · exact .inr (ih h.2 (.inl hnext) hafter)
    · rcases hattached with hbefore | hattached
      · exact .inl (hstep.drained hbefore (Bool.eq_false_iff.mpr hnext))
      · rcases attached_cons.mp hattached with he | hes
        · exact absurd (hstep.attaches he) hnext
        · exact .inr (ih h.2 (.inr hes) hafter)

/-- The ledger lists the devices whose drain was issued. -/
theorem mem_drains (h : attachments.Obeyed a es) :
    d ∈ (attachments.after a es).drains ↔ d ∈ a.drains ∨ DrainIssued d es := by
  induction es generalizing a with
  | nil => simp [not_drainIssued_nil]
  | cons e es ih =>
    rw [Contract.after_cons, ih h.2, (attachments_step h.1).drains, or_assoc]
    exact or_congr_right drainIssued_cons.symm

/-- Over a stretch of calls at whose ends nothing is attached to the device, its drain is issued
if and only if something was attached in between. -/
theorem drainIssued_iff_attached (h : attachments.Obeyed a es) (hbefore : a.attached d = false)
    (hafter : (attachments.after a es).attached d = false) :
    DrainIssued d es ↔ Attached d es := by
  constructor
  · intro hdrain
    rcases attached_of_drainIssued h hdrain with hattached | hattached
    · exact absurd (hbefore.symm.trans hattached) Bool.false_ne_true
    · exact hattached
  · exact fun hattached => drainIssued_of_ledger h (.inr hattached) hafter

/-- An entry of the ledger was there before, or the event is the one that made it. -/
theorem next_queues {fd : Fd} {i : Nat} {tap : Fd}
    (h : (fd, i, tap) ∈ (attachments.next a e.1 e.2).queues) :
    (fd, i, tap) ∈ a.queues ∨ e = ⟨.ioctl fd (.netSetBackend i (some tap)), Outcome.ok⟩ := by
  obtain ⟨c, r⟩ := e
  rcases c.neutral_or with hneutral | rfl | ⟨fd', command, rfl, hcommand⟩
  · rw [show attachments.next a c r = a from (attachments_neutral hneutral a r).2] at h
    exact .inl h
  · cases (r : Except Errno Fd) <;> exact .inl h
  · change Outcome at r
    rcases hcommand with ⟨wwpn, rfl⟩ | ⟨wwpn, rfl⟩ | rfl | ⟨i', _ | tap', rfl⟩ <;> cases r
    case inr.inr.inr.inr.inl.ok => cases h
    case inr.inr.inr.inr.inr.some.ok =>
      refine (List.mem_append.mp h).imp_right fun h => ?_
      cases List.mem_singleton.mp h
      rfl
    all_goals exact .inl h

theorem next_endpoint {fd : Fd} {wwpn : String}
    (h : (attachments.next a e.1 e.2).endpoint = some (fd, wwpn)) :
    a.endpoint = some (fd, wwpn) ∨ e = ⟨.ioctl fd (.setEndpoint wwpn), Outcome.ok⟩ := by
  obtain ⟨c, r⟩ := e
  rcases c.neutral_or with hneutral | rfl | ⟨fd', command, rfl, hcommand⟩
  · rw [show attachments.next a c r = a from (attachments_neutral hneutral a r).2] at h
    exact .inl h
  · cases (r : Except Errno Fd) <;> exact .inl h
  · change Outcome at r
    rcases hcommand with ⟨wwpn', rfl⟩ | ⟨wwpn', rfl⟩ | rfl | ⟨i', _ | tap', rfl⟩ <;> cases r
    case inl.ok =>
      cases h
      exact .inr rfl
    case inr.inl.ok => cases h
    all_goals exact .inl h

theorem next_taps {fd : Fd} : fd ∈ (attachments.next a e.1 e.2).taps ↔
    fd ∈ a.taps ∨ e = ⟨.openNode .tun, Except.ok fd⟩ := by
  obtain ⟨c, r⟩ := e
  have hother {a' : Attachments} (ha : a'.taps = a.taps) (hc : c ≠ .openNode .tun) :
      fd ∈ a'.taps ↔ fd ∈ a.taps ∨ (⟨c, r⟩ : Event Sys) = ⟨.openNode .tun, Except.ok fd⟩ := by
    rw [ha]
    refine ⟨.inl, fun h => h.elim id fun h => ?_⟩
    cases h
    exact absurd rfl hc
  rcases c.neutral_or with hneutral | rfl | ⟨fd', command, rfl, hcommand⟩
  · refine hother ?_ (by rintro rfl; cases hneutral)
    rw [show attachments.next a c r = a from (attachments_neutral hneutral a r).2]
  · change Except Errno Fd at r
    cases r with
    | error _ => exact ⟨.inl, fun h => h.elim id fun h => by cases h⟩
    | ok fd' =>
      show fd ∈ a.taps ++ [fd'] ↔ _
      rw [List.mem_append, List.mem_singleton]
      refine or_congr_right ⟨fun h => by rw [h], fun h => ?_⟩
      cases h
      rfl
  · change Outcome at r
    refine hother ?_ fun h => by cases h
    rcases hcommand with ⟨wwpn', rfl⟩ | ⟨wwpn', rfl⟩ | rfl | ⟨i', _ | tap', rfl⟩ <;> cases r <;> rfl

/-- What the ledger lists as attached was attached by a call. -/
theorem queue_of_ledger {fd : Fd} {i : Nat} {tap : Fd}
    (h : (fd, i, tap) ∈ (attachments.after a es).queues) : (fd, i, tap) ∈ a.queues ∨
      (⟨.ioctl fd (.netSetBackend i (some tap)), Outcome.ok⟩ : Event Sys) ∈ es := by
  induction es generalizing a with
  | nil => exact .inl h
  | cons e es ih =>
    rcases ih h with hnext | hes
    · exact (next_queues hnext).imp_right fun he => List.mem_cons.mpr (.inl he.symm)
    · exact .inr (List.mem_cons_of_mem _ hes)

theorem endpoint_of_ledger {fd : Fd} {wwpn : String}
    (h : (attachments.after a es).endpoint = some (fd, wwpn)) : a.endpoint = some (fd, wwpn) ∨
      (⟨.ioctl fd (.setEndpoint wwpn), Outcome.ok⟩ : Event Sys) ∈ es := by
  induction es generalizing a with
  | nil => exact .inl h
  | cons e es ih =>
    rcases ih h with hnext | hes
    · exact (next_endpoint hnext).imp_right fun he => List.mem_cons.mpr (.inl he.symm)
    · exact .inr (List.mem_cons_of_mem _ hes)

/-- The ledger lists the TAPs that were opened. -/
theorem mem_taps {fd : Fd} : fd ∈ (attachments.after a es).taps ↔
    fd ∈ a.taps ∨ (⟨.openNode .tun, Except.ok fd⟩ : Event Sys) ∈ es := by
  induction es generalizing a with
  | nil => simp
  | cons e es ih =>
    rw [Contract.after_cons, ih, next_taps, List.mem_cons, or_assoc]
    refine or_congr_right (or_congr_left eq_comm)

end Ledger

end HyperIoVm
