import Mathlib.Data.List.Basic
import HyperIoVm.Data.Steps
import HyperIoVm.Supervisor

/-!
# Stop requests reach the children (`service/hyper-io-supervisor.c`)

The recorded children are those that have not been reaped, and once the supervisor has signalled,
each of them was sent SIGTERM. The supervisor looks at `stopping` before it waits: a signal that
comes between the two is seen only when a child exits.
-/

namespace HyperIoVm

open Data

/-! ## The recorded children -/

/-- The pids in `children`. -/
def recordedPids (children : List Int) : List Int := children.filter (· != 0)

/-- The children that have not been reaped. -/
def Supervisor.pids (s : Supervisor) : List Int := s.processes.map (·.pid)

section Lists

variable {l : List Int} {a : Int}

theorem recordedPids_zero (l : List Int) : recordedPids (0 :: l) = recordedPids l :=
  List.filter_cons_of_neg (by decide)

theorem recordedPids_cons (ha : a ≠ 0) (l : List Int) :
    recordedPids (a :: l) = a :: recordedPids l :=
  List.filter_cons_of_pos (bne_iff_ne.mpr ha)

theorem mem_recordedPids : a ∈ recordedPids l ↔ a ∈ l ∧ a ≠ 0 := by
  rw [recordedPids, List.mem_filter, bne_iff_ne]

theorem recordedPids_replicate (n : Nat) : recordedPids (.replicate n 0) = [] := by
  induction n with
  | zero => rfl
  | succ n ih => rw [List.replicate_succ, recordedPids_zero, ih]

/-- A child is recorded in a free slot. -/
theorem recordedPids_set {i : Nat} (hi : l[i]? = some 0) (ha : a ≠ 0) :
    (recordedPids (l.set i a)).Perm (a :: recordedPids l) := by
  induction l generalizing i with
  | nil => cases hi
  | cons b l ih =>
    cases i with
    | zero =>
      obtain rfl : b = 0 := Option.some_inj.mp hi
      rw [List.set_cons_zero, recordedPids_cons ha, recordedPids_zero]
    | succ i =>
      rw [List.set_cons_succ]
      by_cases hb : b = 0
      · rw [hb, recordedPids_zero, recordedPids_zero]
        exact ih hi
      · rw [recordedPids_cons hb, recordedPids_cons hb]
        exact ((ih hi).cons b).trans (.swap a b _)

/-- A recorded child is cleared. -/
theorem recordedPids_replace (ha : a ≠ 0) (h : a ∈ l) :
    (recordedPids l).Perm (a :: recordedPids (l.replace a 0)) := by
  induction l with
  | nil => cases h
  | cons b l ih =>
    by_cases hb : b = a
    · rw [hb, recordedPids_cons ha, List.replace_cons_self, recordedPids_zero]
    · have hl := ih ((List.mem_cons.mp h).resolve_left (Ne.symm hb))
      rw [List.replace_cons, beq_false_of_ne (Ne.symm hb)]
      dsimp only
      by_cases hzero : b = 0
      · rw [hzero, recordedPids_zero, recordedPids_zero]
        exact hl
      · rw [recordedPids_cons hzero, recordedPids_cons hzero]
        exact (hl.cons b).trans (.swap a b _)

theorem map_pid_map {f : ChildProcess → ChildProcess} (hf : ∀ p, (f p).pid = p.pid)
    (processes : List ChildProcess) : (processes.map f).map (·.pid) = processes.map (·.pid) := by
  rw [List.map_map]
  exact List.map_congr_left fun p _ => hf p

theorem map_pid_eraseP {processes : List ChildProcess} {p : ChildProcess} (hp : p ∈ processes) :
    (processes.map (·.pid)).Perm
      (p.pid :: (processes.eraseP (·.pid == p.pid)).map (·.pid)) := by
  obtain ⟨q, before, after, -, hq, heq, herase⟩ :=
    List.exists_of_eraseP (p := fun q : ChildProcess => q.pid == p.pid) hp (beq_self_eq_true _)
  rw [herase, heq, List.map_append, List.map_append, List.map_cons, beq_iff_eq.mp hq]
  exact List.perm_middle

end Lists

/-! ## One step -/

/-- What one step can do. -/
inductive Supervisor.Stepped (s : Supervisor) : SupervisorEvent → Supervisor → Prop
  | more {i} (pc : s.pc = .spawn i) (room : i < s.children.length) (going : s.stopping = false) :
    Stepped s .next { s with pc := .fork i }
  | enough {i} (pc : s.pc = .spawn i) : Stepped s .next { s with pc := .loop }
  | record {i pid} (pc : s.pc = .started i pid) : Stepped s .next
      { s with children := s.children.set i pid, live := s.live + 1, pc := .spawn (i + 1) }
  | done (pc : s.pc = .loop) (live : s.live = 0) :
    Stepped s .next { s with pc := .returned (if s.failed then 1 else 0) }
  | stop (pc : s.pc = .loop) (signalled : s.signalled = false) :
    Stepped s .next { s with pc := .kill 0 }
  | await (pc : s.pc = .loop) (seen : s.stopping = true → s.signalled = true) :
    Stepped s .next { s with pc := .wait }
  | signalled {i} (pc : s.pc = .kill i) (last : s.children[i]? = none) :
    Stepped s .next { s with signalled := true, pc := .wait }
  | skip {i} (pc : s.pc = .kill i) (free : s.children[i]? = some 0) :
    Stepped s .next { s with pc := .kill (i + 1) }
  | send {i pid} (pc : s.pc = .kill i) (recorded : s.children[i]? = some pid) :
    Stepped s .next { s.terminate pid with pc := .kill (i + 1) }
  | childless (pc : s.pc = .wait) : Stepped s .next { s with pc := .returned 1 }
  | block (pc : s.pc = .wait) (none : ∀ p ∈ s.processes, p.status = none) :
    Stepped s .next { s with pc := .blocked }
  | clear {pid status} (pc : s.pc = .reaped pid status) :
    Stepped s .next { (s.clear pid).note status with pc := .loop }
  | refused {i} (pc : s.pc = .fork i) : Stepped s (.fork none)
      { s with failed := true, stopping := true, pc := .loop, forkFailed := true }
  | forked {i pid} (pc : s.pc = .fork i) (positive : 0 < pid)
    (fresh : ∀ p ∈ s.processes, p.pid ≠ pid) : Stepped s (.fork (some pid))
      { s with processes := ⟨pid, none, false⟩ :: s.processes, pc := .started i pid }
  | reap {p status} (pc : s.pc = .wait ∨ s.pc = .blocked) (mem : p ∈ s.processes)
    (exited : p.status = some status) : Stepped s (.reap p.pid)
      { s with processes := s.processes.eraseP (·.pid == p.pid),
               statuses := status :: s.statuses, pc := .reaped p.pid status }
  | exit {pid status} : Stepped s (.exit pid status)
      { s with processes := s.processes.map fun p =>
        if p.pid = pid then { p with status := some status } else p }
  | interrupt (pc : s.pc = .blocked) : Stepped s .signal { s with stopping := true, pc := .loop }
  | signal (pc : s.pc ≠ .blocked) : Stepped s .signal { s with stopping := true }

variable {s s' : Supervisor} {e : SupervisorEvent}

theorem Supervisor.next_cases (h : s.next = some s') : s.Stepped .next s' := by
  unfold next at h
  cases hpc : s.pc with
  | spawn i =>
    rw [hpc] at h
    obtain rfl := Option.some_inj.mp h
    split
    next hmore => exact .more hpc hmore.1 (Bool.eq_false_iff.mpr hmore.2)
    next => exact .enough hpc
  | started i pid =>
    rw [hpc] at h
    obtain rfl := Option.some_inj.mp h
    exact .record hpc
  | loop =>
    rw [hpc] at h
    obtain rfl := Option.some_inj.mp h
    split
    next hlive => exact .done hpc hlive
    next =>
      split
      next hstop => exact .stop hpc (Bool.eq_false_iff.mpr hstop.2)
      next hseen =>
        -- the children were signalled, or there is no request
        refine .await hpc fun hstopping => ?_
        by_contra hsignalled
        exact hseen ⟨hstopping, hsignalled⟩
  | kill i =>
    rw [hpc] at h
    dsimp only at h
    split at h
    next hlast =>
      obtain rfl := Option.some_inj.mp h
      exact .signalled hpc hlast
    next pid hpid =>
      obtain rfl := Option.some_inj.mp h
      split
      next => exact .send hpc hpid
      next hzero =>
        -- a slot that is free
        rw [Decidable.not_not.mp hzero] at hpid
        exact .skip hpc hpid
  | wait =>
    rw [hpc] at h
    dsimp only at h
    split at h
    next =>
      -- `ECHILD`
      obtain rfl := Option.some_inj.mp h
      exact .childless hpc
    next =>
      split at h
      next => cases h
      next hnone =>
        obtain rfl := Option.some_inj.mp h
        refine .block hpc fun p hp => ?_
        rw [Bool.not_eq_true, List.any_eq_false] at hnone
        exact Option.not_isSome_iff_eq_none.mp (hnone p hp)
  | reaped pid status =>
    rw [hpc] at h
    obtain rfl := Option.some_inj.mp h
    exact .clear hpc
  | fork | blocked | returned =>
    rw [hpc] at h
    cases h

theorem Supervisor.reap_cases {pid : Int} (h : s.reap pid = some s')
    (hpc : s.pc = .wait ∨ s.pc = .blocked) : s.Stepped (.reap pid) s' := by
  rw [reap, Option.bind_eq_bind, Option.bind_eq_some_iff] at h
  obtain ⟨status, hzombie, h⟩ := h
  obtain rfl := Option.some_inj.mp h
  obtain ⟨p, hp, hstatus⟩ := Option.bind_eq_some_iff.mp hzombie
  have hpid := List.find?_some hp
  rw [beq_iff_eq] at hpid
  obtain rfl := hpid
  exact .reap hpc (List.mem_of_find?_eq_some hp) hstatus

theorem Supervisor.step_cases (h : s.step e = some s') : s.Stepped e s' := by
  cases e with
  | next => exact next_cases h
  | fork result =>
    unfold step at h
    dsimp only at h
    split at h
    next i hpc =>
      -- `fork` has failed
      obtain rfl := Option.some_inj.mp h
      exact .refused hpc
    next i pid hpc =>
      split at h
      next hfresh =>
        obtain rfl := Option.some_inj.mp h
        exact .forked hpc hfresh.1 hfresh.2
      next => cases h
    next => cases h
  | reap pid =>
    rw [step] at h
    split at h
    next hpc => exact reap_cases h (.inl hpc)
    next hpc => exact reap_cases h (.inr hpc)
    next => cases h
  | exit pid status =>
    rw [step] at h
    split at h
    next =>
      obtain rfl := Option.some_inj.mp h
      exact .exit
    next => cases h
  | signal =>
    rw [step] at h
    split at h
    next => cases h
    next hpc =>
      -- `waitpid` returns `EINTR`
      obtain rfl := Option.some_inj.mp h
      exact .interrupt hpc
    next hpc =>
      obtain rfl := Option.some_inj.mp h
      exact .signal hpc

/-! ## The children are accounted for -/

/-- A child that was forked and is not recorded yet. -/
def SupervisorPc.pending : SupervisorPc → List Int
  | .started _ pid => [pid]
  | _ => []

/-- A child that was reaped and is still recorded. -/
def SupervisorPc.stale : SupervisorPc → List Int
  | .reaped pid _ => [pid]
  | _ => []

/-- The slot of the next child. -/
def SupervisorPc.slot : SupervisorPc → Option Nat
  | .spawn i | .fork i | .started i _ => some i
  | _ => none

/-- The slot that a child is forked for. -/
def SupervisorPc.filling : SupervisorPc → Option Nat
  | .fork i | .started i _ => some i
  | _ => none

/-- The children that are recorded have been forked and not reaped, and `live` counts them. -/
structure Supervisor.Accounted (s : Supervisor) : Prop where
  positive : ∀ pid ∈ s.pc.stale ++ s.pids, 0 < pid
  agree : (s.pc.pending ++ recordedPids s.children).Perm (s.pc.stale ++ s.pids)
  live : s.live = (recordedPids s.children).length
  free : ∀ i, s.pc.slot = some i → ∀ j, i ≤ j → j < s.children.length → s.children[j]? = some 0
  room : ∀ i, s.pc.filling = some i → i < s.children.length

theorem Supervisor.accounted_start (count : Nat) : (Supervisor.start count).Accounted where
  positive _ h := absurd h List.not_mem_nil
  agree := by
    show (recordedPids (.replicate count 0)).Perm []
    rw [recordedPids_replicate]
  live := by
    show 0 = (recordedPids (.replicate count 0)).length
    rw [recordedPids_replicate, List.length_nil]
  free _ _ j _ hj := by
    show (List.replicate count (0 : Int))[j]? = some 0
    rw [start, List.length_replicate] at hj
    exact List.getElem?_replicate_of_lt hj
  room _ h := absurd h.symm (Option.some_ne_none _)

/-- A step that leaves the children alone. -/
theorem Supervisor.Accounted.of_eq (h : s.Accounted) (hchildren : s'.children = s.children)
    (hlive : s'.live = s.live) (hpids : s'.pids = s.pids)
    (hpending : s'.pc.pending = s.pc.pending) (hstale : s'.pc.stale = s.pc.stale)
    (hslot : ∀ i, s'.pc.slot = some i → s.pc.slot = some i)
    (hroom : ∀ i, s'.pc.filling = some i → i < s.children.length) : s'.Accounted where
  positive := by
    rw [hstale, hpids]
    exact h.positive
  agree := by
    rw [hpending, hstale, hchildren, hpids]
    exact h.agree
  live := by
    rw [hlive, hchildren]
    exact h.live
  free i hi := by
    rw [hchildren]
    exact h.free i (hslot i hi)
  room i hi := by
    rw [hchildren]
    exact hroom i hi

theorem Supervisor.pids_terminate (s : Supervisor) (pid : Int) : (s.terminate pid).pids = s.pids :=
  map_pid_map (fun p => by split <;> rfl) s.processes

theorem Supervisor.note_eq (s : Supervisor) (status : ExitStatus) :
    (s.note status).children = s.children ∧ (s.note status).live = s.live ∧
      (s.note status).processes = s.processes := by
  rw [note]
  split
  · exact ⟨rfl, rfl, rfl⟩
  · exact ⟨rfl, rfl, rfl⟩

theorem Supervisor.processes_clear (s : Supervisor) (pid : Int) :
    (s.clear pid).processes = s.processes := by
  rw [clear]
  split
  · rfl
  · rfl

/-- Every step keeps the account. -/
theorem Supervisor.Stepped.accounted (h : s.Stepped e s') (hs : s.Accounted) : s'.Accounted := by
  have hnone {P : Nat → Prop} (i : Nat) (hi : none = some i) : P i :=
    absurd hi.symm (Option.some_ne_none i)
  cases h with
  | more pc room =>
    refine hs.of_eq rfl rfl rfl (by rw [pc]; rfl) (by rw [pc]; rfl) (fun i hi => ?_)
      fun i hi => ?_
    · rw [pc]
      exact hi
    · exact Option.some_inj.mp hi ▸ room
  | enough pc => exact hs.of_eq rfl rfl rfl (by rw [pc]; rfl) (by rw [pc]; rfl) hnone hnone
  | @record i pid pc =>
    have hagree := hs.agree
    have hpositive := hs.positive
    rw [pc] at hagree hpositive
    -- the slot is still free, and a child has a positive pid
    have hi : s.children[i]? = some 0 :=
      hs.free i (by rw [pc]; rfl) i (Nat.le_refl i) (hs.room i (by rw [pc]; rfl))
    have hpid : pid ≠ 0 := Int.ne_of_gt
      (hpositive pid (hagree.subset (List.mem_append_left _ List.mem_cons_self)))
    have hset := recordedPids_set hi hpid
    refine ⟨hpositive, hset.trans hagree, ?_, fun k hk j hj hlength => ?_, hnone⟩
    · show s.live + 1 = (recordedPids (s.children.set i pid)).length
      rw [hset.length_eq, List.length_cons, hs.live]
    · obtain rfl := Option.some_inj.mp hk
      show (s.children.set i pid)[j]? = some 0
      rw [List.getElem?_set_ne (Nat.ne_of_lt hj)]
      rw [List.length_set] at hlength
      exact hs.free i (by rw [pc]; rfl) j (Nat.le_of_succ_le hj) hlength
  | done pc | stop pc | await pc | signalled pc | skip pc | childless pc | block pc | refused pc
  | interrupt pc =>
    exact hs.of_eq rfl rfl rfl (by rw [pc]; rfl) (by rw [pc]; rfl) hnone hnone
  | send pc =>
    exact hs.of_eq rfl rfl (s.pids_terminate _) (by rw [pc]; rfl) (by rw [pc]; rfl) hnone hnone
  -- `waitpid` has returned this child, which is recorded in one slot
  | @clear pid status pc =>
    have hagree := hs.agree
    have hpositive := hs.positive
    rw [pc] at hagree hpositive
    have hpid : pid ≠ 0 := Int.ne_of_gt (hpositive pid List.mem_cons_self)
    have hmem : pid ∈ s.children :=
      (mem_recordedPids.mp (hagree.symm.subset List.mem_cons_self)).1
    have hreplace := recordedPids_replace hpid hmem
    obtain ⟨hchildren, hlive, hprocesses⟩ := (s.clear pid).note_eq status
    have hclear : s.clear pid =
        { s with children := s.children.replace pid 0, live := s.live - 1 } := if_pos hmem
    have hpids : ((s.clear pid).note status).pids = s.pids := by
      rw [pids, hprocesses, processes_clear, pids]
    refine ⟨fun other hother => ?_, ?_, ?_, hnone, hnone⟩
    · have hother : other ∈ ((s.clear pid).note status).pids := hother
      rw [hpids] at hother
      exact hpositive other (List.mem_cons_of_mem pid hother)
    · show (recordedPids ((s.clear pid).note status).children).Perm ((s.clear pid).note status).pids
      rw [hpids, hchildren, hclear]
      exact (List.perm_cons pid).mp (hreplace.symm.trans hagree)
    · show ((s.clear pid).note status).live =
        (recordedPids ((s.clear pid).note status).children).length
      rw [hlive, hchildren, hclear]
      show s.live - 1 = _
      rw [hs.live, hreplace.length_eq, List.length_cons, Nat.add_sub_cancel]
  | @forked i pid pc positive fresh =>
    have hagree := hs.agree
    have hpositive := hs.positive
    rw [pc] at hagree hpositive
    -- the new child waits for its slot
    refine ⟨fun other hother => ?_, hagree.cons pid, hs.live, fun k hk => ?_, fun k hk => ?_⟩
    · obtain rfl | hother := List.mem_cons.mp hother
      · exact positive
      · exact hpositive other hother
    · exact hs.free k (by rw [pc]; exact hk)
    · exact hs.room k (by rw [pc]; exact hk)
  | @reap p status pc mem exited =>
    -- it is reaped while `waitpid` is called, so nothing else is pending
    have hpending : s.pc.pending = [] ∧ s.pc.stale = [] := by
      obtain pc | pc := pc
      · rw [pc]
        exact ⟨rfl, rfl⟩
      · rw [pc]
        exact ⟨rfl, rfl⟩
    have herase := map_pid_eraseP mem
    have hagree := hs.agree
    have hpositive := hs.positive
    rw [hpending.1, hpending.2] at hagree
    rw [hpending.2] at hpositive
    exact ⟨fun other hother => hpositive other (herase.symm.subset hother), hagree.trans herase,
      hs.live, hnone, hnone⟩
  | exit =>
    exact hs.of_eq rfl rfl (map_pid_map (fun p => by split <;> rfl) s.processes) rfl rfl
      (fun _ hi => hi) hs.room
  | signal => exact hs.of_eq rfl rfl rfl rfl rfl (fun _ hi => hi) hs.room

/-! ## Who was sent SIGTERM -/

/-- What the supervisor has sent: nothing before all children are forked, and SIGTERM to each of
them once it has signalled. -/
structure Supervisor.Signalling (s : Supervisor) : Prop where
  early : ∀ i, s.pc.slot = some i → s.signalled = false
  sent : s.signalled = true → ∀ p ∈ s.processes, p.terminated = true
  killing : ∀ i, s.pc = .kill i →
    ∀ p ∈ s.processes, p.terminated = true ∨ p.pid ∈ s.children.drop i

theorem Supervisor.signalling_start (count : Nat) : (Supervisor.start count).Signalling where
  early _ _ := rfl
  sent h := Bool.noConfusion h
  killing _ h := SupervisorPc.noConfusion h

/-- A recorded child is found in `children`. -/
theorem Supervisor.Accounted.mem_children (hs : s.Accounted) (hpc : s.pc = .loop)
    {p : ChildProcess} (hp : p ∈ s.processes) : p.pid ∈ s.children := by
  have hagree := hs.agree
  rw [hpc] at hagree
  exact (mem_recordedPids.mp (hagree.symm.subset (List.mem_map_of_mem hp))).1

theorem Supervisor.signalled_note (s : Supervisor) (status : ExitStatus) :
    (s.note status).signalled = s.signalled := by
  rw [note]
  split
  · rfl
  · rfl

theorem Supervisor.signalled_clear (s : Supervisor) (pid : Int) :
    (s.clear pid).signalled = s.signalled := by
  rw [clear]
  split
  · rfl
  · rfl

/-- Every step keeps what was sent. -/
theorem Supervisor.Stepped.signalling (h : s.Stepped e s') (haccount : s.Accounted)
    (hs : s.Signalling) : s'.Signalling := by
  have hslot {P : Nat → Prop} (i : Nat) (hi : none = some i) : P i :=
    absurd hi.symm (Option.some_ne_none i)
  have hkill {P : Nat → Prop} {pc : SupervisorPc} (hpc : ∀ i, pc ≠ .kill i) (i : Nat)
      (hi : pc = .kill i) : P i := absurd hi (hpc i)
  cases h with
  | more pc | record pc =>
    exact ⟨fun _ _ => hs.early _ (by rw [pc]; rfl), hs.sent,
      hkill fun _ => SupervisorPc.noConfusion⟩
  | enough pc | await pc | block pc | childless pc | done pc | refused pc | interrupt pc =>
    exact ⟨hslot, hs.sent, hkill fun _ => SupervisorPc.noConfusion⟩
  -- the scan begins: every child is ahead of it
  | stop pc signalled =>
    refine ⟨hslot, hs.sent, fun i hi p hp => .inr ?_⟩
    obtain rfl := SupervisorPc.kill.inj hi
    exact haccount.mem_children pc hp
  | @signalled i pc last =>
    refine ⟨hslot, fun _ p hp => ?_, hkill fun _ => SupervisorPc.noConfusion⟩
    -- the scan is over: nobody is ahead of it
    have hdrop : s.children.drop i = [] :=
      List.drop_eq_nil_of_le (List.getElem?_eq_none_iff.mp last)
    obtain hterminated | hmem := hs.killing i pc p hp
    · exact hterminated
    · rw [hdrop] at hmem
      exact absurd hmem List.not_mem_nil
  | @skip i pc free =>
    refine ⟨hslot, hs.sent, fun j hj p hp => ?_⟩
    obtain rfl := SupervisorPc.kill.inj hj
    obtain hterminated | hmem := hs.killing i pc p hp
    · exact .inl hterminated
    · -- a slot that is free is nobody's
      have hpositive : 0 < p.pid := by
        apply haccount.positive
        exact List.mem_append_right _ (List.mem_map_of_mem hp)
      obtain ⟨hi, hfree⟩ := List.getElem?_eq_some_iff.mp free
      rw [List.drop_eq_getElem_cons hi, hfree] at hmem
      exact .inr ((List.mem_cons.mp hmem).resolve_left (Int.ne_of_gt hpositive))
  | @send i pid pc recorded =>
    -- signalling keeps the children and their signals
    have hterminate {p : ChildProcess} (hp : p ∈ (s.terminate pid).processes) :
        ∃ q ∈ s.processes, p.pid = q.pid ∧ (q.terminated = true → p.terminated = true) ∧
          (q.pid = pid → p.terminated = true) := by
      obtain ⟨q, hq, rfl⟩ := List.mem_map.mp hp
      refine ⟨q, hq, ?_⟩
      split
      next => exact ⟨rfl, fun _ => rfl, fun _ => rfl⟩
      next hpid =>
        exact ⟨rfl, fun hold => hold, fun heq => absurd heq hpid⟩
    refine ⟨hslot, fun hsignalled p hp => ?_, fun j hj p hp => ?_⟩
    · obtain ⟨q, hq, -, hold, -⟩ := hterminate hp
      exact hold (hs.sent hsignalled q hq)
    · obtain rfl := SupervisorPc.kill.inj hj
      obtain ⟨q, hq, hpid, hold, hnew⟩ := hterminate hp
      obtain hterminated | hmem := hs.killing i pc q hq
      · -- it was signalled before
        exact .inl (hold hterminated)
      · -- it is in this slot, or ahead of it
        obtain ⟨hi, hrecorded⟩ := List.getElem?_eq_some_iff.mp recorded
        rw [List.drop_eq_getElem_cons hi, hrecorded] at hmem
        obtain heq | hmem := List.mem_cons.mp hmem
        · exact .inl (hnew heq)
        · rw [hpid]
          exact .inr hmem
  | clear pc =>
    refine ⟨hslot, fun hsignalled p hp => ?_, hkill fun _ => SupervisorPc.noConfusion⟩
    have hsignalled : ((s.clear _).note _).signalled = true := hsignalled
    rw [signalled_note, signalled_clear] at hsignalled
    have hp : p ∈ ((s.clear _).note _).processes := hp
    rw [(note_eq _ _).2.2, processes_clear] at hp
    exact hs.sent hsignalled p hp
  | forked pc =>
    -- nobody is signalled while children are forked
    have hearly : s.signalled = false := hs.early _ (by rw [pc]; rfl)
    refine ⟨fun _ _ => hearly, fun hsignalled => ?_, hkill fun _ => SupervisorPc.noConfusion⟩
    exact absurd (hearly.symm.trans hsignalled) Bool.false_ne_true
  | reap =>
    exact ⟨hslot, fun hsignalled p hp => hs.sent hsignalled p (List.mem_of_mem_eraseP hp),
      hkill fun _ => SupervisorPc.noConfusion⟩
  | @exit pid status =>
    -- exiting keeps the children and their signals
    have hexit {p : ChildProcess} (hp : p ∈ s.processes.map fun p =>
        if p.pid = pid then { p with status := some status } else p) :
        ∃ q ∈ s.processes, p.pid = q.pid ∧ p.terminated = q.terminated := by
      obtain ⟨q, hq, rfl⟩ := List.mem_map.mp hp
      refine ⟨q, hq, ?_⟩
      split
      · exact ⟨rfl, rfl⟩
      · exact ⟨rfl, rfl⟩
    refine ⟨hs.early, fun hsignalled p hp => ?_, fun i hi p hp => ?_⟩
    · obtain ⟨q, hq, -, hterminated⟩ := hexit hp
      rw [hterminated]
      exact hs.sent hsignalled q hq
    · obtain ⟨q, hq, hpid, hterminated⟩ := hexit hp
      rw [hterminated, hpid]
      exact hs.killing i hi q hq
  | signal => exact ⟨hs.early, hs.sent, hs.killing⟩

/-! ## Signals -/

/-- A child has exited and has not been reaped. -/
def Supervisor.HasZombie (s : Supervisor) : Prop := ∃ p ∈ s.processes, p.status.isSome = true

/-- No signal comes between the look at `stopping` and `waitpid`, unless the children were
signalled before or `waitpid` will not block. -/
def Supervisor.InTime (s : Supervisor) : SupervisorEvent → Prop
  | .signal => s.pc = .wait → s.signalled = true ∨ s.HasZombie
  | _ => True

/-- Where the supervisor waits, it has seen that it is to stop. -/
structure Supervisor.Seen (s : Supervisor) : Prop where
  wait : s.pc = .wait → s.stopping = true → s.signalled = true ∨ s.HasZombie
  blocked : s.pc = .blocked → s.stopping = true → s.signalled = true

theorem Supervisor.seen_start (count : Nat) : (Supervisor.start count).Seen where
  wait h := SupervisorPc.noConfusion h
  blocked h := SupervisorPc.noConfusion h

/-- A step after which the supervisor does not wait. -/
theorem Supervisor.Seen.of_ne (hwait : s.pc ≠ .wait) (hblocked : s.pc ≠ .blocked) : s.Seen :=
  ⟨fun h => absurd h hwait, fun h => absurd h hblocked⟩

/-- Every step in time keeps what was seen. -/
theorem Supervisor.Stepped.seen (h : s.Stepped e s') (hok : s.InTime e) (hs : s.Seen) :
    s'.Seen := by
  cases h with
  | await pc seen => exact ⟨fun _ hstopping => .inl (seen hstopping), SupervisorPc.noConfusion⟩
  | signalled => exact ⟨fun _ _ => .inl rfl, fun _ _ => rfl⟩
  | block pc none =>
    refine ⟨SupervisorPc.noConfusion, fun _ hstopping => ?_⟩
    obtain hsignalled | ⟨p, hp, hsome⟩ := hs.wait pc hstopping
    · exact hsignalled
    · rw [none p hp] at hsome
      cases hsome
  | @exit pid status =>
    refine ⟨fun hpc hstopping => ?_, hs.blocked⟩
    obtain hsignalled | ⟨p, hp, hsome⟩ := hs.wait hpc hstopping
    · exact .inl hsignalled
    · refine .inr ⟨_, List.mem_map_of_mem hp, ?_⟩
      split
      · rfl
      · exact hsome
  | signal pc =>
    refine ⟨fun hpc _ => ?_, fun hpc => absurd hpc pc⟩
    exact hok hpc
  | _ => exact .of_ne SupervisorPc.noConfusion SupervisorPc.noConfusion

/-! ## The result -/

/-- A failure is not forgotten. -/
structure Supervisor.Reported (s : Supervisor) : Prop where
  fork : s.forkFailed = true → s.failed = true
  status : ∀ status ∈ s.statuses, status.isFailure = true →
    s.failed = true ∨ ∃ pid, s.pc = .reaped pid status
  returned : s.pc = .returned 0 → s.live = 0 ∧ s.failed = false

theorem Supervisor.reported_start (count : Nat) : (Supervisor.start count).Reported where
  fork h := Bool.noConfusion h
  status _ h := absurd h List.not_mem_nil
  returned h := SupervisorPc.noConfusion h

theorem Supervisor.failed_note {status : ExitStatus} :
    (s.note status).failed = true ↔ s.failed = true ∨ status.isFailure = true := by
  rw [note]
  split
  next hfailure =>
    exact ⟨fun _ => .inr hfailure, fun _ => rfl⟩
  next hfailure =>
    rw [or_iff_left hfailure]

theorem Supervisor.clear_eq (s : Supervisor) (pid : Int) : (s.clear pid).failed = s.failed ∧
    (s.clear pid).statuses = s.statuses ∧ (s.clear pid).forkFailed = s.forkFailed := by
  rw [clear]
  split
  · exact ⟨rfl, rfl, rfl⟩
  · exact ⟨rfl, rfl, rfl⟩

theorem Supervisor.statuses_note (s : Supervisor) (status : ExitStatus) :
    (s.note status).statuses = s.statuses ∧ (s.note status).forkFailed = s.forkFailed := by
  rw [note]
  split
  · exact ⟨rfl, rfl⟩
  · exact ⟨rfl, rfl⟩

/-- A step that reaps nothing. -/
theorem Supervisor.Reported.of_eq (hs : s.Reported) (hfork : s'.forkFailed = s.forkFailed)
    (hfailed : s'.failed = s.failed) (hstatuses : s'.statuses = s.statuses)
    (hpc : ∀ pid status, s.pc = .reaped pid status → s'.pc = s.pc)
    (hreturned : s'.pc = .returned 0 → s'.live = 0 ∧ s'.failed = false) : s'.Reported where
  fork := by
    rw [hfork, hfailed]
    exact hs.fork
  status status hmem hfailure := by
    rw [hstatuses] at hmem
    rw [hfailed]
    obtain hfailed | ⟨pid, hreaped⟩ := hs.status status hmem hfailure
    · exact .inl hfailed
    · exact .inr ⟨pid, (hpc pid status hreaped).trans hreaped⟩
  returned := hreturned

/-- Every step keeps what has failed. -/
theorem Supervisor.Stepped.reported (h : s.Stepped e s') (hs : s.Reported) : s'.Reported := by
  have hpc {pc : SupervisorPc} (h : s.pc = pc) (hne : ∀ pid status, pc ≠ .reaped pid status)
      {P : Prop} (pid : Int) (status : ExitStatus) (hreaped : s.pc = .reaped pid status) : P :=
    absurd (h.symm.trans hreaped) (hne pid status)
  cases h with
  | done pc live =>
    refine hs.of_eq rfl rfl rfl (hpc pc fun _ _ => SupervisorPc.noConfusion) fun hreturned => ?_
    have hcode := SupervisorPc.returned.inj hreturned
    split at hcode
    next => cases hcode
    next hfailed =>
      exact ⟨live, Bool.eq_false_iff.mpr hfailed⟩
  | more pc | enough pc | record pc | stop pc | await pc | signalled pc | skip pc | send pc
  | block pc | forked pc | interrupt pc =>
    exact hs.of_eq rfl rfl rfl (hpc pc fun _ _ => SupervisorPc.noConfusion)
      SupervisorPc.noConfusion
  | childless pc =>
    refine hs.of_eq rfl rfl rfl (hpc pc fun _ _ => SupervisorPc.noConfusion) fun hreturned => ?_
    exact absurd (SupervisorPc.returned.inj hreturned) (by decide)
  | refused pc => exact ⟨fun _ => rfl, fun _ _ _ => .inl rfl, SupervisorPc.noConfusion⟩
  | @clear pid status pc =>
    obtain ⟨hfailed, hstatuses, hfork⟩ := s.clear_eq pid
    obtain ⟨hstatuses', hfork'⟩ := (s.clear pid).statuses_note status
    refine ⟨fun hforked => ?_, fun other hmem hfailure => .inl ?_, SupervisorPc.noConfusion⟩
    · have hforked : ((s.clear pid).note status).forkFailed = true := hforked
      rw [hfork', hfork] at hforked
      exact failed_note.mpr (.inl (hfailed.trans (hs.fork hforked)))
    · have hmem : other ∈ ((s.clear pid).note status).statuses := hmem
      rw [hstatuses', hstatuses] at hmem
      apply failed_note.mpr
      obtain hold | ⟨_, hreaped⟩ := hs.status other hmem hfailure
      · exact .inl (hfailed.trans hold)
      · obtain rfl := (SupervisorPc.reaped.inj (pc.symm.trans hreaped)).2
        exact .inr hfailure
  | @reap p status pc =>
    refine ⟨hs.fork, fun other hmem hfailure => ?_, SupervisorPc.noConfusion⟩
    obtain rfl | hmem := List.mem_cons.mp hmem
    · exact .inr ⟨p.pid, rfl⟩
    · obtain hfailed | ⟨pid, hreaped⟩ := hs.status other hmem hfailure
      · exact .inl hfailed
      · obtain pc | pc := pc
        · exact SupervisorPc.noConfusion (pc.symm.trans hreaped)
        · exact SupervisorPc.noConfusion (pc.symm.trans hreaped)
  | exit => exact hs.of_eq rfl rfl rfl (fun _ _ _ => rfl) hs.returned
  | signal => exact hs.of_eq rfl rfl rfl (fun _ _ _ => rfl) hs.returned

/-! ## Runs -/

/-- What holds in every state that the supervisor reaches. -/
structure Supervisor.Inv (s : Supervisor) : Prop where
  accounted : s.Accounted
  signalling : s.Signalling
  reported : s.Reported

theorem Supervisor.inv_run {count : Nat} {events : List SupervisorEvent}
    (h : runSteps step (start count) events = some s) : s.Inv := by
  refine runSteps_invariant (fun s e s' hs hstep => ?_)
    ⟨accounted_start count, signalling_start count, reported_start count⟩ h
  have hstepped := step_cases hstep
  exact ⟨hstepped.accounted hs.accounted, hstepped.signalling hs.accounted hs.signalling,
    hstepped.reported hs.reported⟩

/-- Stop requests reach the children. In every run of the supervisor, with any number of clients,
`live` counts the recorded children at every loop head, and they are those that have not been
reaped; it returns 0 only if no `fork` failed and every child exited with status 0. When every
signal comes in time, it never blocks while it is to stop and has a child it has not sent
SIGTERM. -/
theorem stop_requests_delivered {count : Nat} {events : List SupervisorEvent}
    (h : runSteps Supervisor.step (.start count) events = some s) :
    (StepsMeet Supervisor.step Supervisor.InTime (.start count) events → s.pc = .blocked →
      s.stopping = true → ∀ p ∈ s.processes, p.terminated = true) ∧
    (s.pc = .loop ∨ (∃ i, s.pc = .spawn i) → s.live = (recordedPids s.children).length ∧
      (recordedPids s.children).Perm s.pids) ∧
    (s.pc = .returned 0 → s.forkFailed = false ∧ s.processes = [] ∧
      ∀ status ∈ s.statuses, status = .exited 0) := by
  have hinv := Supervisor.inv_run h
  refine ⟨fun hok hpc hstopping => ?_, fun hpc => ⟨hinv.accounted.live, ?_⟩, fun hpc => ?_⟩
  · have hseen : s.Seen := runSteps_keep
      (fun s e s' hs hok hstep => (Supervisor.step_cases hstep).seen hok hs)
      (Supervisor.seen_start count) hok h
    exact hinv.signalling.sent (hseen.blocked hpc hstopping)
  · have hagree := hinv.accounted.agree
    obtain hpc | ⟨i, hpc⟩ := hpc
    · rw [hpc] at hagree
      exact hagree
    · rw [hpc] at hagree
      exact hagree
  · obtain ⟨hlive, hfailed⟩ := hinv.reported.returned hpc
    have hagree := hinv.accounted.agree
    rw [hpc] at hagree
    refine ⟨?_, ?_, fun status hstatus => ?_⟩
    · apply Bool.eq_false_iff.mpr
      intro hfork
      exact Bool.false_ne_true (hfailed.symm.trans (hinv.reported.fork hfork))
    · have hlength := hagree.length_eq
      rw [hinv.accounted.live] at hlive
      apply List.map_eq_nil_iff.mp
      exact List.length_eq_zero_iff.mp (hlength.symm.trans hlive)
    · have hsuccess : status.isFailure = false := by
        apply Bool.eq_false_iff.mpr
        intro hfailure
        obtain hbad | ⟨pid, hreaped⟩ := hinv.reported.status status hstatus hfailure
        · exact Bool.false_ne_true (hfailed.symm.trans hbad)
        · exact SupervisorPc.noConfusion (hpc.symm.trans hreaped)
      cases status with
      | signalled signal => cases hsuccess
      | exited code =>
        rw [ExitStatus.isFailure, bne_eq_false_iff_eq] at hsuccess
        rw [hsuccess]

/-- The second `fork` fails while the first child lives. -/
def refusedEvents : List SupervisorEvent :=
  [.next, .fork (some 5), .next, .next, .fork none, .next, .next, .next, .next, .next]

/-- The first child is sent SIGTERM before the supervisor blocks. -/
theorem stop_requests_delivered_refused : ∃ s,
    runSteps Supervisor.step (.start 2) refusedEvents = some s ∧ s.pc = .blocked ∧
      s.stopping = true ∧ ∀ p ∈ s.processes, p.terminated = true := by
  have hrun : (runSteps Supervisor.step (.start 2) refusedEvents).map
      (fun s => (s.pc, s.stopping)) = some (.blocked, true) := by decide +kernel
  obtain ⟨s, hs, hstate⟩ := Option.map_eq_some_iff.mp hrun
  obtain ⟨hpc, hstopping⟩ := Prod.mk.inj hstate
  refine ⟨s, hs, hpc, hstopping, (stop_requests_delivered hs).1 ?_ hpc hstopping⟩
  apply stepsMeet_of_keep (J := fun _ => True) (K := fun e => e ≠ .signal)
  · exact fun _ _ _ _ _ _ => trivial
  · intro s e _ he
    cases e with
    | signal => exact absurd rfl he
    | _ => trivial
  · decide
  · trivial

/-- A signal comes after the look at `stopping`: the supervisor blocks, and its child was sent
nothing. -/
theorem stop_request_lost : (runSteps Supervisor.step (.start 1) [.next, .fork (some 5), .next,
    .next, .next, .signal, .next]).map (fun s => (s.pc, s.stopping, s.processes)) =
      some (.blocked, true, [⟨5, none, false⟩]) := by decide +kernel

end HyperIoVm
