/-!
# The supervisor (`service/hyper-io-supervisor.c`)

`main` from where its handlers are installed: it forks one child for each client, and waits for
them. SIGTERM and SIGINT run a handler that sets `stopping`, between any two steps. A handler that
runs while `waitpid` blocks makes it fail with EINTR; one that runs before `waitpid` has blocked
does not.
-/

namespace HyperIoVm

/-- What `waitpid` reports of a child. -/
inductive ExitStatus where
  | exited (code : UInt8)
  | signalled (signal : Nat)
  deriving DecidableEq, Repr

/-- `!WIFEXITED(status) || WEXITSTATUS(status)`. -/
def ExitStatus.isFailure : ExitStatus → Bool
  | .exited code => code != 0
  | .signalled _ => true

/-- A child that has not been reaped: how it ended, if it has, and whether it was sent SIGTERM. -/
structure ChildProcess where
  pid : Int
  status : Option ExitStatus := none
  terminated : Bool := false
  deriving DecidableEq, Repr

/-- What `main` does next. -/
inductive SupervisorPc where
  | spawn (i : Nat)
  | fork (i : Nat)
  | started (i : Nat) (pid : Int)
  | loop
  | kill (i : Nat)
  | wait
  | blocked
  | reaped (pid : Int) (status : ExitStatus)
  | returned (code : Int)
  deriving DecidableEq, Repr

/-- The variables of `main`, and outside of it the children, the statuses of those that were reaped,
and whether a `fork` failed. -/
structure Supervisor where
  pc : SupervisorPc := .spawn 0
  children : List Int
  live : Nat := 0
  stopping : Bool := false
  failed : Bool := false
  signalled : Bool := false
  processes : List ChildProcess := []
  statuses : List ExitStatus := []
  forkFailed : Bool := false
  deriving DecidableEq, Repr

/-- `main` once its handlers are installed. -/
def Supervisor.start (count : Nat) : Supervisor where
  children := .replicate count 0

/-- What happens next: a step of `main`, with the result of `fork` and of `waitpid` where it is one;
the exit of a child; or a signal. -/
inductive SupervisorEvent where
  | next
  | fork (pid : Option Int)
  | reap (pid : Int)
  | exit (pid : Int) (status : ExitStatus)
  | signal
  deriving DecidableEq, Repr

namespace Supervisor

/-- The child with this pid, if it has exited. -/
def zombie (s : Supervisor) (pid : Int) : Option ExitStatus :=
  (s.processes.find? (·.pid == pid)).bind (·.status)

/-- `kill(pid, SIGTERM)`. -/
def terminate (s : Supervisor) (pid : Int) : Supervisor :=
  { s with processes := s.processes.map fun p =>
      if p.pid = pid then { p with terminated := true } else p }

/-- `waitpid` returns a child that has exited. -/
def reap (s : Supervisor) (pid : Int) : Option Supervisor := do
  let status ← s.zombie pid
  return { s with processes := s.processes.eraseP (·.pid == pid),
                  statuses := status :: s.statuses, pc := .reaped pid status }

/-- A child is no longer recorded. -/
def clear (s : Supervisor) (pid : Int) : Supervisor :=
  if pid ∈ s.children then { s with children := s.children.replace pid 0, live := s.live - 1 }
  else s

/-- The failure of a child stops the others. -/
def note (s : Supervisor) (status : ExitStatus) : Supervisor :=
  if status.isFailure then { s with failed := true, stopping := true } else s

/-- One step of `main` that has no result from outside. -/
def next (s : Supervisor) : Option Supervisor :=
  match s.pc with
  | .spawn i =>
    some { s with pc := if i < s.children.length ∧ ¬ s.stopping then .fork i else .loop }
  | .fork _ => none
  | .started i pid =>
    some { s with children := s.children.set i pid, live := s.live + 1, pc := .spawn (i + 1) }
  | .loop =>
    some { s with pc := if s.live = 0 then .returned (if s.failed then 1 else 0)
                        else if s.stopping ∧ ¬ s.signalled then .kill 0 else .wait }
  | .kill i =>
    match s.children[i]? with
    | none => some { s with signalled := true, pc := .wait }
    | some pid => some { (if pid ≠ 0 then s.terminate pid else s) with pc := .kill (i + 1) }
  | .wait =>
    if s.processes = [] then some { s with pc := .returned 1 }  -- ECHILD
    else if s.processes.any (·.status.isSome) then none
    else some { s with pc := .blocked }
  | .blocked => none
  | .reaped pid status => some { (s.clear pid).note status with pc := .loop }
  | .returned _ => none

/-- One step. -/
def step (s : Supervisor) : SupervisorEvent → Option Supervisor
  | .next => s.next
  | .fork result =>
    match s.pc, result with
    | .fork _, none =>
      some { s with failed := true, stopping := true, pc := .loop, forkFailed := true }
    | .fork i, some pid =>
      if 0 < pid ∧ ∀ p ∈ s.processes, p.pid ≠ pid then
        some { s with processes := ⟨pid, none, false⟩ :: s.processes, pc := .started i pid }
      else none
    | _, _ => none
  | .reap pid =>
    match s.pc with
    | .wait | .blocked => s.reap pid
    | _ => none
  | .exit pid status =>
    if ∃ p ∈ s.processes, p.pid = pid ∧ p.status = none then
      some { s with processes := s.processes.map fun p =>
        if p.pid = pid then { p with status := some status } else p }
    else none
  | .signal =>
    match s.pc with
    | .returned _ => none
    | .blocked => some { s with stopping := true, pc := .loop }  -- EINTR
    | _ => some { s with stopping := true }

end Supervisor

end HyperIoVm
