import Mathlib.Logic.Function.Basic
import HyperIoVm.Assemble
import HyperIoVm.Data.Steps

/-!
# Publication of a generation (`scripts/assemble-io-vm.py`)

Any number of runs publish into one output directory at the same time. Every file-system operation
of `publish` is a step of its own, and any of them may raise, or be the last one before the run is
stopped. `os.replace` is atomic.
-/

namespace HyperIoVm

open Data

/-! ## The directory -/

/-- The files of the output directory: what each name refers to, and what is in it. -/
structure Directory where
  files : String → Option Nat
  contents : Nat → Bytes
  inodes : Nat
  bound : ∀ name inode, files name = some inode → inode < inodes

namespace Directory

/-- What a file holds when it is opened by its name. -/
def read (d : Directory) (name : String) : Option Bytes := (d.files name).map d.contents

/-- Create a file that does not exist yet. -/
def create (d : Directory) (name : String) : Directory where
  files := Function.update d.files name (some d.inodes)
  contents := Function.update d.contents d.inodes []
  inodes := d.inodes + 1
  bound other inode h := by
    by_cases hname : other = name
    · rw [hname, Function.update_self] at h
      obtain rfl := Option.some_inj.mp h
      exact Nat.lt_succ_self _
    · rw [Function.update_of_ne hname] at h
      exact Nat.lt_succ_of_lt (d.bound other inode h)

/-- Write to an open file. -/
def write (d : Directory) (inode : Nat) (data : Bytes) : Directory :=
  { d with contents := Function.update d.contents inode data }

/-- `os.replace`. -/
def replace (d : Directory) (name path : String) : Directory where
  files := Function.update (Function.update d.files path (d.files name)) name none
  contents := d.contents
  inodes := d.inodes
  bound other inode h := by
    by_cases hname : other = name
    · rw [hname, Function.update_self] at h
      cases h
    · rw [Function.update_of_ne hname] at h
      by_cases hpath : other = path
      · rw [hpath, Function.update_self] at h
        exact d.bound name inode h
      · rw [Function.update_of_ne hpath] at h
        exact d.bound other inode h

/-- `unlink(missing_ok=True)`. -/
def unlink (d : Directory) (name : String) : Directory where
  files := Function.update d.files name none
  contents := d.contents
  inodes := d.inodes
  bound other inode h := by
    by_cases hname : other = name
    · rw [hname, Function.update_self] at h
      cases h
    · rw [Function.update_of_ne hname] at h
      exact d.bound other inode h

@[simp] theorem files_create (d : Directory) (name other : String) : (d.create name).files other =
    if other = name then some d.inodes else d.files other := Function.update_apply ..

@[simp] theorem files_replace (d : Directory) (name path other : String) :
    (d.replace name path).files other =
      if other = name then none else if other = path then d.files name else d.files other := by
  show Function.update (Function.update d.files path (d.files name)) name none other = _
  rw [Function.update_apply, Function.update_apply]

@[simp] theorem files_unlink (d : Directory) (name other : String) : (d.unlink name).files other =
    if other = name then none else d.files other := Function.update_apply ..

end Directory

/-! ## Runs -/

/-- The files a run publishes, in their order. -/
inductive Artifact where
  | image | ramdisk | manifest
  deriving DecidableEq, Repr

def manifestName : String := "boot-artifacts.json"

/-- The path and the contents of a file. -/
def Generation.file (g : Generation) : Artifact → String × Bytes
  | .image => (g.imageName, g.image)
  | .ramdisk => (g.ramdiskName, g.ramdisk)
  | .manifest => (manifestName, g.manifest)

/-- Where a run is. `mkdir` to `unlink` are the operations of `publish` that come next; `unlink`
says whether the file was replaced. -/
inductive Phase where
  | mkdir (a : Artifact)
  | check (a : Artifact)
  | stat (a : Artifact)
  | read (a : Artifact)
  | create (a : Artifact)
  | write (a : Artifact) (temporary : String) (inode written : Nat)
  | replace (a : Artifact) (temporary : String) (inode : Nat)
  | unlink (a : Artifact) (temporary : String) (replaced : Bool)
  | finished
  | failed
  | stopped
  deriving DecidableEq, Repr

/-- `publish` returns: the next file follows. -/
def Artifact.done : Artifact → Phase
  | .image => .mkdir .ramdisk
  | .ramdisk => .mkdir .manifest
  | .manifest => .finished

/-- What happens next in a run: its next operation, with the name that `tempfile` picks and with the
bytes that are written at a time; an exception; or its end from outside. -/
inductive Move where
  | next
  | create (temporary : String)
  | write (count : Nat)
  | raise
  | stop
  deriving DecidableEq, Repr

/-- The names that `tempfile` picks from. -/
def isTemporary (name : String) : Bool := name.toList.take 3 == ['t', 'm', 'p']

/-- One operation of `publish`. -/
def publishMove (g : Generation) (d : Directory) : Phase → Move → Option (Directory × Phase)
  | .finished, _ | .failed, _ | .stopped, _ => none
  | _, .stop => some (d, .stopped)
  | .mkdir a, .next => some (d, .check a)
  | .check a, .next => some (d, if (d.files (g.file a).1).isSome then .stat a else .create a)
  | .stat a, .next =>
    match d.read (g.file a).1 with
    | none => some (d, .failed)
    | some data => some (d, if data.length = (g.file a).2.length then .read a else .create a)
  | .read a, .next =>
    match d.read (g.file a).1 with
    | none => some (d, .failed)
    | some data =>
      some (d, if data.length > (g.file a).2.length then .failed
        else if data = (g.file a).2 then a.done else .create a)
  | .create a, .create temporary =>
    if isTemporary temporary ∧ d.files temporary = none then
      some (d.create temporary, .write a temporary d.inodes 0)
    else none
  | .write a temporary inode written, .write count =>
    some (d.write inode ((g.file a).2.take (written + count)),
      .write a temporary inode (written + count))
  | .write a temporary inode written, .next =>
    if (g.file a).2.length ≤ written then some (d, .replace a temporary inode) else none
  | .replace a temporary _, .next =>
    if (d.files temporary).isSome then
      some (d.replace temporary (g.file a).1, .unlink a temporary true)
    else some (d, .unlink a temporary false)
  | .unlink a temporary replaced, .next =>
    some (d.unlink temporary, if replaced then a.done else .failed)
  | .write a temporary _ _, .raise | .replace a temporary _, .raise =>
    some (d, .unlink a temporary false)
  | .mkdir _, .raise | .check _, .raise | .stat _, .raise | .read _, .raise | .create _, .raise
  | .unlink _ _ _, .raise => some (d, .failed)
  | _, _ => none

/-- The last step of a run has been made: its manifest is in place. -/
def Phase.reached : Phase → Bool
  | .unlink .manifest _ true | .finished => true
  | _ => false

/-- A run, and whether it has ever reached its last step. -/
structure PublishRun where
  phase : Phase := .mkdir .image
  reached : Bool := false

/-- The directory and the runs. -/
structure Publishing where
  directory : Directory
  runs : Nat → PublishRun

/-- One step of a run. A run whose assembly raised has no step. -/
def publishStep (outputs : Nat → Option Generation) (s : Publishing) (step : Nat × Move) :
    Option Publishing := do
  let g ← outputs step.1
  let run := s.runs step.1
  let (directory, phase) ← publishMove g s.directory run.phase step.2
  return { directory,
           runs := Function.update s.runs step.1 ⟨phase, run.reached || phase.reached⟩ }

end HyperIoVm
