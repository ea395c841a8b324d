import Mathlib.Data.Multiset.AddSub
import Mathlib.Logic.Function.Basic
import HyperIoVm.GuestMemory

/-!
# The granule registry (`modules/guest-memory/granules.c`)

Pages of a guest are imported by granules of 2 MiB, and the granules are shared: a registry finds
the granule of an index, and counts who uses it. The last user to put a granule takes it out of the
registry, and a worker unmaps and releases it. Callers run `hyper_granule_get` and
`hyper_granules_put` at the same time, so the functions are the steps of one system: what is done
under `granules_lock` is one step, and so is every call of the kernel outside it.
-/

namespace HyperIoVm

/-- `SZ_2M`. -/
def sz2M : UInt64 := 2097152

/-- `HYPER_GRANULE_RETIRE_BATCH`. -/
def hyperGranuleRetireBatch : Nat := 32

/-! ## What the kernel keeps -/

/-- The calls that claim a range of 2 MiB, import its pages, and undo both. -/
inductive RegionCall where
  | requestMemRegion (start : UInt64)
  | memremapPages (start : UInt64)
  | memunmapPages (start : UInt64)
  | releaseMemRegion (start : UInt64)
  deriving DecidableEq, Repr

/-- What the module has of a range. -/
inductive RegionState where
  | free | claimed | imported
  deriving DecidableEq, Repr

def RegionCall.start : RegionCall → UInt64
  | .requestMemRegion start | .memremapPages start | .memunmapPages start
  | .releaseMemRegion start => start

/-- What the module has to have of the range when it makes the call. -/
def RegionCall.needs : RegionCall → RegionState
  | .requestMemRegion _ => .free
  | .memremapPages _ | .releaseMemRegion _ => .claimed
  | .memunmapPages _ => .imported

/-- What it has of the range then. -/
def RegionCall.leaves : RegionCall → RegionState
  | .requestMemRegion _ | .memunmapPages _ => .claimed
  | .memremapPages _ => .imported
  | .releaseMemRegion _ => .free

/-- What the module has of the range at `start` after these calls. -/
def regionAfter (calls : List RegionCall) (start : UInt64) : RegionState :=
  calls.foldl (fun region c => if c.start = start then c.leaves else region) .free

/-- Where the worker is in `granule_retire`. -/
inductive RetireCallback where
  | notRun | unmapping | releasing | ran
  deriving DecidableEq, Repr

/-- The `work_struct` of a granule. `notRun` is `ran` to Linux: neither runs. -/
structure RetireWork where
  pending : Bool := false
  callback : RetireCallback := .notRun
  deriving DecidableEq, Repr

/-- No worker has the work, nor will have it. -/
def RetireWork.idle (w : RetireWork) : Bool :=
  !w.pending && (w.callback = .notRun || w.callback = .ran)

/-- `struct hyper_granule`; `start` is `pgmap.range.start`. A user is an open device with a minor
number of its own, so that the `unsigned int` does not wrap. -/
structure Granule where
  start : UInt64
  users : Nat
  work : RetireWork := {}
  deriving DecidableEq, Repr

/-! ## The callers -/

/-- Where a round of the outer loop of `hyper_granules_put` stands, with the entries of the array
that belong to the round and are not passed. -/
inductive PutStage where
  | detach (entries : List (Option GranulePtr))
  | queueWork (queued unqueued : List (Option GranulePtr))
  | flushWork (unflushed : List (Option GranulePtr))
  | free (granule : GranulePtr) (unflushed : List (Option GranulePtr))
  deriving DecidableEq, Repr

/-- A `hyper_granules_put` that has not returned. The array `owned` is `passed`, what is in the
round, and `rest`. -/
structure GranulesPut where
  count : Nat
  passed : List (Option GranulePtr) := []
  stage : PutStage := .detach []
  rest : List GranulePtr
  /-- Nothing reads this: the ranges it has detached, and how many calls of the kernel there had
  been before. -/
  detached : List (UInt64 × Nat) := []
  deriving DecidableEq, Repr

def PutStage.entries : PutStage → List (Option GranulePtr)
  | .detach entries => entries
  | .queueWork queued unqueued => queued ++ unqueued
  | .flushWork unflushed => unflushed
  | .free granule unflushed => some granule :: unflushed

/-- The array. -/
def GranulesPut.owned (put : GranulesPut) : List (Option GranulePtr) :=
  put.passed ++ put.stage.entries ++ put.rest.map some

/-- A caller: the acquisitions that it holds, and the `hyper_granules_put` it is in. -/
structure GranuleCaller where
  held : Multiset GranulePtr := 0
  put : Option GranulesPut := none
  deriving DecidableEq

/-- The registry (`granules`), the memory behind the pointers, the work whose callbacks
`retirement_queue` runs, the calls of the kernel so far, and the callers. `fault`: something that is
not allocated was used, or something in use freed. -/
structure GranuleRegistry (ι : Type) where
  granules : UInt64 → Option GranulePtr := fun _ => none
  heap : GranulePtr → Option Granule := fun _ => none
  active : List GranulePtr := []
  calls : List RegionCall := []
  callers : ι → GranuleCaller := fun _ => {}
  fault : Bool := false

namespace GranuleRegistry

variable {ι : Type} [DecidableEq ι]

def kernel (s : GranuleRegistry ι) (c : RegionCall) : GranuleRegistry ι :=
  { s with calls := s.calls ++ [c] }

def setCaller (s : GranuleRegistry ι) (c : ι) (caller : GranuleCaller) : GranuleRegistry ι :=
  { s with callers := Function.update s.callers c caller }

def setPut (s : GranuleRegistry ι) (c : ι) (put : GranulesPut) : GranuleRegistry ι :=
  s.setCaller c { s.callers c with put := some put }

def setGranule (s : GranuleRegistry ι) (granule : GranulePtr) (g : Option Granule) :
    GranuleRegistry ι :=
  { s with heap := Function.update s.heap granule g }

/-- Write to a granule. -/
def modifyGranule (s : GranuleRegistry ι) (granule : GranulePtr) (f : Granule → Granule) :
    GranuleRegistry ι :=
  match s.heap granule with
  | none => { s with fault := true }
  | some g => s.setGranule granule (some (f g))

/-! ## `hyper_granule_get` -/

end GranuleRegistry

/-- How the kernel answers the calls of a `hyper_granule_get`. -/
structure GetAnswers where
  kzalloc : Option GranulePtr
  requestMemRegion : Bool
  memremapPages : Except KernelError Unit
  xaStore : Except KernelError Unit

namespace GranuleRegistry

variable {ι : Type} [DecidableEq ι]

/-- The kernel can answer so: it allocates what is not allocated, and grants a range once. -/
def Answers (s : GranuleRegistry ι) (index : UInt64) (answers : GetAnswers) : Prop :=
  (∀ granule ∈ answers.kzalloc, s.heap granule = none) ∧
    (answers.requestMemRegion = true → regionAfter s.calls (index * sz2M) = .free)

instance (s : GranuleRegistry ι) (index : UInt64) (answers : GetAnswers) :
    Decidable (s.Answers index answers) :=
  inferInstanceAs (Decidable (_ ∧ _))

/-- `hyper_granule_get`, under `granules_lock`. What fails frees the new granule again. -/
def hyperGranuleGet (s : GranuleRegistry ι) (index : UInt64) (answers : GetAnswers) :
    Except KernelError GranulePtr × GranuleRegistry ι :=
  match s.granules index with
  | some granule => (.ok granule, s.modifyGranule granule fun g => { g with users := g.users + 1 })
  | none =>
    match answers.kzalloc with
    | none => (.error .enomem, s)
    | some granule =>
      let start := index * sz2M
      if !answers.requestMemRegion then (.error .ebusy, s)
      else
        let s := s.kernel (.requestMemRegion start)
        match answers.memremapPages with
        | .error e => (.error e, s.kernel (.releaseMemRegion start))
        | .ok () =>
          let s := s.kernel (.memremapPages start)
          match answers.xaStore with
          | .error e =>
            (.error e, (s.kernel (.memunmapPages start)).kernel (.releaseMemRegion start))
          | .ok () => (.ok granule, { s.setGranule granule (some { start, users := 1 }) with
              granules := Function.update s.granules index (some granule) })

/-- A caller gets the granule of a page, `index` being `address / SZ_2M`. -/
def get (s : GranuleRegistry ι) (c : ι) (address : UInt64) (answers : GetAnswers) :
    Option (GranuleRegistry ι) :=
  if (s.callers c).put = none ∧ s.Answers (address / sz2M) answers then
    match s.hyperGranuleGet (address / sz2M) answers with
    | (.error _, s') => some s'
    | (.ok granule, s') =>
      some (s'.setCaller c { s'.callers c with held := granule ::ₘ (s'.callers c).held })
  else none

/-! ## `hyper_granules_put` -/

/-- A caller puts acquisitions that it holds. -/
def beginPut (s : GranuleRegistry ι) (c : ι) (owned : List GranulePtr) :
    Option (GranuleRegistry ι) :=
  if (s.callers c).put = none ∧ (owned : Multiset GranulePtr) ≤ (s.callers c).held then
    some (s.setCaller c {
      held := (s.callers c).held - owned
      put := some { count := owned.length, rest := owned } })
  else none

/-- One round of the loop under `granules_lock`. A count that is zero is not to be decremented. -/
def detachGranule (s : GranuleRegistry ι) (c : ι) (put : GranulesPut) (granule : GranulePtr)
    (entries : List (Option GranulePtr)) : GranuleRegistry ι :=
  match s.heap granule with
  | none => { s with fault := true }
  | some g =>
    if g.users = 0 then { s with fault := true }
    else
      let s := s.setGranule granule (some { g with users := g.users - 1 })
      if g.users - 1 ≠ 0 then s.setPut c { put with stage := .detach (entries ++ [none]) }
      else
        { s.setPut c { put with
            stage := .detach (entries ++ [some granule])
            detached := put.detached ++ [(g.start, s.calls.length)] } with
          granules := Function.update s.granules (g.start / sz2M) none }

/-- The loop under `granules_lock`: `rounds` more entries. -/
def detachGranules (c : ι) : (rounds : Nat) → GranuleRegistry ι → GranuleRegistry ι
  | 0, s => s
  | rounds + 1, s =>
    match (s.callers c).put with
    | some put =>
      match put.stage, put.rest with
      | .detach entries, granule :: rest =>
        detachGranules c rounds (s.detachGranule c { put with rest } granule entries)
      | _, _ => s
    | none => s

/-- The critical section. Then the round goes on with the entries it has. -/
def detachBatch (s : GranuleRegistry ι) (c : ι) (put : GranulesPut) : GranuleRegistry ι :=
  let s := detachGranules c (min put.rest.length hyperGranuleRetireBatch) s
  match (s.callers c).put with
  | some put => s.setPut c { put with stage := .queueWork [] put.stage.entries }
  | none => s

/-- `queue_work`: work that is pending is not queued again. -/
def queueWork (s : GranuleRegistry ι) (granule : GranulePtr) : GranuleRegistry ι :=
  s.modifyGranule granule fun g => { g with work := { g.work with pending := true } }

/-- `flush_work` returns when the work is neither pending nor running. -/
def flushWork (s : GranuleRegistry ι) (granule : GranulePtr) : Option (GranuleRegistry ι) :=
  match s.heap granule with
  | none => some { s with fault := true }
  | some g => if g.work.idle then some s else none

/-- `kfree` of a granule. -/
def kfree (s : GranuleRegistry ι) (granule : GranulePtr) : GranuleRegistry ι :=
  match s.heap granule with
  | none => { s with fault := true }
  | some g => if g.work.idle then s.setGranule granule none else { s with fault := true }

/-- What a caller in `hyper_granules_put` does next; `none` while `flush_work` waits. -/
def advance (s : GranuleRegistry ι) (c : ι) (put : GranulesPut) : Option (GranuleRegistry ι) :=
  match put.stage with
  | .detach entries =>
    -- `first < count`, or the function returns; the next round has no entries before its loop
    if put.rest = [] ∧ entries = [] then some (s.setCaller c { s.callers c with put := none })
    else some (s.detachBatch c put)
  | .queueWork queued [] => some (s.setPut c { put with stage := .flushWork queued })
  | .queueWork queued (none :: unqueued) =>
    some (s.setPut c { put with stage := .queueWork (queued ++ [none]) unqueued })
  | .queueWork queued (some granule :: unqueued) =>
    some ((s.queueWork granule).setPut c
      { put with stage := .queueWork (queued ++ [some granule]) unqueued })
  | .flushWork [] => some (s.setPut c { put with stage := .detach [] })
  | .flushWork (none :: unflushed) =>
    some (s.setPut c { put with passed := put.passed ++ [none], stage := .flushWork unflushed })
  | .flushWork (some granule :: unflushed) =>
    (s.flushWork granule).map (·.setPut c { put with stage := .free granule unflushed })
  | .free granule unflushed =>
    some ((s.kfree granule).setPut c
      { put with passed := put.passed ++ [none], stage := .flushWork unflushed })

/-! ## `granule_retire` -/

/-- A worker takes up work that is pending, in whatever order. `hyper_granules_init` allocates the
queue with `HYPER_GRANULE_RETIRE_BATCH` as the number of callbacks that run at a time. -/
def startWork (s : GranuleRegistry ι) (granule : GranulePtr) : Option (GranuleRegistry ι) :=
  match s.heap granule with
  | none => none
  | some g =>
    if s.active.length < hyperGranuleRetireBatch ∧ g.work.pending ∧
        (g.work.callback = .notRun ∨ g.work.callback = .ran) then
      some { s.setGranule granule
          (some { g with work := { pending := false, callback := .unmapping } }) with
        active := s.active ++ [granule] }
    else none

/-- The two calls of `granule_retire`. -/
def granuleRetire (s : GranuleRegistry ι) (granule : GranulePtr) : Option (GranuleRegistry ι) :=
  match s.heap granule with
  | none => none
  | some g =>
    match g.work.callback with
    | .unmapping => some ((s.kernel (.memunmapPages g.start)).setGranule granule
        (some { g with work := { g.work with callback := .releasing } }))
    | .releasing => some { (s.kernel (.releaseMemRegion g.start)).setGranule granule
          (some { g with work := { g.work with callback := .ran } }) with
        active := s.active.erase granule }
    | .notRun | .ran => none

end GranuleRegistry

/-! ## The system -/

/-- What happens next. -/
inductive GranuleAction (ι : Type) where
  | get (c : ι) (address : UInt64) (answers : GetAnswers)
  | put (c : ι) (owned : List GranulePtr)
  | advance (c : ι)
  | startWork (granule : GranulePtr)
  | granuleRetire (granule : GranulePtr)

/-- One step of a caller or a worker; `none` when it cannot be taken now. -/
def GranuleRegistry.step {ι : Type} [DecidableEq ι] (s : GranuleRegistry ι) :
    GranuleAction ι → Option (GranuleRegistry ι)
  | .get c address answers => s.get c address answers
  | .put c owned => s.beginPut c owned
  | .advance c => (s.callers c).put.bind (s.advance c)
  | .startWork granule => s.startWork granule
  | .granuleRetire granule => s.granuleRetire granule

end HyperIoVm
