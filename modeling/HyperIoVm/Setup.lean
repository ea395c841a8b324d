import HyperIoVm.Service

/-!
# Start of a managed service (`main` of `service/hyper-io-service.c`)

What `main` has established when it enters the control loop, and the process from there to
its exit. A managed service is the block owner, or a client with storage, networking or
both; the notification routes were opened separately, so their descriptors differ.
-/

namespace HyperIoVm

open Effects

/-- The storage device of a client: its target name and its notification route. -/
structure StorageSetup where
  wwpn : String
  wwpn_ne : wwpn ≠ ""
  notification : Fd

/-- The network device of a client. -/
structure NetworkSetup where
  bridge : String
  mac : Bytes
  mac_length : mac.length = 6
  notification : Fd

/-- The role of the service. -/
inductive Role where
  | owner (clients : Fin 128 → Bool)
  | client (storage : Option StorageSetup) (network : Option NetworkSetup)
      (distinct : ∀ s ∈ storage, ∀ n ∈ network, s.notification ≠ n.notification)

/-- The arguments of a managed service, checked by `main`. -/
structure Setup where
  memoryPath : String
  scsi : ScsiResources := ⟨4, 128⟩
  netResources : NetworkResources := ⟨1000, 0⟩
  role : Role

/-- The backend `main` hands to `serve`. -/
def Setup.backend (setup : Setup) : Backend :=
  let b : Backend :=
    { managed := true, memoryPath := setup.memoryPath, scsi := setup.scsi,
      netResources := setup.netResources }
  match setup.role with
  | .owner clients => { b with blocks := some { clients } }
  | .client storage network _ =>
    { b with
      wwpn := (storage.map (·.wwpn)).getD ""
      disk := { notification := storage.map (·.notification) }
      network := network.isSome
      bridge := (network.map (·.bridge)).getD ""
      mac := (network.map (·.mac)).getD b.mac
      net := { notification := network.map (·.notification) } }

/-- What `main` has opened in its three-argument mode: one client with storage at most, whose
memory is mapped before the control loop starts, or not at all when it stands by. -/
structure Standalone where
  memoryPath : String
  wwpn : String
  notification : Option Fd
  memory : Option (Fd × UInt64 × MemoryInfo)

/-- The backend a standalone service hands to `serve`. -/
def Standalone.backend (fixture : Standalone) : Backend where
  managed := false
  memoryPath := fixture.memoryPath
  wwpn := fixture.wwpn
  disk := { notification := fixture.notification }
  memoryFd := fixture.memory.map fun memory => memory.1
  memory := fixture.memory.map fun memory => memory.2.1
  region := (fixture.memory.map fun memory => memory.2.2).getD ⟨0, 0⟩

/-- The two ways `main` starts the control loop. -/
inductive Start where
  | managed (setup : Setup)
  | standalone (fixture : Standalone)

def Start.backend : Start → Backend
  | .managed setup => setup.backend
  | .standalone fixture => fixture.backend

/-- The operation that starts a binding of the service. -/
def Setup.hello (setup : Setup) : Operation :=
  match setup.role with
  | .owner _ => .blockHello
  | .client (some _) _ _ => .hello
  | .client none _ _ => .networkHello

/-- The state in which `serve` starts. -/
def Setup.serving (setup : Setup) : Serving := { backend := setup.backend }

def Start.serving (start : Start) : Serving := { backend := start.backend }

/-- The service process: the control loop, then the final release. A release that fails
leaves the process waiting for ever with everything it holds. -/
def serviceMain (setup : Setup) (inbox : List (Bytes × Taken)) :
    Program Sys (Status × Backend) := do
  let (_, s) ← serve setup.serving inbox
  releaseMemory.run s.backend

/-! ## Turns -/

/-- One record of a run: the state before it, the record, the reply, the system calls made
for it and the state after it. -/
structure Turn where
  before : Serving
  record : Bytes
  served : Served
  events : List (Event Sys)
  after : Serving

/-- The turns of the control loop over a sequence of records, up to the first one that is
not well framed. -/
def turns (env : Environment Sys) : List (Event Sys) → Serving → List Bytes → List Turn
  | _, _, [] => []
  | past, s, m :: ms =>
    if wellFramed m then
      let r := (serveRecord s m).exec env past
      ⟨s, m, r.1.1, r.2, r.1.2⟩ :: turns env (past ++ r.2) r.1.2 ms
    else []

/-- All system calls of a sequence of turns, in order. -/
def turnEvents (ts : List Turn) : List (Event Sys) := ts.flatMap (·.events)

@[simp] theorem turnEvents_nil : turnEvents [] = [] := rfl

@[simp] theorem turnEvents_cons (t : Turn) (ts : List Turn) :
    turnEvents (t :: ts) = t.events ++ turnEvents ts := rfl

@[simp] theorem turnEvents_append (ts us : List Turn) :
    turnEvents (ts ++ us) = turnEvents ts ++ turnEvents us := List.flatMap_append

/-! ### The control loop as turns -/

/-- The records a channel delivers: up to the first one whose reply is not written whole. -/
def delivered : List (Bytes × Taken) → List Bytes
  | [] => []
  | (m, .written) :: rest => m :: delivered rest
  | (m, _) :: _ => [m]

/-- The state after a sequence of turns that started in `s`. -/
def endState (s : Serving) (ts : List Turn) : Serving := ts.foldl (fun _ t => t.after) s

/-- `serve` makes the turns of the records it is delivered, and no other call. -/
theorem serve_exec (env : Environment Sys) (past : List (Event Sys)) (s : Serving)
    (inbox : List (Bytes × Taken)) :
    ((serve s inbox).exec env past).2 = turnEvents (turns env past s (delivered inbox)) ∧
      ((serve s inbox).exec env past).1.2 = endState s (turns env past s (delivered inbox)) := by
  induction inbox generalizing past s with
  | nil => exact ⟨rfl, rfl⟩
  | cons record rest ih =>
    obtain ⟨m, taken⟩ := record
    by_cases hframed : wellFramed m = true
    · cases taken <;>
        simp [serve, delivered, turns, hframed, Program.exec_bind, endState, ih]
    · cases taken <;> simp [serve, delivered, turns, hframed, endState]

/-- Every turn is one execution of `serveRecord` on a well-framed record. -/
theorem turns_exec {env : Environment Sys} {past : List (Event Sys)} {s : Serving}
    {ms : List Bytes} {t : Turn} (ht : t ∈ turns env past s ms) :
    wellFramed t.record = true ∧ ∃ past',
      (serveRecord t.before t.record).exec env past' = ((t.served, t.after), t.events) := by
  induction ms generalizing past s with
  | nil => simp [turns] at ht
  | cons m ms ih =>
    rw [turns] at ht
    split at ht
    next hframed =>
      rcases List.mem_cons.mp ht with rfl | ht
      · exact ⟨hframed, past, rfl⟩
      · exact ih ht
    next => simp at ht

/-- What follows a turn is a run from the state the turn left. -/
theorem turns_after {env : Environment Sys} {past : List (Event Sys)} {s : Serving}
    {ms : List Bytes} {pre : List Turn} {t : Turn} {post : List Turn}
    (hts : turns env past s ms = pre ++ t :: post) :
    ∃ past' ms', post = turns env past' t.after ms' := by
  induction ms generalizing past s pre with
  | nil => simp [turns] at hts
  | cons m ms ih =>
    rw [turns] at hts
    split at hts
    · cases pre with
      | nil =>
        obtain ⟨rfl, rfl⟩ := List.cons.inj hts
        exact ⟨_, _, rfl⟩
      | cons t' pre => exact ih (List.cons.inj hts).2
    · simp at hts

/-- The first turn of a run starts in the state the run starts in. -/
theorem turns_head {env : Environment Sys} {past : List (Event Sys)} {s : Serving}
    {ms : List Bytes} {t : Turn} {post : List Turn} (hts : turns env past s ms = t :: post) :
    t.before = s := by
  cases ms with
  | nil => simp [turns] at hts
  | cons m ms =>
    rw [turns] at hts
    split at hts
    · rw [← (List.cons.inj hts).1]
    · simp at hts

/-- A property of the state that holds at the start of a run, and that each of its first turns
keeps, holds before the next turn. -/
theorem turns_keep {P : Serving → Prop} {env : Environment Sys} {past : List (Event Sys)}
    {s : Serving} {ms : List Bytes} {mid : List Turn} {u : Turn} {post : List Turn} (hs : P s)
    (hts : turns env past s ms = mid ++ u :: post)
    (hkeep : ∀ v ∈ mid, P v.before → P v.after) : P u.before := by
  induction mid generalizing past s ms with
  | nil => rw [turns_head hts]; exact hs
  | cons v mid ih =>
    obtain ⟨past', ms', hrest⟩ :=
      turns_after (show turns env past s ms = [] ++ v :: (mid ++ u :: post) from hts)
    have hv : P v.after := hkeep v List.mem_cons_self (turns_head hts ▸ hs)
    exact ih hv hrest.symm fun v hv => hkeep v (List.mem_cons_of_mem _ hv)

section Rules

variable {K : Type} {C : Contract Sys K} {env : Environment Sys}

/-- The invariant rule of the control loop. If a round keeps `J` and establishes `R`, then in
every run from a state with `J`, each turn obeys the contract, starts and ends in `J`, and
satisfies `R`. -/
theorem turns_wp {J : Serving → K → Prop} {R : Serving → K → Bytes → Served → Serving → K → Prop}
    (hround : ∀ s k m, wellFramed m → J s k →
      (serveRecord s m).wp C (fun r k' => J r.2 k' ∧ R s k m r.1 r.2 k') k)
    {past : List (Event Sys)} {s : Serving} {ms : List Bytes} {k : K} (hJ : J s k)
    (hassumed : C.Assumed k (turnEvents (turns env past s ms)))
    {pre : List Turn} {t : Turn} {post : List Turn} (hts : turns env past s ms = pre ++ t :: post) :
    J t.before (C.after k (turnEvents pre)) ∧
      C.Obeyed (C.after k (turnEvents pre)) t.events ∧
      J t.after (C.after k (turnEvents (pre ++ [t]))) ∧
      R t.before (C.after k (turnEvents pre)) t.record t.served t.after
        (C.after k (turnEvents (pre ++ [t]))) := by
  induction ms generalizing past s k pre with
  | nil => simp [turns] at hts
  | cons m ms ih =>
    rw [turns] at hts hassumed
    split at hts
    next hframed =>
      rw [if_pos hframed, turnEvents_cons, C.assumed_append] at hassumed
      obtain ⟨hobeyed, hJ', hR⟩ := Program.wp_exec env past (hround s k m hframed hJ) hassumed.1
      cases pre with
      | nil =>
        obtain ⟨rfl, -⟩ := List.cons.inj hts
        simpa using ⟨hJ, hobeyed, hJ', hR⟩
      | cons t' pre =>
        obtain ⟨rfl, hrest⟩ := List.cons.inj hts
        simpa using ih hJ' hassumed.2 hrest
    next => simp at hts

/-- The state a run ends in satisfies the invariant too. -/
theorem turns_end_wp {J : Serving → K → Prop}
    (hround : ∀ s k m, wellFramed m → J s k → (serveRecord s m).wp C (fun r k' => J r.2 k') k)
    {past : List (Event Sys)} {s : Serving} {ms : List Bytes} {k : K} (hJ : J s k)
    (hassumed : C.Assumed k (turnEvents (turns env past s ms))) :
    C.Obeyed k (turnEvents (turns env past s ms)) ∧
      J (endState s (turns env past s ms)) (C.after k (turnEvents (turns env past s ms))) := by
  induction ms generalizing past s k with
  | nil => exact ⟨trivial, hJ⟩
  | cons m ms ih =>
    rw [turns] at hassumed ⊢
    split
    next hframed =>
      rw [if_pos hframed, turnEvents_cons, C.assumed_append] at hassumed
      obtain ⟨hobeyed, hJ'⟩ := Program.wp_exec env past (hround s k m hframed hJ) hassumed.1
      rw [turnEvents_cons, C.obeyed_append, C.after_append]
      obtain ⟨hobeyed', hend⟩ := ih hJ' hassumed.2
      exact ⟨⟨hobeyed, hobeyed'⟩, hend⟩
    next => exact ⟨trivial, hJ⟩

end Rules

end HyperIoVm
