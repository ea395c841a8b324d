import HyperIoVm.Frame

/-!
# What each operation may touch

Every function of the service is confined to some parts of the backend, on every path and for
every outcome of its calls. The parts of an operation follow from those of the functions it
runs.
-/

namespace HyperIoVm

open Effects Routine

/-! ## Confined computations -/

/-- On every path, and whatever its calls answer, `m` stays within the parts `ps`. -/
def Confined {α : Type} (ps : List Part) (m : Service α) : Prop :=
  ∀ b₀, Keeps (.free Sys) (fun b _ => Within ps b₀ b) m

namespace Confined

variable {ps qs : List Part} {α β ι : Type} {m : Service α} {f : α → Service β}

theorem wp (h : Confined ps m) (b : Backend) :
    m.wp (.free Sys) (fun _ b' _ => Within ps b b') b () := h b b () (.refl ps b)

/-- It is enough to look at runs from each state on its own. -/
theorem of_wp (h : ∀ b, m.wp (.free Sys) (fun _ b' _ => Within ps b b') b ()) : Confined ps m :=
  fun _ b _ hb => wp_mono (h b) fun _ _ _ hb' => hb.trans hb'

theorem mono (h : Confined ps m) (hps : ∀ p ∈ ps, p ∈ qs) : Confined qs m :=
  of_wp fun b => wp_mono (h.wp b) fun _ _ _ hb => hb.mono hps

theorem pure (a : α) : Confined ps (Pure.pure a : Service α) := fun _ => keeps_pure a

/-- A silent computation touches no part. -/
theorem of_silent (h : Silent m) : Confined ps m :=
  of_wp fun b => wp_mono (h.wp_of (fun _ _ _ => trivial) (fun _ _ _ _ => rfl) b ())
    fun _ _ _ hb => hb.2.mono (by simp)

theorem bind (hm : Confined ps m) (hf : ∀ a, Confined ps (f a)) : Confined ps (m >>= f) :=
  fun b₀ => keeps_bind (hm b₀) fun a => hf a b₀

theorem ite {p : Prop} [Decidable p] {m' : Service α} (h : Confined ps m) (h' : Confined ps m') :
    Confined ps (if p then m else m') := fun b₀ => keeps_ite (fun _ => h b₀) fun _ => h' b₀

theorem get : Confined ps (MonadState.get : Service Backend) := fun _ => keeps_get

theorem sys (c : Call) : Confined ps (sys c) := fun _ =>
  keeps_perform (fun _ _ _ => trivial) fun _ _ _ h => h

theorem modify {g : Backend → Backend} (h : ∀ b, Within ps b (g b)) :
    Confined ps (modify g : Service Unit) := fun _ =>
  keeps_modify fun b _ hb => hb.trans (h b)

theorem forM {l : List ι} {f : ι → Service PUnit} (h : ∀ i, Confined ps (f i)) :
    Confined ps (forM l f) := fun b₀ => keeps_forM fun i => h i b₀

theorem diagnostic : Confined ps diagnostic := modify fun b => .diagnostic ps b

theorem ioctl (fd : Option Fd) (command : Command) : Confined ps (ioctl fd command) := by
  cases fd with
  | none => exact pure _
  | some fd => exact sys _

theorem closeIfOpen (fd : Option Fd) : Confined ps (closeIfOpen fd) := by
  cases fd with
  | none => exact pure _
  | some fd => exact (sys _).bind fun _ => pure _

theorem firstFailure {ms : List (Service Outcome)} (h : ∀ m ∈ ms, Confined ps m) :
    Confined ps (firstFailure ms) := by
  induction ms with
  | nil => exact pure _
  | cons m ms ih =>
    refine (h m (by simp)).bind fun r => ite (pure _) ?_
    exact ih fun m' hm' => h m' (by simp [hm'])

theorem modifyEndpoint (d : Device) {g : Endpoint → Endpoint}
    (hg : ∀ e, (g e).notification = e.notification) : Confined [d.part] (modifyEndpoint d g) :=
  modify fun b => within_setEndpoint d b _ (hg _)

end Confined

/-! ## The devices -/

theorem endpointUnbind_confined (d : Device) : Confined [d.part] (endpointUnbind d) :=
  .bind .get fun _ => .ite (.pure _) <| .bind (.ioctl _ _) fun _ => .ite (.pure _) <|
    .bind (.modifyEndpoint d fun _ => rfl) fun _ => .pure _

theorem closeQueue_confined (d : Device) (i : Fin 6) : Confined [d.part] (closeQueue d i) :=
  .bind .get fun _ => .bind (.closeIfOpen _) fun _ => .bind (.closeIfOpen _) fun _ =>
    .modifyEndpoint d fun _ => rfl

theorem endpointClose_confined (d : Device) : Confined [d.part] (endpointClose d) :=
  .bind .get fun _ => .bind (.closeIfOpen _) fun _ =>
    .bind (.modifyEndpoint d fun _ => rfl) fun _ =>
      .bind (endpointUnbind_confined d) fun _ => .ite (.pure _) <|
        .bind (.forM (closeQueue_confined d)) fun _ => .pure _

theorem quiesceDisk_confined : Confined [.storage] quiesceDisk := by
  have hdrain : Confined [.storage] drainDisk :=
    .bind .get fun _ => .ite (.pure _) <| .bind (.ioctl _ _) fun _ => .ite (.pure _) <|
      .bind (.modifyEndpoint .storage fun _ => rfl) fun _ => .pure _
  exact .bind hdrain fun _ => .ite (.pure _) (endpointClose_confined .storage)

theorem within_tap (b : Backend) (fd : Option Fd) : Within [.tap] b { b with tap := fd } := by
  constructor <;> first
    | rfl
    | exact fun _ => rfl
    | exact fun hn => absurd (by simp) hn

/-- What a network operation may touch. -/
def networkParts : List Part := [.network, .tap]

theorem quiesceNetwork_confined : Confined networkParts quiesceNetwork := by
  have hdrain : Confined [.network] drainNetwork :=
    .bind .get fun _ => .ite (.pure _) <| .bind (.ioctl _ _) fun _ =>
      .ite (.bind .diagnostic fun _ => .pure _) <|
        .bind (.modifyEndpoint .network fun _ => rfl) fun _ => .pure _
  have htap : Confined [.tap] closeTap :=
    .bind .get fun _ => .bind (.closeIfOpen _) fun _ => .modify fun b => within_tap b none
  exact .bind (hdrain.mono (by simp [networkParts])) fun _ => .ite (.pure _) <|
    .bind ((endpointClose_confined .network).mono (by simp [networkParts, Device.part])) fun _ =>
      .ite (.pure _) <| .bind (htap.mono (by simp [networkParts])) fun _ => .pure _

/-! ### Activation -/

theorem installQueue_confined (d : Device) (areas : List Area) (i : Fin 6) (q : Queue)
    (bridge : Eventfds) : Confined [d.part] (installQueue d areas i q bridge) := by
  refine .ite (.pure _) <| .bind (.of_silent (installRings_silent d areas i q)) fun _ =>
    .ite (.pure _) <| .bind (.sys _) fun kick => .bind (.modifyEndpoint d fun _ => rfl) fun _ => ?_
  cases kick with
  | none => exact .bind .diagnostic fun _ => .pure _
  | some kick =>
    refine .bind (.sys _) fun call => .bind (.modifyEndpoint d fun _ => rfl) fun _ => ?_
    cases call with
    | none => exact .bind .diagnostic fun _ => .pure _
    | some call => exact .of_silent (installEventfds_silent d i bridge kick call)

theorem installQueues_confined (d : Device) (areas : List Area) (qs : List (Fin 6 × Queue))
    (bridge : Eventfds) : Confined [d.part] (installQueues d areas qs bridge) := by
  induction qs generalizing bridge with
  | nil => exact .pure _
  | cons iq qs ih =>
    refine .bind (installQueue_confined d areas iq.1 iq.2 bridge) fun r => ?_
    cases r with
    | none => exact .pure _
    | some bridge => exact ih bridge

theorem installVhost_confined (d : Device) (epoch : UInt32) (features : UInt64)
    (queues : List Queue) (areas : List Area) :
    Confined [d.part] (installVhost d epoch features queues areas) := by
  refine .bind (.of_silent (setupVhost_silent d features)) fun _ => .ite (.pure _) <|
    .bind (installQueues_confined d areas _ _) fun r => ?_
  cases r with
  | none => exact .pure _
  | some bridge =>
    exact .bind .get fun _ => .bind (.ioctl _ _) fun _ =>
      .ite (.bind .diagnostic fun _ => .pure _) <|
        .bind (.modifyEndpoint d fun _ => rfl) fun _ => .pure _

theorem configureVhost_confined (d : Device) (epoch : UInt32) (features : UInt64)
    (queues : List Queue) (count required : Nat) :
    Confined [d.part] (configureVhost d epoch features queues count required) := by
  refine .bind .get fun b => .ite (.pure _) <| .ite (.pure _) ?_
  dsimp only
  cases validateQueues b required 0 (queues.take count) [] with
  | none => exact .pure _
  | some areas =>
    refine .bind (.sys _) fun r => ?_
    cases r with
    | error _ => exact .bind .diagnostic fun _ => .pure _
    | ok fd =>
      exact .bind (.modifyEndpoint d fun _ => rfl) fun _ => installVhost_confined d _ _ _ _

theorem activateDisk_confined (message : Activate) :
    Confined [.storage] (activateDisk message) := by
  have hattach (status : Status) : Confined [.storage] (attachDisk status) :=
    .bind .get fun _ => .bind (.ite (.ioctl _ _) (.pure _)) fun _ =>
      .ite (.bind (.modifyEndpoint .storage fun _ => rfl) fun _ => .pure _) <|
        .bind quiesceDisk_confined fun _ => .pure _
  exact .bind .get fun _ => .ite (.pure _) <|
    .bind (.of_silent blockTargetReady_silent) fun _ => .ite (.pure _) <| .ite (.pure _) <|
      .ite (.pure _) <| .bind (configureVhost_confined .storage _ _ _ _ _) fun _ =>
        .ite (.pure _) (hattach _)

theorem openTap_confined : Confined [.tap] openTap := by
  refine .bind (.sys _) fun r => ?_
  cases r with
  | error _ =>
    exact .bind (.modify fun b => within_tap b none) fun _ => .bind .diagnostic fun _ => .pure _
  | ok fd =>
    exact .bind (.modify fun b => within_tap b (some fd)) fun _ =>
      .of_silent (configureTap_silent fd)

theorem createTap_confined : Confined [.tap] createTap := by
  refine .bind openTap_confined fun r => ?_
  cases r with
  | none => exact .pure _
  | some name =>
    refine .bind (.sys _) fun r => ?_
    cases r with
    | none => exact .bind .diagnostic fun _ => .pure _
    | some index =>
      refine .bind (.sys _) fun r => ?_
      cases r with
      | none => exact .bind .diagnostic fun _ => .pure _
      | some control =>
        exact .bind (.of_silent (attachTap_silent control name index)) fun _ =>
          .bind (.sys _) fun _ => .pure _

theorem setBackend_confined (i : Nat) : Confined [.network] (setBackend i) :=
  .bind .get fun _ => .bind (.ioctl _ _) fun _ => .ite (.bind .diagnostic fun _ => .pure _) <|
    .bind (.modifyEndpoint .network fun _ => rfl) fun _ => .pure _

theorem attachNetwork_confined (status : Status) :
    Confined networkParts (attachNetwork status) := by
  refine .bind (.ite (createTap_confined.mono (by simp [networkParts])) (.pure _)) fun _ =>
    .ite (.pure _) (.firstFailure ?_)
  simp only [List.mem_cons, List.not_mem_nil, or_false]
  rintro m (rfl | rfl) <;> exact (setBackend_confined _).mono (by simp [networkParts])

theorem activateNetwork_confined (request : Activate) :
    Confined networkParts (activateNetwork request) :=
  .bind .get fun _ => .ite (.pure _) <| .ite (.pure _) <| .ite (.pure _) <|
    .bind ((configureVhost_confined .network _ _ _ _ _).mono (by simp [networkParts, Device.part]))
      fun _ => .ite (.pure _) <| .bind (attachNetwork_confined _) fun _ => .ite (.pure _) <|
        .bind quiesceNetwork_confined fun _ => .pure _

/-! ## Memory -/

/-- Release touches both devices and the memory fields. -/
def releaseParts : List Part := [.storage, .network, .tap, .memory]

theorem within_memory (b : Backend) (memory : Option UInt64) (memoryFd : Option Fd)
    (token : UInt64) (region : MemoryInfo) :
    Within [.memory] b { b with memory, memoryFd, token, region } := by
  constructor <;> first
    | rfl
    | exact fun _ => rfl
    | exact fun hn => absurd (by simp) hn

theorem unmapMemory_confined : Confined [.memory] unmapMemory := by
  refine .bind .get fun b => ?_
  cases b.memory with
  | none => exact .pure _
  | some a =>
    exact .bind (.sys _) fun _ => .ite (.pure _) <|
      .bind (.modify fun b => within_memory b none b.memoryFd b.token b.region) fun _ => .pure _

theorem closeMemory_confined : Confined [.memory] closeMemory := by
  refine .bind .get fun b => ?_
  cases b.memoryFd with
  | none => exact .pure _
  | some fd =>
    exact .bind (.ite (.ioctl _ _) (.pure _)) fun _ => .ite (.pure _) <| .bind (.sys _) fun _ =>
      .bind (.modify fun b => within_memory b b.memory none b.token b.region) fun _ => .pure _

theorem releaseMemory_confined : Confined releaseParts releaseMemory := by
  have hmem : ∀ p ∈ [Part.memory], p ∈ releaseParts := by simp [releaseParts]
  have hquiesce : Confined releaseParts quiesceAll :=
    .bind (quiesceDisk_confined.mono (by simp [releaseParts])) fun _ =>
      .bind (quiesceNetwork_confined.mono (by simp [networkParts, releaseParts])) fun _ => .pure _
  exact .bind hquiesce fun _ => .ite (.pure _) <|
    .bind (unmapMemory_confined.mono hmem) fun _ => .ite (.pure _) <|
      .bind (closeMemory_confined.mono hmem) fun _ => .ite (.pure _) <|
        .bind (.bind .get fun _ => .ite (.pure _) (.ioctl _ _)) fun _ => .ite (.pure _) <|
          .bind (.modify fun b => (within_memory b b.memory b.memoryFd 0 ⟨0, 0⟩).mono hmem)
            fun _ => .pure _

theorem rollbackMemory_confined : Confined releaseParts rollbackMemory :=
  .bind releaseMemory_confined fun _ => .pure _

theorem mapMemory_confined (prepare : MemoryPrepare) :
    Confined releaseParts (mapMemory prepare) := by
  have hmem : ∀ p ∈ [Part.memory], p ∈ releaseParts := by simp [releaseParts]
  refine .bind .diagnostic fun _ => .bind .get fun _ => .bind (.sys _) fun r => ?_
  cases r with
  | error _ => exact rollbackMemory_confined
  | ok fd =>
    refine .bind (.modify fun b => (within_memory b b.memory (some fd) b.token b.region).mono hmem)
      fun _ => .bind .diagnostic fun _ => .bind (.sys _) fun r => ?_
    cases r with
    | none => exact rollbackMemory_confined
    | some window =>
      refine .ite rollbackMemory_confined <| .bind (.ioctl _ _) fun _ =>
        .ite rollbackMemory_confined <|
          .bind .diagnostic fun _ => .bind (.sys _) fun r => ?_
      cases r with
      | none => exact rollbackMemory_confined
      | some a =>
        exact .bind .diagnostic fun _ => .bind (.modify fun b =>
          (within_memory b (some a) (some fd) prepare.token
            ⟨prepare.guestBase, prepare.length⟩).mono hmem) fun _ => .pure _

theorem grantMemory_confined (prepare : MemoryPrepare) :
    Confined releaseParts (grantMemory prepare) := by
  have hmem : ∀ p ∈ [Part.memory], p ∈ releaseParts := by simp [releaseParts]
  have hadmission (route : Option Fd) (a : Admission) :
      Confined releaseParts (ioAdmit route a) := by
    cases route with
    | none => exact .pure _
    | some fd => exact .sys _
  refine .bind .get fun _ => .bind (hadmission _ _) fun r => ?_
  cases r with
  | none => exact .pure _
  | some extentCount =>
    refine .bind (.modify fun b =>
        (within_memory b b.memory b.memoryFd prepare.token b.region).mono hmem) fun _ =>
      .bind (.sys _) fun _ => .ite rollbackMemory_confined <|
        .bind (.of_silent (walkExtents_silent _ _ _ _ _ _)) fun r => ?_
    cases r with
    | none => exact rollbackMemory_confined
    | some walk =>
      exact .ite rollbackMemory_confined (mapMemory_confined _)

theorem prepareMemory_confined (request : PrepareMemory) :
    Confined releaseParts (prepareMemory request) :=
  .bind .get fun _ => .ite (.pure _) <| .ite (.pure _) <|
    .ite (mapMemory_confined _) <|
      .ite (.pure _) (grantMemory_confined _)

/-! ## The block owner -/

theorem within_blocks (b : Backend) (f : BlockOwner → BlockOwner) :
    Within [.blocks] b { b with blocks := b.blocks.map f } := by
  constructor <;> first
    | rfl
    | exact fun _ => rfl
    | exact fun hn => absurd (by simp) hn
    | exact Option.isSome_map

/-- Publication of a LUN touches no part of the backend. -/
theorem blockTargetPublish_confined {ps : List Part} (client : UInt32) (device : Dev)
    (logical : UInt32) (range : BlockRange) :
    Confined ps (blockTargetPublish client device logical range) := by
  have hdirectory (path : String) : Confined ps (makeDirectory path) :=
    .of_silent (makeDirectory_silent path)
  have hwrite (path value : String) : Confined ps (writeAttribute path value) := by
    refine .bind (.sys _) fun r => ?_
    cases r with
    | error _ => exact .pure _
    | ok fd => exact .bind (.sys _) fun _ => .bind (.sys _) fun _ => .pure _
  have hrollback (p : TargetPaths) (made : Nat) : Confined ps (targetRollback p made) :=
    .bind (.ite (hwrite _ _) (.pure _)) fun _ => .bind (.ite (.sys _) (.pure _)) fun _ =>
      .bind (.ite (.sys _) (.pure _)) fun _ => .bind (.ite (.sys _) (.pure _)) fun _ =>
        .bind (.ite (.sys _) (.pure _)) fun _ => .pure _
  have htarget (mapper : String) : Confined ps (targetCreate client mapper range.readOnly) := by
    refine .bind (hdirectory _) fun _ => .ite (.pure _) <| .bind (.firstFailure ?_) fun _ =>
      .ite (hrollback _ _) <| .bind (hdirectory _) fun _ => .ite (hrollback _ _) <|
        .bind (hdirectory _) fun _ => .ite (hrollback _ _) <| .bind (hwrite _ _) fun _ =>
          .ite (hrollback _ _) <| .bind (.sys _) fun _ => .ite (hrollback _ _) (.pure _)
    simp only [List.mem_cons, List.not_mem_nil, or_false]
    rintro m (rfl | rfl | rfl)
    · exact hwrite _ _
    · exact hwrite _ _
    · exact hdirectory _
  have hexport (control : Fd) (mapper : String) :
      Confined ps (exportMapper control client mapper range.readOnly) :=
    .bind (htarget mapper) fun _ => .ite (.pure _) <| .bind (.ioctl _ _) fun _ =>
      .ite (.pure _) (.bind (.sys _) fun _ => .pure _)
  refine .bind (.firstFailure ?_) fun _ => .ite (.pure _) <| .bind (.sys _) fun r => ?_
  · simp only [List.mem_cons, List.not_mem_nil, or_false]
    rintro m (rfl | rfl | rfl) <;> exact .of_silent (makeSharedDirectory_silent _)
  · cases r with
    | error _ => exact .pure _
    | ok control =>
      exact .bind (.of_silent (mapperCreate_silent control _ device logical range)) fun _ =>
        .bind (.ite (hexport control _) (.pure _)) fun _ => .bind (.sys _) fun _ => .pure _

theorem discoverDisks_confined : Confined [.blocks] discoverDisks := by
  have hrecord (disk : PhysicalDisk) : Confined [.blocks] (recordDisk disk) := by
    refine .bind .get fun b => ?_
    dsimp only
    split
    · exact .bind (.sys _) fun _ => .pure _
    · exact .ite (.bind (.sys _) fun _ => .pure _) <|
        .bind (.modify fun b => within_blocks b _) fun _ => .pure _
  have hdisk (name : String) : Confined [.blocks] (discoverDisk name) := by
    refine .ite (.pure _) <| .bind (.sys _) fun _ => .ite (.pure _) <|
      .bind (.sys _) fun _ => .ite (.pure _) <| .bind (.sys _) fun r => ?_
    cases r with
    | error _ => exact .pure _
    | ok fd =>
      refine .bind (.of_silent (probeDisk_silent fd)) fun r => ?_
      cases r with
      | none => exact .bind (.sys _) fun _ => .pure _
      | some disk => exact hrecord disk
  refine .bind (.sys _) fun r => ?_
  cases r with
  | none => exact .pure _
  | some names =>
    refine .firstFailure fun m hm => ?_
    obtain ⟨name, -, rfl⟩ := List.mem_map.mp hm
    exact hdisk name

theorem bindRange_confined (owner : BlockOwner) (request : BlockBind) :
    Confined [.blocks] (bindRange owner request) := by
  unfold bindRange
  dsimp only
  split
  · refine .ite (.pure _) ?_
    split
    · exact .pure _
    · exact .bind (.of_silent (diskCurrent_silent _)) fun _ => .ite (.pure _) <| .ite (.pure _) <|
        .ite (.pure _) <| .ite (.pure _) <|
          .bind (blockTargetPublish_confined _ _ _ _) fun _ => .ite (.pure _) <|
            .bind (.modify fun b => within_blocks b _) fun _ => .pure _
  · exact .pure _

/-! ## The operations -/

/-- The parts an operation may touch. -/
def Operation.parts : Operation → List Part
  | .activate | .reset | .stopQueue => [.storage]
  | .networkActivate | .networkReset | .networkStopQueue => networkParts
  | .prepareMemory | .releaseMemory => releaseParts
  | .blockEnum | .blockBind => [.blocks]
  | .hello | .networkHello | .blockHello | .blockRead | .unknown _ => []

/-- The parts an operation of a device may touch. -/
def Device.parts : Device → List Part
  | .storage => [.storage]
  | .network => networkParts

theorem resetDevice_confined (d : Device) (queueStop : Bool) (m : Bytes) :
    Confined d.parts (resetDevice d queueStop m) := by
  have hquiesce : Confined d.parts (quiesceDevice d) := by
    cases d with
    | storage => exact quiesceDisk_confined
    | network => exact quiesceNetwork_confined
  exact .bind .get fun _ => .ite (.pure _) <| .ite (.pure _) <| .ite (.pure _) <|
    .bind hquiesce fun _ => .pure _

theorem dispatchOperation_confined (op : Operation) (m : Bytes) :
    Confined op.parts (dispatchOperation op m) := by
  refine .bind .get fun b => ?_
  cases op with
  | hello => exact .of_silent (helloDevice_silent .storage _)
  | networkHello => exact .of_silent (helloDevice_silent .network _)
  | prepareMemory => exact .ite (.bind (prepareMemory_confined _) fun _ => .pure _) (.pure _)
  | activate => exact .ite (.bind (activateDisk_confined _) fun _ => .pure _) (.pure _)
  | networkActivate => exact .ite (.bind (activateNetwork_confined _) fun _ => .pure _) (.pure _)
  | reset => exact .bind (resetDevice_confined .storage _ _) fun _ => .pure _
  | stopQueue => exact .bind (resetDevice_confined .storage _ _) fun _ => .pure _
  | networkReset => exact .bind (resetDevice_confined .network _ _) fun _ => .pure _
  | networkStopQueue => exact .bind (resetDevice_confined .network _ _) fun _ => .pure _
  | releaseMemory => exact .pure _
  | blockHello => exact .pure _
  | blockEnum => exact .pure _
  | blockRead => exact .pure _
  | blockBind => exact .pure _
  | unknown code => exact .pure _

theorem blockDispatch_confined (m : Bytes) :
    Confined (operationOf m).parts (blockDispatch m) := by
  refine .bind .get fun b => ?_
  rcases hblocks : b.blocks with _ | owner
  · simp only; exact .pure _
  simp only
  split
  next => exact .pure _
  next hop _ =>
    rw [hop]
    exact .ite (.pure _) <| .bind (.ite discoverDisks_confined (.pure _)) fun _ =>
      .ite (.pure _) <| .bind .get fun _ => .pure _
  next => exact .bind (.of_silent (blockRead_silent _ _)) fun _ => .pure _
  next hop _ =>
    rw [hop]
    exact .bind (bindRange_confined _ _) fun _ => .pure _
  next => exact .pure _

/-- A 40-byte `RELEASE_MEMORY` has that operation. -/
theorem operation_of_isRelease {m : Bytes} (h : isRelease m = true) :
    operationOf m = .releaseMemory := by
  simp only [isRelease, Bool.and_eq_true, beq_iff_eq] at h
  exact h.1

/-! ### A successful `PREPARE_MEMORY` -/

/-- Whenever the result of `m` satisfies `P`, it stayed within `ps`. -/
def ConfinedIf {α : Type} (P : α → Prop) (ps : List Part) (m : Service α) : Prop :=
  ∀ b, m.wp (.free Sys) (fun a b' _ => P a → Within ps b b') b ()

namespace ConfinedIf

variable {ps : List Part} {α β : Type} {P : β → Prop} {m : Service α} {f : α → Service β}

theorem of_confined {m : Service β} (h : Confined ps m) : ConfinedIf P ps m := fun b =>
  wp_mono (h.wp b) fun _ _ _ hb _ => hb

theorem bind (hm : Confined ps m) (hf : ∀ a, ConfinedIf P ps (f a)) :
    ConfinedIf P ps (m >>= f) := fun b =>
  (wp_bind m f).mpr <| wp_mono (hm.wp b) fun a b' _ hb =>
    wp_mono (hf a b') fun _ _ _ hb' hP => hb.trans (hb' hP)

theorem ite {p : Prop} [Decidable p] {m m' : Service β} (h : ConfinedIf P ps m)
    (h' : ConfinedIf P ps m') : ConfinedIf P ps (if p then m else m') := by
  split
  · exact h
  · exact h'

theorem pure (a : β) : ConfinedIf P ps (Pure.pure a : Service β) := of_confined (.pure a)

theorem bind_pure {R : α → Prop} {g : α → β} (hm : ConfinedIf R ps m)
    (hg : ∀ a, P (g a) → R a) : ConfinedIf P ps (m >>= fun a => Pure.pure (g a)) := fun b =>
  (wp_bind m _).mpr <| wp_mono (hm b) fun a _ _ hb hP => hb (hg a hP)

end ConfinedIf

/-- The rollback never answers `OK`. -/
theorem rollbackMemory_ne_ok {ps : List Part} :
    ConfinedIf (· = .ok) ps rollbackMemory := fun b => by
  simp only [rollbackMemory, wp_bind, wp_pure]
  refine wp_free fun status b' hok => ?_
  split at hok <;> cases hok

theorem mapMemory_confinedIf (prepare : MemoryPrepare) :
    ConfinedIf (· = .ok) [.memory] (mapMemory prepare) := by
  refine .bind .diagnostic fun _ => .bind .get fun _ => .bind (.sys _) fun r => ?_
  cases r with
  | error _ => exact rollbackMemory_ne_ok
  | ok fd =>
    refine .bind (.modify fun b => within_memory b b.memory (some fd) b.token b.region)
      fun _ => .bind .diagnostic fun _ => .bind (.sys _) fun r => ?_
    cases r with
    | none => exact rollbackMemory_ne_ok
    | some window =>
      refine .ite rollbackMemory_ne_ok <| .bind (.ioctl _ _) fun _ =>
        .ite rollbackMemory_ne_ok <| .bind .diagnostic fun _ => .bind (.sys _) fun r => ?_
      cases r with
      | none => exact rollbackMemory_ne_ok
      | some a =>
        exact .bind .diagnostic fun _ => .bind (.modify fun b =>
          within_memory b (some a) (some fd) prepare.token ⟨prepare.guestBase, prepare.length⟩)
            fun _ => .pure _

theorem prepareMemory_confinedIf (request : PrepareMemory) :
    ConfinedIf (· = .ok) [.memory] (prepareMemory request) := by
  have hadmission (route : Option Fd) (a : Admission) : Confined [.memory] (ioAdmit route a) := by
    cases route with
    | none => exact .pure _
    | some fd => exact .sys _
  have hgrant (prepare : MemoryPrepare) : ConfinedIf (· = .ok) [.memory] (grantMemory prepare) := by
    refine .bind .get fun _ => .bind (hadmission _ _) fun r => ?_
    cases r with
    | none => exact .pure _
    | some extentCount =>
      refine .bind (.modify fun b => within_memory b b.memory b.memoryFd prepare.token b.region)
        fun _ => .bind (.sys _) fun _ => .ite rollbackMemory_ne_ok <|
          .bind (.of_silent (walkExtents_silent _ _ _ _ _ _)) fun r => ?_
      cases r with
      | none => exact rollbackMemory_ne_ok
      | some walk => exact .ite rollbackMemory_ne_ok (mapMemory_confinedIf _)
  exact .bind .get fun _ => .ite (.pure _) <| .ite (.pure _) <| .ite (mapMemory_confinedIf _) <|
    .ite (.pure _) (hgrant _)

/-- The parts an operation may touch when it answers `status`. -/
def Operation.touched (op : Operation) (status : Status) : List Part :=
  if op = .prepareMemory ∧ status = .ok then [.memory] else op.parts

/-- Whatever `dispatch` does, it stays within the parts of the record's operation. -/
theorem dispatch_confined (session : Session) (m : Bytes) (b : Backend) :
    (dispatch session m).wp (.free Sys)
      (fun r b' _ => Within ((operationOf m).touched r.1.status) b b') b () := by
  have hparts : Confined (operationOf m).parts (dispatch session m) := by
    refine .bind .get fun b => ?_
    by_cases hrelease : (isRelease m && b.managed) = true
    · rw [if_pos hrelease]
      rw [Bool.and_eq_true] at hrelease
      rw [operation_of_isRelease hrelease.1]
      exact .bind releaseMemory_confined fun _ => .pure _
    · rw [if_neg hrelease]
      exact .ite (.pure _) <| .ite (.bind (blockDispatch_confined m) fun _ => .pure _) <|
        .bind (dispatchOperation_confined _ m) fun _ => .pure _
  by_cases hprepare : operationOf m = .prepareMemory
  · have hrelease : isRelease m = false := by simp [isRelease, hprepare]
    have hmemory : ConfinedIf (fun r => r.1.status = .ok) [.memory] (dispatch session m) := by
      refine .bind .get fun b => ?_
      rw [if_neg (by simp [hrelease]), hprepare]
      refine .ite (.pure _) ?_
      rw [if_neg (by decide)]
      refine .bind_pure (R := fun a => a.status = .ok) ?_ fun _ h => h
      exact .bind .get fun _ => .ite
        (.bind_pure (prepareMemory_confinedIf _) fun _ h => h) (.pure _)
    refine wp_mono (wp_and (hmemory b) (hparts.wp b)) fun r b' _ hpost => ?_
    obtain ⟨hmem, hall⟩ := hpost
    unfold Operation.touched
    split
    next hok =>
      exact hmem hok.2
    next => exact hall
  · refine wp_mono (hparts.wp b) fun r b' _ hall => ?_
    unfold Operation.touched
    rwa [if_neg fun h => hprepare h.1]

end HyperIoVm
