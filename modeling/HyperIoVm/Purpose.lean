import HyperIoVm.Effects.Issues
import HyperIoVm.Service

/-!
# What the system calls are for

The calls of the service fall into those that open one of the devices, those that concern the
guest memory, those that concern the physical disks and their LUNs, and the rest. Each function
of the service is confined to some of them, whatever its calls answer.
-/

namespace HyperIoVm

open Effects Routine

/-! ## Issues of a service -/

namespace Effects.Routine.Issues

variable {P : Call → Prop}

theorem ioctl (fd : Option Fd) {command : Command} (h : ∀ fd, P (.ioctl fd command)) :
    Issues (I := Sys) P (ioctl fd command) := by
  cases fd with
  | none => exact pure _
  | some fd => exact perform (h fd)

theorem firstFailure {ms : List (Service Outcome)} (h : ∀ m ∈ ms, Issues (I := Sys) P m) :
    Issues (I := Sys) P (firstFailure ms) := by
  induction ms with
  | nil => exact pure _
  | cons m ms ih =>
    refine (h m List.mem_cons_self).bind fun r => ite (pure _) ?_
    exact ih fun m' hm' => h m' (List.mem_cons_of_mem _ hm')

end Effects.Routine.Issues

/-! ## Purposes -/

/-- What a call is for. -/
inductive Purpose where
  | device (d : Device)
  | memory
  | blocks
  | common
  deriving DecidableEq, Repr

@[simp] def Node.purpose : Node → Purpose
  | .memory _ => .memory
  | .vhost d => .device d
  | .tun => .device .network
  | .disk _ | .mapperControl | .attribute _ => .blocks

@[simp] def Call.purpose : Call → Purpose
  | .openNode node => node.purpose
  | .ioAdmit _ _ | .extent _ _ | .memoryInfo _ | .calloc _ | .mmap _ _ | .munmap _ _ => .memory
  | .ioctl _ (.dmTableLoad _ _) | .ioctl _ (.dmDevSuspend _ _) | .ioctl _ (.dmDevRemove _)
  | .scandir _ | .fstat _ | .blkGetSize64 _ | .blkGetDiskSeq _ | .blkSszGet _ | .blkPbszGet _
  | .blkRoGet _ | .pread _ _ _ _ | .mkdir _ | .rmdir _ | .mknod _ _ | .unlink _ | .symlink _ _
  | .write _ _ | .dmDevCreate _ _ => .blocks
  | _ => .common

/-- `m` issues calls for the purposes `ps` only. -/
def Uses {α : Type} (ps : List Purpose) (m : Service α) : Prop :=
  Issues (I := Sys) (fun c => Call.purpose c ∈ ps) m

namespace Uses

variable {ps qs : List Purpose} {α β ι : Type} {m : Service α} {f : α → Service β}

theorem mono (h : Uses ps m) (hps : ∀ p ∈ ps, p ∈ qs) : Uses qs m :=
  Issues.mono h fun _ hc => hps _ hc

theorem pure (a : α) : Uses ps (Pure.pure a : Service α) := Issues.pure a

theorem bind (hm : Uses ps m) (hf : ∀ a, Uses ps (f a)) : Uses ps (m >>= f) := Issues.bind hm hf

theorem ite {p : Prop} [Decidable p] {m' : Service α} (h : Uses ps m) (h' : Uses ps m') :
    Uses ps (if p then m else m') := Issues.ite h h'

theorem get : Uses ps (MonadState.get : Service Backend) := Issues.get

theorem modify (g : Backend → Backend) : Uses ps (modify g : Service Unit) := Issues.modify g

theorem sys {c : Call} (h : c.purpose ∈ ps) : Uses ps (sys c) := Issues.perform h

theorem forM {l : List ι} {f : ι → Service PUnit} (h : ∀ i, Uses ps (f i)) :
    Uses ps (forM l f) := Issues.forM h

theorem diagnostic : Uses ps diagnostic := modify _

theorem ioctl (fd : Option Fd) {command : Command}
    (h : ∀ fd, (Call.ioctl fd command).purpose ∈ ps) : Uses ps (ioctl fd command) :=
  Issues.ioctl fd h

theorem closeIfOpen (fd : Option Fd) (h : .common ∈ ps) : Uses ps (closeIfOpen fd) := by
  cases fd with
  | none => exact pure _
  | some fd => exact (sys (c := .close fd) h).bind fun _ => pure _

theorem firstFailure {ms : List (Service Outcome)} (h : ∀ m ∈ ms, Uses ps m) :
    Uses ps (firstFailure ms) := Issues.firstFailure h

theorem vhostIoctl (d : Device) {command : Command}
    (h : ∀ fd, (Call.ioctl fd command).purpose ∈ ps) : Uses ps (vhostIoctl d command) :=
  bind get fun _ => bind (ioctl _ h) fun _ => ite (pure _) (bind diagnostic fun _ => pure _)

theorem reportedIoctl (fd : Fd) {command : Command}
    (h : ∀ fd, (Call.ioctl fd command).purpose ∈ ps) : Uses ps (reportedIoctl fd command) :=
  bind (ioctl _ h) fun _ => ite (pure _) (bind diagnostic fun _ => pure _)

end Uses

/-! ## The devices -/

theorem endpointClose_uses (d : Device) : Uses [.common] (endpointClose d) := by
  have hunbind : Uses [.common] (endpointUnbind d) :=
    .bind .get fun _ => .ite (.pure _) <| .bind (.ioctl _ (by simp)) fun _ =>
      .ite (.pure _) <| .bind (.modify _) fun _ => .pure _
  have hqueue (i : Fin 6) : Uses [.common] (closeQueue d i) :=
    .bind .get fun _ => .bind (.closeIfOpen _ (by simp)) fun _ =>
      .bind (.closeIfOpen _ (by simp)) fun _ => .modify _
  exact .bind .get fun _ => .bind (.closeIfOpen _ (by simp)) fun _ => .bind (.modify _) fun _ =>
    .bind hunbind fun _ => .ite (.pure _) <| .bind (.forM hqueue) fun _ => .pure _

theorem quiesceDisk_uses : Uses [.common] quiesceDisk := by
  have hdrain : Uses [.common] drainDisk :=
    .bind .get fun _ => .ite (.pure _) <| .bind (.ioctl _ (by simp)) fun _ =>
      .ite (.pure _) <| .bind (.modify _) fun _ => .pure _
  exact .bind hdrain fun _ => .ite (.pure _) (endpointClose_uses .storage)

theorem quiesceNetwork_uses : Uses [.common] quiesceNetwork := by
  have hdrain : Uses [.common] drainNetwork :=
    .bind .get fun _ => .ite (.pure _) <| .bind (.ioctl _ (by simp)) fun _ =>
      .ite (.bind .diagnostic fun _ => .pure _) <| .bind (.modify _) fun _ => .pure _
  have htap : Uses [.common] closeTap :=
    .bind .get fun _ => .bind (.closeIfOpen _ (by simp)) fun _ => .modify _
  exact .bind hdrain fun _ => .ite (.pure _) <| .bind (endpointClose_uses .network) fun _ =>
    .ite (.pure _) <| .bind htap fun _ => .pure _

theorem quiesceDevice_uses (d : Device) : Uses [.common] (quiesceDevice d) := by
  cases d with
  | storage => exact quiesceDisk_uses
  | network => exact quiesceNetwork_uses

/-! ### Activation -/

theorem installQueue_uses (d : Device) (areas : List Area) (i : Fin 6) (q : Queue)
    (bridge : Eventfds) : Uses [.common] (installQueue d areas i q bridge) := by
  have hrings : Uses [.common] (installRings d areas i q) := by
    refine .firstFailure fun m hm => ?_
    simp only [List.mem_cons, List.not_mem_nil, or_false] at hm
    rcases hm with rfl | rfl | rfl <;> exact .vhostIoctl d (by simp)
  have heventfd : Uses [.common] eventfd := .sys (by decide)
  refine .ite (.pure _) <| .bind hrings fun _ => .ite (.pure _) <| .bind heventfd fun kick =>
    .bind (.modify _) fun _ => ?_
  cases kick with
  | none => exact .bind .diagnostic fun _ => .pure _
  | some kick =>
    refine .bind heventfd fun call => .bind (.modify _) fun _ => ?_
    cases call with
    | none => exact .bind .diagnostic fun _ => .pure _
    | some call =>
      exact .bind (.vhostIoctl d (by simp)) fun _ => .ite (.pure _) <|
        .bind (.vhostIoctl d (by simp)) fun _ => .ite (.pure _) (.pure _)

theorem installQueues_uses (d : Device) (areas : List Area) (qs : List (Fin 6 × Queue))
    (bridge : Eventfds) : Uses [.common] (installQueues d areas qs bridge) := by
  induction qs generalizing bridge with
  | nil => exact .pure _
  | cons iq qs ih =>
    refine .bind (installQueue_uses d areas iq.1 iq.2 bridge) fun r => ?_
    cases r with
    | none => exact .pure _
    | some bridge => exact ih bridge

theorem installVhost_uses (d : Device) (epoch : UInt32) (features : UInt64) (queues : List Queue)
    (areas : List Area) : Uses [.common] (installVhost d epoch features queues areas) := by
  have hsetup : Uses [.common] (setupVhost d features) := by
    refine .bind .get fun b => .firstFailure fun m hm => ?_
    rcases List.mem_append.mp hm with hm | hm
    · split at hm
      · rw [List.mem_singleton.mp hm]
        exact .vhostIoctl d (by simp)
      · cases hm
    · simp only [List.mem_cons, List.not_mem_nil, or_false] at hm
      rcases hm with rfl | rfl | rfl <;> exact .vhostIoctl d (by simp)
  refine .bind hsetup fun _ => .ite (.pure _) <| .bind (installQueues_uses d areas _ _) fun r => ?_
  cases r with
  | none => exact .pure _
  | some bridge =>
    exact .bind .get fun _ => .bind (.ioctl _ (by simp)) fun _ =>
      .ite (.bind .diagnostic fun _ => .pure _) <| .bind (.modify _) fun _ => .pure _

theorem configureVhost_uses (d : Device) (epoch : UInt32) (features : UInt64)
    (queues : List Queue) (count required : Nat) :
    Uses [.device d, .common] (configureVhost d epoch features queues count required) := by
  refine .bind .get fun b => .ite (.pure _) <| .ite (.pure _) ?_
  dsimp only
  cases validateQueues b required 0 (queues.take count) [] with
  | none => exact .pure _
  | some areas =>
    refine .bind (.sys (c := .openNode (.vhost d)) List.mem_cons_self) fun r => ?_
    cases r with
    | error _ => exact .bind .diagnostic fun _ => .pure _
    | ok fd =>
      exact .bind (.modify _) fun _ => (installVhost_uses d _ _ _ _).mono (by simp)

theorem blockTargetReady_uses {ps : List Purpose} (h : .common ∈ ps) : Uses ps blockTargetReady :=
  .bind .get fun _ => .ite (.pure _) <| .bind (.sys (c := .access _) h) fun _ => .pure _

theorem activateDisk_uses (message : Activate) :
    Uses [.device .storage, .common] (activateDisk message) := by
  have hattach (status : Status) : Uses [.device .storage, .common] (attachDisk status) :=
    .bind .get fun _ => .bind (.ite (.ioctl _ (by simp)) (.pure _)) fun _ =>
      .ite (.bind (.modify _) fun _ => .pure _) <|
        .bind (quiesceDisk_uses.mono (by simp)) fun _ => .pure _
  exact .bind .get fun _ => .ite (.pure _) <|
    .bind (blockTargetReady_uses (by simp)) fun _ => .ite (.pure _) <| .ite (.pure _) <|
      .ite (.pure _) <| .bind (configureVhost_uses .storage _ _ _ _ _) fun _ =>
        .ite (.pure _) (hattach _)

theorem createTap_uses : Uses [.device .network, .common] createTap := by
  -- the queues and the header of the tap
  have hheader (fd : Fd) : Uses [.device .network, .common] (configureTapHeader fd) := by
    refine .bind (.firstFailure fun m hm => ?_) fun _ => .ite (.pure _) <|
      .bind .diagnostic fun _ => .pure _
    simp only [List.mem_cons, List.not_mem_nil, or_false] at hm
    rcases hm with rfl | rfl | rfl <;> exact .ioctl _ (by simp)
  -- the device of the tap, and its name
  have hconfigure (fd : Fd) : Uses [.device .network, .common] (configureTap fd) := by
    refine .bind (.sys (by simp)) fun r => ?_
    cases r with
    | none => exact .bind .diagnostic fun _ => .pure _
    | some name =>
      exact .bind (hheader fd) fun _ => .ite (.pure _) <| .bind .get fun _ =>
        .bind (.ite (.reportedIoctl _ (by simp)) (.pure _)) fun _ =>
          .ite (.pure _) (.pure _)
  have hopen : Uses [.device .network, .common] openTap := by
    refine .bind (.sys (c := .openNode .tun) (by decide)) fun r => ?_
    cases r with
    | error _ => exact .bind (.modify _) fun _ => .bind .diagnostic fun _ => .pure _
    | ok fd => exact .bind (.modify _) fun _ => hconfigure fd
  -- the bridge takes the tap in and brings it up
  have hattach (control : Fd) (name : String) (index : UInt32) :
      Uses [.device .network, .common] (attachTap control name index) := by
    refine .bind .get fun _ => .bind (.reportedIoctl _ (by simp)) fun _ =>
      .ite (.pure _) <| .bind (.reportedIoctl _ (by simp)) fun _ =>
        .ite (.pure _) <| .bind (.sys (by simp)) fun r => ?_
    cases r with
    | none => exact .bind .diagnostic fun _ => .pure _
    | some flags => exact .reportedIoctl _ (by simp)
  refine .bind hopen fun r => ?_
  cases r with
  | none => exact .pure _
  | some name =>
    refine .bind (.sys (by simp)) fun r => ?_
    cases r with
    | none => exact .bind .diagnostic fun _ => .pure _
    | some index =>
      refine .bind (.sys (by simp)) fun r => ?_
      cases r with
      | none => exact .bind .diagnostic fun _ => .pure _
      | some control =>
        exact .bind (hattach control name index) fun _ =>
          .bind (.sys (by simp)) fun _ => .pure _

theorem activateNetwork_uses (request : Activate) :
    Uses [.device .network, .common] (activateNetwork request) := by
  have hbackend (i : Nat) : Uses [.device .network, .common] (setBackend i) :=
    .bind .get fun _ => .bind (.ioctl _ (by simp)) fun _ =>
      .ite (.bind .diagnostic fun _ => .pure _) <| .bind (.modify _) fun _ => .pure _
  have hattach (status : Status) : Uses [.device .network, .common] (attachNetwork status) := by
    refine .bind (.ite createTap_uses (.pure _)) fun _ => .ite (.pure _) (.firstFailure ?_)
    simp only [List.mem_cons, List.not_mem_nil, or_false]
    rintro m (rfl | rfl) <;> exact hbackend _
  exact .bind .get fun _ => .ite (.pure _) <| .ite (.pure _) <| .ite (.pure _) <|
    .bind (configureVhost_uses .network _ _ _ _ _) fun _ => .ite (.pure _) <|
      .bind (hattach _) fun _ => .ite (.pure _) <|
        .bind (quiesceNetwork_uses.mono (by simp)) fun _ => .pure _

/-! ## Memory -/

theorem unmapMemory_uses : Uses [.memory, .common] unmapMemory := by
  refine .bind .get fun b => ?_
  cases b.memory with
  | none => exact .pure _
  | some a =>
    exact .bind (.sys (by simp)) fun _ => .ite (.pure _) <|
      .bind (.modify _) fun _ => .pure _

theorem closeMemory_uses : Uses [.memory, .common] closeMemory := by
  refine .bind .get fun b => ?_
  cases b.memoryFd with
  | none => exact .pure _
  | some fd =>
    exact .bind (.ite (.ioctl _ (by simp)) (.pure _)) fun _ =>
      .ite (.pure _) <| .bind (.sys (by simp)) fun _ =>
        .bind (.modify _) fun _ => .pure _

theorem retireToken_uses : Uses [.memory, .common] retireToken :=
  .bind .get fun _ => .ite (.pure _) (.ioctl _ (by simp))

theorem releaseMemory_uses : Uses [.memory, .common] releaseMemory := by
  have hquiesce : Uses [.memory, .common] quiesceAll :=
    .bind (quiesceDisk_uses.mono (by simp)) fun _ =>
      .bind (quiesceNetwork_uses.mono (by simp)) fun _ => .pure _
  exact .bind hquiesce fun _ => .ite (.pure _) <| .bind unmapMemory_uses fun _ => .ite (.pure _) <|
    .bind closeMemory_uses fun _ => .ite (.pure _) <| .bind retireToken_uses fun _ =>
      .ite (.pure _) <| .bind (.modify _) fun _ => .pure _

section Prepare

variable {K : Type} {C : Contract Sys K} {J : Backend → K → Prop}

theorem ioctl_keeps {command : Command}
    (hcall : ∀ fd, Keeps C J (sys (.ioctl fd command))) (fd : Option Fd) :
    Keeps C J (ioctl fd command) := by
  cases fd with
  | none => exact keeps_pure _
  | some fd => exact hcall fd

theorem walkExtents_keeps (hcall : ∀ fd index, Keeps C J (sys (.extent fd index)))
    (route : Option Fd) (total : UInt64) (rounds : Nat) (index cursor : UInt64)
    (pages : List UInt64) : Keeps C J (walkExtents route total rounds index cursor pages) := by
  induction rounds generalizing index cursor pages with
  | zero => exact keeps_pure _
  | succ rounds ih =>
    have hextent : Keeps C J (extent route index) := by
      cases route with
      | none => exact keeps_pure _
      | some fd => exact hcall fd index
    refine keeps_bind hextent fun r => ?_
    cases r with
    | none => exact keeps_pure _
    | some e => exact keeps_ite (fun _ => keeps_pure _) fun _ => ih _ _ _

/-- What the calls for the memory, the memory fields and a release keep, `prepare_memory`
keeps. -/
theorem prepareMemory_keeps
    (hcall : ∀ c : Call, c.purpose ∈ [Purpose.memory, .common] →
      (∀ fd command, c = .ioctl fd command → ∃ prepare, command = .memoryPrepare prepare) →
        Keeps C J (sys c))
    (hfields : ∀ b k memory memoryFd token region, J b k →
      J { b with memory, memoryFd, token, region } k)
    (hdiagnostic : Keeps C J diagnostic) (hrelease : Keeps C J releaseMemory)
    (request : PrepareMemory) : Keeps C J (prepareMemory request) := by
  -- what fails is rolled back
  have hrollback : Keeps C J rollbackMemory := keeps_bind hrelease fun _ => keeps_pure _
  have hioctl (fd : Fd) (prepare : MemoryPrepare) :
      Keeps C J (ioctl (some fd) (.memoryPrepare prepare)) :=
    ioctl_keeps (fun fd => hcall _ (by simp) (by simp)) _
  -- the frames are mapped
  have hmap (prepare : MemoryPrepare) : Keeps C J (mapMemory prepare) := by
    refine keeps_bind hdiagnostic fun _ => keeps_bind keeps_get fun b =>
      keeps_bind (hcall (.openNode _) (by simp) (by simp)) fun r => ?_
    cases r with
    | error _ => exact hrollback
    | ok fd =>
      refine keeps_bind
        (keeps_modify fun b k h => hfields b k b.memory (some fd) b.token b.region h)
        fun _ => keeps_bind hdiagnostic fun _ =>
          keeps_bind (hcall (.memoryInfo fd) (by simp) (by simp)) fun r => ?_
      cases r with
      | none => exact hrollback
      | some window =>
        refine keeps_ite (fun _ => hrollback) fun _ => keeps_bind (hioctl fd _) fun _ =>
          keeps_ite (fun _ => hrollback) fun _ => keeps_bind hdiagnostic fun _ =>
            keeps_bind (hcall (.mmap fd _) (by simp) (by simp)) fun r => ?_
        cases r with
        | none => exact hrollback
        | some memory =>
          exact keeps_bind hdiagnostic fun _ => keeps_bind (keeps_modify fun b k h =>
            hfields b k (some memory) (some fd) prepare.token ⟨prepare.guestBase, prepare.length⟩ h)
              fun _ => keeps_pure _
  -- the grant is admitted, and its extents are read
  have hgrant (prepare : MemoryPrepare) : Keeps C J (grantMemory prepare) := by
    have hadmission (route : Option Fd) (a : Admission) : Keeps C J (ioAdmit route a) := by
      cases route with
      | none => exact keeps_pure _
      | some fd => exact hcall _ (by simp) (by simp)
    refine keeps_bind keeps_get fun b => keeps_bind (hadmission _ _) fun r => ?_
    cases r with
    | none => exact keeps_pure _
    | some extentCount =>
      refine keeps_bind (keeps_modify fun b k h =>
          hfields b k b.memory b.memoryFd prepare.token b.region h) fun _ =>
        keeps_bind (hcall (.calloc _) (by simp) (by simp)) fun _ =>
          keeps_ite (fun _ => hrollback) fun _ =>
            keeps_bind (walkExtents_keeps (fun fd index => hcall _ (by simp) (by simp))
              _ _ _ _ _ _) fun r => ?_
      cases r with
      | none => exact hrollback
      | some walk => exact keeps_ite (fun _ => hrollback) fun _ => hmap _
  exact keeps_bind keeps_get fun b => keeps_ite (fun _ => keeps_pure _) fun _ =>
    keeps_ite (fun _ => keeps_pure _) fun _ => keeps_ite (fun _ => hmap _) fun _ =>
      keeps_ite (fun _ => keeps_pure _) fun _ => hgrant _

end Prepare

theorem prepareMemory_uses (request : PrepareMemory) :
    Uses [.memory, .common] (prepareMemory request) :=
  prepareMemory_keeps (fun _ hc _ => Uses.sys hc) (fun _ _ _ _ _ _ _ => trivial) Uses.diagnostic
    releaseMemory_uses request

/-! ## The block owner -/

/-- The calls of the block owner's requests. -/
def Call.forDisks : Call → Bool
  | .close _ | .access _ => true
  | c => c.purpose = .blocks

theorem Call.forDisks_or {c : Call} (h : c.forDisks = true) :
    c.purpose = .blocks ∨ (∃ fd, c = .close fd) ∨ ∃ path, c = .access path := by
  cases c <;> first | exact .inl (by simpa only [Call.forDisks, decide_eq_true_eq] using h) | simp

/-- `m` issues calls of the block owner only. -/
def DisksOnly {α : Type} (m : Service α) : Prop :=
  Issues (I := Sys) (fun c => Call.forDisks c = true) m

/-- The calls that look at disks and directories. -/
def Call.reads : Call → Bool
  | .close _ | .access _ | .openNode (.disk _) | .scandir _ | .fstat _ | .blkGetSize64 _
  | .blkGetDiskSeq _ | .blkSszGet _ | .blkPbszGet _ | .blkRoGet _ | .pread _ _ _ _ => true
  | _ => false

/-- `m` only looks at disks and directories. -/
def ReadsOnly {α : Type} (m : Service α) : Prop :=
  Issues (I := Sys) (fun c => Call.reads c = true) m

theorem ReadsOnly.disksOnly {α : Type} {m : Service α} (h : ReadsOnly m) : DisksOnly m := by
  refine h.mono fun c hc => ?_
  cases c with
  | openNode node => cases node <;> first | rfl | cases hc
  | ioctl fd command => cases hc
  | _ => first | rfl | cases hc

theorem discoverDisks_readsOnly : ReadsOnly discoverDisks := by
  -- the device number, the size and the sequence of a disk
  have hprobe (fd : Fd) : ReadsOnly (probeDisk fd) := by
    refine .bind (.perform rfl) fun r => ?_
    rcases r with _ | status
    · exact .pure _
    refine .ite (.pure _) <| .bind (.perform rfl) fun r => ?_
    rcases r with _ | bytes
    · exact .pure _
    refine .bind (.perform rfl) fun r => ?_
    rcases r with _ | sequence
    · exact .pure _
    refine .bind (.perform rfl) fun r => ?_
    rcases r with _ | logical
    · exact .pure _
    refine .bind (.perform rfl) fun r => ?_
    rcases r with _ | physical
    · exact .pure _
    refine .bind (.perform rfl) fun r => ?_
    rcases r with _ | readOnly <;> exact .pure _
  -- a disk is recorded when there is room for it
  have hrecord (disk : PhysicalDisk) : ReadsOnly (recordDisk disk) := by
    refine .bind .get fun b => ?_
    dsimp only
    split
    · exact .bind (.perform rfl) fun _ => .pure _
    · exact .ite (.bind (.perform rfl) fun _ => .pure _) <|
        .bind (.modify _) fun _ => .pure _
  -- a partition, or a device without hardware behind it, is passed over
  have hdisk (name : String) : ReadsOnly (discoverDisk name) := by
    refine .ite (.pure _) <| .bind (.perform rfl) fun _ => .ite (.pure _) <|
      .bind (.perform rfl) fun _ => .ite (.pure _) <| .bind (.perform rfl) fun r => ?_
    cases r with
    | error _ => exact .pure _
    | ok fd =>
      refine .bind (hprobe fd) fun r => ?_
      cases r with
      | none => exact .bind (.perform rfl) fun _ => .pure _
      | some disk => exact hrecord disk
  refine .bind (.perform rfl) fun r => ?_
  cases r with
  | none => exact .pure _
  | some names =>
    refine .firstFailure fun m hm => ?_
    obtain ⟨name, -, rfl⟩ := List.mem_map.mp hm
    exact hdisk name

theorem diskCurrent_readsOnly (disk : PhysicalDisk) : ReadsOnly (diskCurrent disk) := by
  refine .bind (.perform rfl) fun r => ?_
  rcases r with _ | sequence
  · exact .pure _
  refine .bind (.perform rfl) fun r => ?_
  rcases r with _ | bytes <;> exact .pure _

theorem blockEnum_readsOnly (owner : BlockOwner) (request : BlockEnum) :
    ReadsOnly (blockEnum owner request) :=
  .ite (.pure _) <| .bind (.ite discoverDisks_readsOnly (.pure _)) fun _ =>
    .ite (.pure _) <| .bind .get fun _ => .pure _

theorem blockRead_readsOnly (owner : BlockOwner) (request : BlockRead) :
    ReadsOnly (blockRead owner request) := by
  have hloop (disk : PhysicalDisk) (destination length offset : UInt64) (rounds : Nat)
      (done : UInt64) :
      ReadsOnly (readLoop disk destination length offset rounds done) := by
    induction rounds generalizing done with
    | zero => exact .pure _
    | succ rounds ih =>
      refine .ite (.pure _) <| .bind (.perform rfl) fun r => ?_
      cases r with
      | none => exact .pure _
      | some bytes => exact .ite (.pure _) (ih _)
  refine .bind .get fun b => ?_
  rcases hmemory : b.memory with _ | memory
  · exact .pure _
  dsimp only
  refine .ite (.pure _) ?_
  split
  · exact .pure _
  · exact .bind (diskCurrent_readsOnly _) fun _ => .ite (.pure _) <|
      .ite (.pure _) (hloop _ _ _ _ _ _)

theorem blockTargetPublish_disksOnly (client : UInt32) (device : Dev) (logical : UInt32)
    (range : BlockRange) : DisksOnly (blockTargetPublish client device logical range) := by
  -- directories
  have hdirectory (path : String) : DisksOnly (makeDirectory path) := by
    refine .bind (.perform rfl) fun r => ?_
    cases r <;> exact .pure _
  have hshared (path : String) : DisksOnly (makeSharedDirectory path) := by
    refine .bind (.perform rfl) fun r => ?_
    cases r <;> exact .pure _
  -- attributes
  have hwrite (path value : String) : DisksOnly (writeAttribute path value) := by
    refine .bind (.perform rfl) fun r => ?_
    cases r with
    | error _ => exact .pure _
    | ok fd => exact .bind (.perform rfl) fun _ => .bind (.perform rfl) fun _ => .pure _
  -- what is removed again after a failure
  have hrollback (p : TargetPaths) (made : Nat) : DisksOnly (targetRollback p made) :=
    .bind (.ite (hwrite _ _) (.pure _)) fun _ => .bind (.ite (.perform rfl) (.pure _)) fun _ =>
      .bind (.ite (.perform rfl) (.pure _)) fun _ =>
        .bind (.ite (.perform rfl) (.pure _)) fun _ =>
          .bind (.ite (.perform rfl) (.pure _)) fun _ => .pure _
  -- the target
  have htarget (mapper : String) : DisksOnly (targetCreate client mapper range.readOnly) := by
    refine .bind (hdirectory _) fun _ => .ite (.pure _) <| .bind (.firstFailure ?_) fun _ =>
      .ite (hrollback _ _) <| .bind (hdirectory _) fun _ => .ite (hrollback _ _) <|
        .bind (hdirectory _) fun _ => .ite (hrollback _ _) <| .bind (hwrite _ _) fun _ =>
          .ite (hrollback _ _) <| .bind (.perform rfl) fun _ => .ite (hrollback _ _) (.pure _)
    simp only [List.mem_cons, List.not_mem_nil, or_false]
    rintro m (rfl | rfl | rfl)
    · exact hwrite _ _
    · exact hwrite _ _
    · exact hdirectory _
  -- the mapper is exported, or removed
  have hexport (control : Fd) (mapper : String) :
      DisksOnly (exportMapper control client mapper range.readOnly) :=
    .bind (htarget mapper) fun _ => .ite (.pure _) <| .bind (.ioctl _ fun _ => rfl) fun _ =>
      .ite (.pure _) (.bind (.perform rfl) fun _ => .pure _)
  -- the mapper
  have hmapper (control : Fd) (mapper : String) :
      DisksOnly (mapperCreate control mapper device logical range) := by
    refine .bind (.perform rfl) fun r => ?_
    cases r with
    | none => exact .pure _
    | some mapperDevice =>
      refine .bind (.firstFailure fun m hm => ?_) fun _ => .ite (.pure _) <|
        .bind (.ioctl _ fun _ => rfl) fun _ => .pure _
      simp only [List.mem_cons, List.not_mem_nil, or_false] at hm
      rcases hm with rfl | rfl | rfl
      · exact .ioctl _ fun _ => rfl
      · exact .ioctl _ fun _ => rfl
      · exact .perform rfl
  refine .bind (.firstFailure ?_) fun _ => .ite (.pure _) <| .bind (.perform rfl) fun r => ?_
  · simp only [List.mem_cons, List.not_mem_nil, or_false]
    rintro m (rfl | rfl | rfl) <;> exact hshared _
  · cases r with
    | error _ => exact .pure _
    | ok control =>
      exact .bind (hmapper control _) fun _ => .bind (.ite (hexport control _) (.pure _)) fun _ =>
        .bind (.perform rfl) fun _ => .pure _

theorem blockDispatch_disksOnly (m : Bytes) : DisksOnly (blockDispatch m) := by
  have hbind (owner : BlockOwner) (request : BlockBind) :
      DisksOnly (bindRange owner request) := by
    unfold bindRange
    dsimp only
    split
    · refine .ite (.pure _) ?_
      split
      · exact .pure _
      · exact .bind (diskCurrent_readsOnly _).disksOnly fun _ => .ite (.pure _) <|
          .ite (.pure _) <| .ite (.pure _) <| .ite (.pure _) <|
            .bind (blockTargetPublish_disksOnly _ _ _ _) fun _ => .ite (.pure _) <|
              .bind (.modify _) fun _ => .pure _
    · exact .pure _
  refine .bind .get fun b => ?_
  rcases hblocks : b.blocks with _ | owner
  · exact .pure _
  dsimp only
  split
  · exact .pure _
  · exact (blockEnum_readsOnly _ _).disksOnly
  · exact .bind (blockRead_readsOnly _ _).disksOnly fun _ => .pure _
  · exact .bind (hbind _ _) fun _ => .pure _
  · exact .pure _

/-- The purposes of the block owner's requests. -/
def diskPurposes : List Purpose := [.blocks, .common]

theorem blockDispatch_uses (m : Bytes) : Uses diskPurposes (blockDispatch m) := by
  refine (blockDispatch_disksOnly m).mono fun c hc => ?_
  rcases Call.forDisks_or hc with hpurpose | ⟨fd, rfl⟩ | ⟨path, rfl⟩
  · exact hpurpose ▸ List.mem_cons_self
  · exact List.mem_cons_of_mem _ List.mem_cons_self
  · exact List.mem_cons_of_mem _ List.mem_cons_self

end HyperIoVm
