import HyperIoVm.Service

/-!
# The parts of a backend

The backend falls into parts: the storage endpoint, the network endpoint, the TAP, the memory
fields, and the block owner's tables. `Within ps b b'` says that only the parts `ps` (and the
diagnostics counter) differ; everything `main` fixed stays as it is. A `Silent` computation
differs in no part, and only issues calls that neither acquire nor retire anything.
-/

namespace HyperIoVm

open Effects Routine

/-- The parts of a backend that operations change. -/
inductive Part where
  | storage | network | tap | memory | blocks
  deriving DecidableEq, Repr

/-- `b'` differs from `b` in the parts `ps` and the diagnostics counter only. -/
structure Within (ps : List Part) (b b' : Backend) : Prop where
  disk : Part.storage ∉ ps → b'.disk = b.disk
  net : Part.network ∉ ps → b'.net = b.net
  tap : Part.tap ∉ ps → b'.tap = b.tap
  memory : Part.memory ∉ ps → b'.memory = b.memory
  memoryFd : Part.memory ∉ ps → b'.memoryFd = b.memoryFd
  region : Part.memory ∉ ps → b'.region = b.region
  token : Part.memory ∉ ps → b'.token = b.token
  blocks : Part.blocks ∉ ps → b'.blocks = b.blocks
  owner : b'.blocks.isSome = b.blocks.isSome
  diskRoute : b'.disk.notification = b.disk.notification
  netRoute : b'.net.notification = b.net.notification
  wwpn : b'.wwpn = b.wwpn
  managed : b'.managed = b.managed
  network : b'.network = b.network
  memoryPath : b'.memoryPath = b.memoryPath
  bridge : b'.bridge = b.bridge
  mac : b'.mac = b.mac
  scsi : b'.scsi = b.scsi
  netResources : b'.netResources = b.netResources

namespace Within

variable {ps qs : List Part} {b b' b'' : Backend}

theorem refl (ps : List Part) (b : Backend) : Within ps b b := by
  constructor <;> intros <;> rfl

theorem mono (h : Within ps b b') (hps : ∀ p ∈ ps, p ∈ qs) : Within qs b b' where
  disk hn := h.disk fun hp => hn (hps _ hp)
  net hn := h.net fun hp => hn (hps _ hp)
  tap hn := h.tap fun hp => hn (hps _ hp)
  memory hn := h.memory fun hp => hn (hps _ hp)
  memoryFd hn := h.memoryFd fun hp => hn (hps _ hp)
  region hn := h.region fun hp => hn (hps _ hp)
  token hn := h.token fun hp => hn (hps _ hp)
  blocks hn := h.blocks fun hp => hn (hps _ hp)
  __ := h

theorem trans (h : Within ps b b') (h' : Within ps b' b'') : Within ps b b'' where
  disk hn := (h'.disk hn).trans (h.disk hn)
  net hn := (h'.net hn).trans (h.net hn)
  tap hn := (h'.tap hn).trans (h.tap hn)
  memory hn := (h'.memory hn).trans (h.memory hn)
  memoryFd hn := (h'.memoryFd hn).trans (h.memoryFd hn)
  region hn := (h'.region hn).trans (h.region hn)
  token hn := (h'.token hn).trans (h.token hn)
  blocks hn := (h'.blocks hn).trans (h.blocks hn)
  owner := h'.owner.trans h.owner
  diskRoute := h'.diskRoute.trans h.diskRoute
  netRoute := h'.netRoute.trans h.netRoute
  wwpn := h'.wwpn.trans h.wwpn
  managed := h'.managed.trans h.managed
  network := h'.network.trans h.network
  memoryPath := h'.memoryPath.trans h.memoryPath
  bridge := h'.bridge.trans h.bridge
  mac := h'.mac.trans h.mac
  scsi := h'.scsi.trans h.scsi
  netResources := h'.netResources.trans h.netResources

/-- The diagnostics counter belongs to no part. -/
theorem diagnostic (ps : List Part) (b : Backend) : Within ps b b.diagnostic := by
  unfold Backend.diagnostic
  split
  · exact refl ps b
  · constructor <;> intros <;> rfl

end Within

/-- The part that holds a device's endpoint. -/
def Device.part : Device → Part
  | .storage => .storage
  | .network => .network

/-- Changing an endpoint, its notification route aside, stays within the device's part. -/
theorem within_setEndpoint (d : Device) (b : Backend) (e : Endpoint)
    (he : e.notification = (b.endpoint d).notification) :
    Within [d.part] b (b.setEndpoint d e) := by
  cases d <;> constructor <;> first
    | rfl
    | exact he
    | exact fun _ => rfl
    | exact fun hn => absurd (by simp [Device.part]) hn

/-! ## Silent computations -/

/-- Ioctls that neither retire nor attach anything. -/
def Command.inert : Command → Bool
  | .bind _ | .unbind | .quiescent _ | .memoryRelease | .setEndpoint _ | .clearEndpoint _
  | .resetOwner | .netSetBackend _ _ => false
  | _ => true

/-- Calls that neither acquire nor retire anything. -/
def Call.inert : Call → Bool
  | .ioctl _ command => command.inert
  | .openNode _ | .close _ | .ioAdmit _ _ | .mmap _ _ | .munmap _ _ | .eventfd | .socket => false
  | _ => true

/-- `m` issues inert calls only, and leaves the backend as it is, its diagnostics aside. -/
def Silent {α : Type} (m : Service α) : Prop :=
  ∀ b₀, Keeps (.only (I := Sys) fun c => Call.inert c = true) (fun b _ => Within [] b₀ b) m

namespace Silent

variable {α β : Type} {m : Service α} {f : α → Service β}

/-- Under any contract that takes no notice of inert calls, a silent computation changes
nothing. -/
theorem wp_of {K : Type} {C : Contract Sys K} (h : Silent m)
    (hallow : ∀ k c, Call.inert c = true → C.allows k c)
    (hnext : ∀ k c r, Call.inert c = true → C.next k c r = k) (b : Backend) (k : K) :
    m.wp C (fun _ b' k' => k' = k ∧ Within [] b b') b k :=
  wp_of_only (h b b () (.refl [] b)) (hallow k) (hnext k)

theorem pure (a : α) : Silent (Pure.pure a : Service α) := fun _ => keeps_pure a

theorem bind (hm : Silent m) (hf : ∀ a, Silent (f a)) : Silent (m >>= f) :=
  fun b₀ => keeps_bind (hm b₀) fun a => hf a b₀

theorem ite {p : Prop} [Decidable p] {m' : Service α} (h : Silent m) (h' : Silent m') :
    Silent (if p then m else m') := fun b₀ => keeps_ite (fun _ => h b₀) fun _ => h' b₀

theorem get : Silent (MonadState.get : Service Backend) := fun _ => keeps_get

theorem sys {c : Call} (h : c.inert = true) : Silent (sys c) := fun _ =>
  keeps_perform (fun _ _ _ => h) fun _ _ _ hb => hb

theorem diagnostic : Silent diagnostic := fun _ =>
  keeps_modify fun b _ h => h.trans (.diagnostic [] b)

theorem ioctl (fd : Option Fd) {c : Command} (h : c.inert = true) :
    Silent (ioctl fd c) := by
  cases fd with
  | none => exact pure _
  | some fd => exact sys (c := .ioctl fd c) h

theorem vhostIoctl (d : Device) {command : Command} (h : command.inert = true) :
    Silent (vhostIoctl d command) :=
  .bind .get fun _ => .bind (.ioctl _ h) fun _ =>
    .ite (.pure _) (.bind .diagnostic fun _ => .pure _)

theorem reportedIoctl (fd : Fd) {command : Command} (h : command.inert = true) :
    Silent (reportedIoctl fd command) :=
  .bind (.ioctl _ h) fun _ => .ite (.pure _) (.bind .diagnostic fun _ => .pure _)

theorem firstFailure {ms : List (Service Outcome)} (h : ∀ m ∈ ms, Silent m) :
    Silent (firstFailure ms) := by
  induction ms with
  | nil => exact pure _
  | cons m ms ih =>
    refine (h m List.mem_cons_self).bind fun r => ite (pure _) ?_
    exact ih fun m' hm' => h m' (List.mem_cons_of_mem _ hm')

end Silent

/-- A call the contract allows, for each reply it assumes. -/
theorem wp_issue {K : Type} {C : Contract Sys K} {k : K} {c : Call} {b : Backend}
    {Q : c.Reply → Backend → K → Prop} (hallow : C.allows k c)
    (h : ∀ r, C.assumes k c r → Q r b (C.next k c r)) : (sys c).wp C Q b k := ⟨hallow, h⟩

theorem wp_issue_ioctl {K : Type} {C : Contract Sys K} {k : K} {fd : Fd} {command : Command}
    {b : Backend} {Q : Outcome → Backend → K → Prop} (hallow : C.allows k (.ioctl fd command))
    (h : ∀ r : Outcome, C.assumes k (.ioctl fd command) r →
      Q r b (C.next k (.ioctl fd command) r)) :
    (ioctl (some fd) command).wp C Q b k := ⟨hallow, h⟩

/-- A chain stops at its first failure. -/
theorem firstFailure_cons {K : Type} {C : Contract Sys K} {k : K} {b : Backend}
    {m : Service Outcome} {ms : List (Service Outcome)} {Q : Outcome → Backend → K → Prop}
    (h : m.wp C (fun r b' k' => if r = .failed then Q .failed b' k' else
      (firstFailure ms).wp C Q b' k') b k) : (firstFailure (m :: ms)).wp C Q b k := by
  rw [firstFailure, wp_bind]
  refine wp_mono h fun r b' k' hr => ?_
  rw [wp_ite]
  exact hr

/-- A call under the free contract: whatever it answers. -/
theorem wp_sys_free (c : Call) {b : Backend} {Q : c.Reply → Backend → Unit → Prop}
    (h : ∀ r, Q r b ()) : (sys c).wp (.free Sys) Q b () :=
  (wp_perform _).mpr ⟨trivial, fun r _ => h r⟩

/-! ### Configuration of rings and TAP -/

theorem installRings_silent (d : Device) (areas : List Area) (i : Fin 6) (q : Queue) :
    Silent (installRings d areas i q) := by
  refine .firstFailure fun m hm => ?_
  simp only [List.mem_cons, List.not_mem_nil, or_false] at hm
  rcases hm with rfl | rfl | rfl <;> exact .vhostIoctl d rfl

theorem installEventfds_silent (d : Device) (i : Fin 6) (bridge : Eventfds) (kick call : Fd) :
    Silent (installEventfds d i bridge kick call) :=
  .bind (.vhostIoctl d rfl) fun _ => .ite (.pure _) <| .bind (.vhostIoctl d rfl) fun _ =>
    .ite (.pure _) (.pure _)

theorem setupVhost_silent (d : Device) (features : UInt64) : Silent (setupVhost d features) := by
  refine .bind .get fun b => .firstFailure fun m hm => ?_
  rcases List.mem_append.mp hm with hm | hm
  · split at hm
    · rw [List.mem_singleton.mp hm]; exact .vhostIoctl d rfl
    · cases hm
  · simp only [List.mem_cons, List.not_mem_nil, or_false] at hm
    rcases hm with rfl | rfl | rfl <;> exact .vhostIoctl d rfl

theorem configureTapHeader_silent (fd : Fd) : Silent (configureTapHeader fd) := by
  refine .bind (.firstFailure fun m hm => ?_) fun _ => .ite (.pure _) <|
    .bind .diagnostic fun _ => .pure _
  simp only [List.mem_cons, List.not_mem_nil, or_false] at hm
  rcases hm with rfl | rfl | rfl <;> exact .ioctl _ rfl

theorem configureTap_silent (fd : Fd) : Silent (configureTap fd) := by
  refine .bind (.sys rfl) fun r => ?_
  cases r with
  | none => exact .bind .diagnostic fun _ => .pure _
  | some name =>
    exact .bind (configureTapHeader_silent fd) fun _ => .ite (.pure _) <| .bind .get fun _ =>
      .bind (.ite (.reportedIoctl _ rfl) (.pure _)) fun _ => .ite (.pure _) (.pure _)

theorem attachTap_silent (control : Fd) (name : String) (index : UInt32) :
    Silent (attachTap control name index) := by
  refine .bind .get fun _ => .bind (.reportedIoctl _ rfl) fun _ => .ite (.pure _) <|
    .bind (.reportedIoctl _ rfl) fun _ => .ite (.pure _) <| .bind (.sys rfl) fun r => ?_
  cases r with
  | none => exact .bind .diagnostic fun _ => .pure _
  | some flags => exact .reportedIoctl _ rfl

/-! ### Queries -/

theorem walkExtents_silent (route : Option Fd) (total : UInt64) (rounds : Nat)
    (index cursor : UInt64) (pages : List UInt64) :
    Silent (walkExtents route total rounds index cursor pages) := by
  induction rounds generalizing index cursor pages with
  | zero => exact .pure _
  | succ rounds ih =>
    have hextent : Silent (extent route index) := by
      cases route with
      | none => exact .pure _
      | some fd => exact .sys rfl
    refine .bind hextent fun r => ?_
    cases r with
    | none => exact .pure _
    | some e => exact .ite (.pure _) (ih _ _ _)

theorem blockTargetReady_silent : Silent blockTargetReady :=
  .bind .get fun _ => .ite (.pure _) (.bind (.sys rfl) fun _ => .pure _)

theorem helloDevice_silent (d : Device) (size : Nat) : Silent (helloDevice d size) := by
  refine .bind .get fun _ => .ite (.pure _) <| .ite (.pure _) ?_
  cases d with
  | storage => exact .bind blockTargetReady_silent fun _ => .ite (.pure _) (.pure _)
  | network => exact .pure _

theorem probeDisk_silent (fd : Fd) : Silent (probeDisk fd) := by
  refine .bind (.sys rfl) fun r => ?_
  rcases r with _ | status
  · exact .pure _
  refine .ite (.pure _) <| .bind (.sys rfl) fun r => ?_
  rcases r with _ | bytes
  · exact .pure _
  refine .bind (.sys rfl) fun r => ?_
  rcases r with _ | sequence
  · exact .pure _
  refine .bind (.sys rfl) fun r => ?_
  rcases r with _ | logical
  · exact .pure _
  refine .bind (.sys rfl) fun r => ?_
  rcases r with _ | physical
  · exact .pure _
  refine .bind (.sys rfl) fun r => ?_
  rcases r with _ | readOnly <;> exact .pure _

theorem diskCurrent_silent (disk : PhysicalDisk) : Silent (diskCurrent disk) := by
  refine .bind (.sys rfl) fun r => ?_
  rcases r with _ | sequence
  · exact .pure _
  refine .bind (.sys rfl) fun r => ?_
  rcases r with _ | bytes <;> exact .pure _

theorem readLoop_silent (disk : PhysicalDisk) (destination length offset : UInt64) (rounds : Nat)
    (done : UInt64) : Silent (readLoop disk destination length offset rounds done) := by
  induction rounds generalizing done with
  | zero => exact .pure _
  | succ rounds ih =>
    refine .ite (.pure _) <| .bind (.sys rfl) fun r => ?_
    cases r with
    | none => exact .pure _
    | some bytes => exact .ite (.pure _) (ih _)

theorem blockRead_silent (owner : BlockOwner) (request : BlockRead) :
    Silent (blockRead owner request) := by
  refine .bind .get fun b => ?_
  rcases hmemory : b.memory with _ | memory
  · simp only; exact .pure _
  simp only
  refine .ite (.pure _) ?_
  split
  · exact .pure _
  · exact .bind (diskCurrent_silent _) fun _ => .ite (.pure _) <| .ite (.pure _)
      (readLoop_silent _ _ _ _ _ _)

/-! ### Steps of a publication -/

theorem makeDirectory_silent (path : String) : Silent (makeDirectory path) := by
  refine .bind (.sys rfl) fun r => ?_
  cases r <;> exact .pure _

theorem makeSharedDirectory_silent (path : String) : Silent (makeSharedDirectory path) := by
  refine .bind (.sys rfl) fun r => ?_
  cases r <;> exact .pure _

theorem mapperCreate_silent (control : Fd) (name : String) (device : Dev) (logical : UInt32)
    (range : BlockRange) : Silent (mapperCreate control name device logical range) := by
  refine .bind (.sys rfl) fun r => ?_
  cases r with
  | none => exact .pure _
  | some mapperDevice =>
    refine .bind (.firstFailure fun m hm => ?_) fun _ => .ite (.pure _) <|
      .bind (.ioctl _ rfl) fun _ => .pure _
    simp only [List.mem_cons, List.not_mem_nil, or_false] at hm
    rcases hm with rfl | rfl | rfl
    · exact .ioctl _ rfl
    · exact .ioctl _ rfl
    · exact .sys rfl

end HyperIoVm
