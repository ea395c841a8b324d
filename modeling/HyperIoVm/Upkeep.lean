import HyperIoVm.Acquire

/-!
# Descriptors in passing, and custody in general

The block owner opens nodes that no field of the backend accounts for: disks, which it keeps,
and control files, which it closes again. `Steady others` is custody together with such
descriptors. With it, custody extends to every operation, and to every record.
-/

namespace HyperIoVm

open Effects Routine

variable {b : Backend} {k : Outside} {others : List Fd} {fd : Fd}

/-- Custody, with the descriptors `others` open for purposes of their own. -/
structure Steady (others : List Fd) (b : Backend) (k : Outside) : Prop where
  custody : Custody b k
  others : k.fresh = true → others.Nodup ∧ ∀ fd ∈ others, k.fds fd = some .other

namespace Steady

theorem opened (h : Steady others b k) (fd : Fd) :
    Steady (fd :: others) b (k.acquire fd .other) where
  custody := h.custody.acquire_other fd
  others hfresh := by
    simp only [Outside.acquire, Bool.and_eq_true, Option.isNone_iff_eq_none] at hfresh
    obtain ⟨hnodup, hothers⟩ := h.others hfresh.1
    have hnew : fd ∉ others := fun hmem => by
      rw [hothers fd hmem] at hfresh
      cases hfresh.2
    refine ⟨List.nodup_cons.mpr ⟨hnew, hnodup⟩, fun fd' hfd' => ?_⟩
    rcases List.mem_cons.mp hfd' with rfl | hmem
    · simp [Outside.acquire]
    · have hne : fd' ≠ fd := fun he => hnew (he ▸ hmem)
      simp [Outside.acquire, Function.update_of_ne hne, hothers fd' hmem]

theorem order (h : Steady (fd :: others) b k) (hfresh : k.fresh = true) :
    k.RetirementOrder (.close fd) :=
  ⟨.other, (h.others hfresh).2 fd List.mem_cons_self, trivial⟩

theorem closed (h : Steady (fd :: others) b k) : Steady others b (k.release fd) where
  custody := h.custody.release_other fun hfresh => (h.others hfresh).2 fd List.mem_cons_self
  others hfresh := by
    obtain ⟨hnodup, hothers⟩ := h.others hfresh
    obtain ⟨hnew, hnodup⟩ := List.nodup_cons.mp hnodup
    refine ⟨hnodup, fun fd' hfd' => ?_⟩
    have hne : fd' ≠ fd := fun he => hnew (he ▸ hfd')
    simp [Outside.release, Function.update_of_ne hne, hothers fd' (List.mem_cons_of_mem _ hfd')]

/-- A descriptor may stay open. -/
theorem kept (h : Steady (fd :: others) b k) : Steady others b k where
  custody := h.custody
  others hfresh := by
    obtain ⟨hnodup, hothers⟩ := h.others hfresh
    exact ⟨(List.nodup_cons.mp hnodup).2, fun fd' hfd' => hothers fd' (List.mem_cons_of_mem _ hfd')⟩

theorem within {b' : Backend} (h : Steady others b k) (hb : Within [.blocks] b b') :
    Steady others b' k := ⟨h.custody.within hb, h.others⟩

end Steady

/-- `m` keeps custody whatever else is open. -/
def Upkeep {α : Type} (m : Service α) : Prop := ∀ others, Keeps linux (Steady others) m

namespace Upkeep

variable {α β : Type} {m : Service α} {f : α → Service β}

theorem custody (hm : Upkeep m) (h : Custody b k) :
    m.wp linux (fun _ b' k' => Custody b' k') b k :=
  wp_mono (hm [] b k ⟨h, fun _ => ⟨.nil, by simp⟩⟩) fun _ _ _ h => h.custody

theorem of_silent (h : Silent m) : Upkeep m := fun _ b k hs =>
  wp_mono (h.wp b k) fun _ _ _ hsame => hsame.1 ▸ hs.within (hsame.2.mono (by simp))

theorem pure (a : α) : Upkeep (Pure.pure a : Service α) := fun _ => keeps_pure a

theorem bind (hm : Upkeep m) (hf : ∀ a, Upkeep (f a)) : Upkeep (m >>= f) :=
  fun others => keeps_bind (hm others) fun a => hf a others

theorem ite {p : Prop} [Decidable p] {m' : Service α} (h : Upkeep m) (h' : Upkeep m') :
    Upkeep (if p then m else m') := fun others => keeps_ite (fun _ => h others) fun _ => h' others

theorem sys {c : Call} (h : c.inert = true) : Upkeep (HyperIoVm.sys c) := of_silent (.sys h)

theorem get : Upkeep (MonadState.get : Service Backend) := of_silent .get

theorem firstFailure {ms : List (Service Outcome)} (h : ∀ m ∈ ms, Upkeep m) :
    Upkeep (firstFailure ms) := by
  induction ms with
  | nil => exact pure _
  | cons m ms ih =>
    refine (h m List.mem_cons_self).bind fun r => ite (pure _) ?_
    exact ih fun m' hm' => h m' (List.mem_cons_of_mem _ hm')

theorem modifyBlocks (f : BlockOwner → BlockOwner) : Upkeep (modifyBlocks f) := fun _ =>
  keeps_modify fun b _ h => h.within (within_blocks b f)

end Upkeep

/-- Opening a node in passing: what follows either never has the descriptor, or has it. -/
theorem keeps_openNode {α : Type} {node : Node} (hnode : node.object = .other)
    {m : Except Errno Fd → Service α} (herror : ∀ e, Keeps linux (Steady others) (m (.error e)))
    (hok : ∀ fd b k, Steady (fd :: others) b k →
      (m (.ok fd)).wp linux (fun _ b' k' => Steady others b' k') b k) :
    Keeps linux (Steady others) (openNode node >>= m) := fun b k h => by
  rw [wp_bind]
  refine wp_sys (.openNode node) ⟨fun _ => trivial, trivial⟩ fun r => ?_
  cases r with
  | error e => exact herror e b k h
  | ok fd => exact hok fd b _ (by simpa only [Outside.next, hnode] using h.opened fd)

/-- Closing a descriptor in passing. -/
theorem wp_close (h : Steady (fd :: others) b k) {Q : Outcome → Backend → Outside → Prop}
    (hQ : ∀ r k', Steady others b k' → Q r b k') : (close fd).wp linux Q b k :=
  wp_sys (.close fd) ⟨h.order, trivial⟩ fun r => hQ r _ h.closed

/-! ## Publication -/

theorem writeAttribute_upkeep (path value : String) : Upkeep (writeAttribute path value) := by
  intro others
  refine keeps_openNode rfl (fun _ => keeps_pure _) fun fd b k h => ?_
  simp only [wp_bind, wp_pure]
  refine wp_mono (Upkeep.sys (c := .write fd value) rfl (fd :: others) b k h) ?_
  exact fun _ b k h => wp_close h fun _ _ h => h

theorem targetRollback_upkeep (p : TargetPaths) (made : Nat) : Upkeep (targetRollback p made) :=
  .bind (.ite (writeAttribute_upkeep _ _) (.pure _)) fun _ =>
    .bind (.ite (.sys rfl) (.pure _)) fun _ => .bind (.ite (.sys rfl) (.pure _)) fun _ =>
      .bind (.ite (.sys rfl) (.pure _)) fun _ => .bind (.ite (.sys rfl) (.pure _)) fun _ => .pure _

theorem targetCreate_upkeep (client : UInt32) (mapper : String) (readOnly : UInt32) :
    Upkeep (targetCreate client mapper readOnly) := by
  have hdirectory (path : String) : Upkeep (makeDirectory path) :=
    .of_silent (makeDirectory_silent path)
  refine .bind (hdirectory _) fun _ =>
    .ite (.pure _) <| .bind (.firstFailure fun m hm => ?_) fun _ =>
    .ite (targetRollback_upkeep _ _) <| .bind (hdirectory _) fun _ =>
      .ite (targetRollback_upkeep _ _) <| .bind (hdirectory _) fun _ =>
        .ite (targetRollback_upkeep _ _) <| .bind (writeAttribute_upkeep _ _) fun _ =>
          .ite (targetRollback_upkeep _ _) <| .bind (.sys rfl) fun _ =>
            .ite (targetRollback_upkeep _ _) (.pure _)
  simp only [List.mem_cons, List.not_mem_nil, or_false] at hm
  rcases hm with rfl | rfl | rfl
  · exact writeAttribute_upkeep _ _
  · exact writeAttribute_upkeep _ _
  · exact hdirectory _

theorem blockTargetPublish_upkeep (client : UInt32) (device : Dev) (logical : UInt32)
    (range : BlockRange) : Upkeep (blockTargetPublish client device logical range) := by
  have hexport (control : Fd) (mapper : String) :
      Upkeep (exportMapper control client mapper range.readOnly) :=
    .bind (targetCreate_upkeep _ _ _) fun _ => .ite (.pure _) <|
      .bind (.of_silent (.ioctl _ rfl)) fun _ => .ite (.pure _) (.bind (.sys rfl) fun _ => .pure _)
  refine .bind (.firstFailure fun m hm => ?_) fun _ => .ite (.pure _) fun others => ?_
  · simp only [List.mem_cons, List.not_mem_nil, or_false] at hm
    rcases hm with rfl | rfl | rfl <;> exact .of_silent (makeSharedDirectory_silent _)
  · refine keeps_openNode rfl (fun _ => keeps_pure _) fun control b k h => ?_
    simp only [wp_bind, wp_pure]
    refine wp_mono (Upkeep.of_silent (mapperCreate_silent control _ device logical range)
      (control :: others) b k h) ?_
    rintro created b k h
    refine wp_mono (Upkeep.ite (hexport control _) (.pure _) (control :: others) b k h) ?_
    exact fun _ b k h => wp_close h fun _ _ h => h

/-! ## Discovery -/

/-- A disk that was probed has the descriptor it was probed with, and a valid geometry. -/
theorem probeDisk_disk (fd : Fd) (b : Backend) :
    (probeDisk fd).wp (.free Sys) (fun r _ _ =>
      ∀ disk, r = some disk → disk.fd = fd ∧ disk.geometryValid = true) b () := by
  simp only [probeDisk, wp_bind]
  refine wp_sys_free (.fstat fd) fun r => ?_
  rcases r with _ | status
  · simp
  simp only [wp_ite, wp_bind, wp_pure]
  split
  · -- it is no block device
    simp
  refine wp_sys_free (.blkGetSize64 fd) fun r => ?_
  rcases r with _ | bytes
  · simp
  simp only [wp_bind]
  refine wp_sys_free (.blkGetDiskSeq fd) fun r => ?_
  rcases r with _ | sequence
  · simp
  simp only [wp_bind]
  refine wp_sys_free (.blkSszGet fd) fun r => ?_
  rcases r with _ | logical
  · simp
  simp only [wp_bind]
  refine wp_sys_free (.blkPbszGet fd) fun r => ?_
  rcases r with _ | physical
  · simp
  simp only [wp_bind]
  refine wp_sys_free (.blkRoGet fd) fun r => ?_
  rcases r with _ | readOnly
  · simp
  -- all of it was told, and what it is of is judged
  intro disk hdisk
  split at hdisk
  next hvalid =>
    obtain rfl := Option.some.inj hdisk
    exact ⟨rfl, hvalid⟩
  next => cases hdisk

theorem recordDisk_keeps (disk : PhysicalDisk) (h : Steady (disk.fd :: others) b k) :
    (recordDisk disk).wp linux (fun _ b' k' => Steady others b' k') b k := by
  simp only [recordDisk, wp_bind, wp_get]
  split
  · simp only [wp_bind, wp_pure]
    exact wp_close h fun _ _ h => h
  · simp only [wp_bind, wp_ite, wp_pure]
    split
    · exact wp_close h fun _ _ h => h
    · exact wp_mono (Upkeep.modifyBlocks _ _ b k h) fun _ _ _ h => h.kept

theorem discoverDisks_upkeep : Upkeep discoverDisks := by
  have hdisk (name : String) : Upkeep (discoverDisk name) := by
    refine .ite (.pure _) <| .bind (.sys rfl) fun _ => .ite (.pure _) <| .bind (.sys rfl) fun _ =>
      .ite (.pure _) fun others => ?_
    refine keeps_openNode rfl (fun _ => keeps_pure _) fun fd b k h => ?_
    simp only [wp_bind]
    refine wp_mono (wp_and_free (Upkeep.of_silent (probeDisk_silent fd) (fd :: others) b k h)
      (probeDisk_disk fd b)) ?_
    rintro (_ | disk) b k ⟨h, hdisk⟩
    · simp only [wp_bind, wp_pure]
      exact wp_close h fun _ _ h => h
    · obtain ⟨rfl, -⟩ := hdisk disk rfl
      exact recordDisk_keeps disk h
  refine .bind (.sys rfl) fun r => ?_
  cases r with
  | none => exact .pure _
  | some names =>
    refine .firstFailure fun m hm => ?_
    obtain ⟨name, -, rfl⟩ := List.mem_map.mp hm
    exact hdisk name

theorem blockDispatch_upkeep (m : Bytes) : Upkeep (blockDispatch m) := by
  have hpublish (client : Fin 128) (disk : PhysicalDisk) (range : BlockRange) :
      Upkeep (publishRange client disk range) :=
    .bind (blockTargetPublish_upkeep _ _ _ _) fun _ => .ite (.pure _) <|
      .bind (.modifyBlocks _) fun _ => .pure _
  have hbind (owner : BlockOwner) (request : BlockBind) : Upkeep (bindRange owner request) := by
    unfold bindRange
    dsimp only
    split
    · refine .ite (.pure _) ?_
      split
      · exact .pure _
      · exact .bind (.of_silent (diskCurrent_silent _)) fun _ => .ite (.pure _) <| .ite (.pure _) <|
          .ite (.pure _) <| .ite (.pure _) (hpublish _ _ _)
    · exact .pure _
  refine .bind .get fun b => ?_
  rcases hblocks : b.blocks with _ | owner
  · simp only; exact .pure _
  simp only
  split
  · exact .pure _
  · exact .ite (.pure _) <| .bind (.ite discoverDisks_upkeep (.pure _)) fun _ =>
      .ite (.pure _) <| .bind .get fun _ => .pure _
  · exact .bind (.of_silent (blockRead_silent _ _)) fun _ => .pure _
  · exact .bind (hbind _ _) fun _ => .pure _
  · exact .pure _

/-! ## Every operation -/

theorem resetDevice_custody (d : Device) (queueStop : Bool) (m : Bytes) :
    Keeps linux Custody (resetDevice d queueStop m) := by
  have hquiesce : Keeps linux Custody (quiesceDevice d) := by
    intro b k h
    cases d with
    | storage => exact wp_mono (quiesceDisk_custody h) fun _ _ _ hpost => hpost.1
    | network => exact wp_mono (quiesceNetwork_custody h) fun _ _ _ hpost => hpost.1
  exact keeps_bind keeps_get fun _ => keeps_ite (fun _ => keeps_pure _) fun _ =>
    keeps_ite (fun _ => keeps_pure _) fun _ => keeps_ite (fun _ => keeps_pure _) fun _ =>
      keeps_bind hquiesce fun _ => keeps_pure _

/-- What an operation other than `PREPARE_MEMORY` and `RELEASE_MEMORY` may touch is not the
memory. -/
theorem Operation.memory_not_mem {op : Operation} (hprepare : op ≠ .prepareMemory)
    (hrelease : op ≠ .releaseMemory) : Part.memory ∉ op.parts := by
  cases op <;> first
    | exact absurd rfl hprepare
    | exact absurd rfl hrelease
    | simp [Operation.parts, networkParts]

theorem Within.holding {ps : List Part} {b b' : Backend} (h : Within ps b b')
    (hps : Part.memory ∉ ps) (hb : b.Holding) : b'.Holding := by
  unfold Backend.Holding at hb ⊢
  rw [h.memory hps, h.memoryFd hps, h.token hps]
  exact hb

/-- Every operation of the switch keeps custody, and what is held stays held; a
`PREPARE_MEMORY` that could not be undone leaves something held. -/
theorem dispatchOperation_custody (h : Custody b k) (op : Operation) (m : Bytes) :
    (dispatchOperation op m).wp linux (fun r b' k' => Custody b' k' ∧
      (b.Holding → b'.Holding) ∧
      (op = .prepareMemory → r.status = .quiescenceFailed → b'.Holding)) b k := by
  have hconfined := (dispatchOperation_confined op m).wp b
  by_cases hprepare : op = .prepareMemory
  · subst hprepare
    simp only [dispatchOperation, wp_bind, wp_get, wp_ite, wp_pure]
    -- a request of the right length, on a managed device
    split
    · refine wp_mono (prepareMemory_custody h _) ?_
      rintro r b' k' (⟨⟨h', hends⟩, hfree⟩ | ⟨hrefused, rfl, rfl⟩)
      · refine ⟨h', fun hb => absurd hb hfree, fun _ hr => ?_⟩
        rcases hends with ⟨rfl, -⟩ | ⟨rfl, -⟩ | ⟨-, hholding⟩
        · cases hr
        · cases hr
        · exact hholding
      · exact ⟨h, id, fun _ hr => by rcases hrefused with rfl | rfl <;> cases hr⟩
    · exact ⟨h, id, fun _ hr => by cases hr⟩
  by_cases hrelease : op = .releaseMemory
  · subst hrelease
    -- the release is dispatched before
    exact ⟨h, id, by simp⟩
  -- the other operations
  have hcustody : (dispatchOperation op m).wp linux (fun _ b' k' => Custody b' k') b k := by
    simp only [dispatchOperation, wp_bind, wp_get]
    cases op with
    | hello => exact (helloDevice_silent .storage _).custody h
    | networkHello => exact (helloDevice_silent .network _).custody h
    | prepareMemory => exact absurd rfl hprepare
    | activate =>
      simp only [wp_ite, wp_bind, wp_pure]
      split
      · exact activateDisk_custody h _
      · exact h
    | networkActivate =>
      simp only [wp_ite, wp_bind, wp_pure]
      split
      · exact activateNetwork_custody h _
      · exact h
    | reset => simp only [wp_bind, wp_pure]; exact resetDevice_custody .storage false m b k h
    | stopQueue => simp only [wp_bind, wp_pure]; exact resetDevice_custody .storage true m b k h
    | networkReset => simp only [wp_bind, wp_pure]; exact resetDevice_custody .network false m b k h
    | networkStopQueue =>
      simp only [wp_bind, wp_pure]
      exact resetDevice_custody .network true m b k h
    | _ => exact h
  refine wp_mono (wp_and_free hcustody hconfined) ?_
  rintro r b' k' ⟨h', hwithin⟩
  exact ⟨h', hwithin.holding (Operation.memory_not_mem hprepare hrelease),
    fun hp => absurd hp hprepare⟩

/-- `dispatch` keeps custody. A `RELEASE_MEMORY` releases everything or leaves something held;
no other operation loses hold of anything. -/
theorem dispatch_custody (h : Custody b k) (session : Session) (m : Bytes) :
    (dispatch session m).wp linux (fun r b' k' => Custody b' k' ∧
      (isRelease m = true →
        r.1.status = .ok ∧ b'.Released ∧ r.2 = hyperIoSessionRetire session ∨
          r.1.status = .quiescenceFailed ∧ b'.Holding) ∧
      (isRelease m = false → (b.Holding → b'.Holding) ∧
        (operationOf m = .prepareMemory → r.1.status = .quiescenceFailed → b'.Holding))) b k := by
  simp only [dispatch, wp_bind, wp_get, wp_ite, wp_pure, h.sane.managed, Bool.and_true]
  split
  -- the memory is released, with all that uses it
  next hrelease =>
    refine wp_mono (releaseMemory_custody h) ?_
    rintro r b' k' ⟨h', hpost⟩
    refine ⟨h', fun _ => ?_, fun hn => absurd (hrelease.symm.trans hn) (by decide)⟩
    exact hpost.imp_left fun h => ⟨h.1, h.2, by rw [if_pos h.1]⟩
  rename_i hrelease
  -- what is refused here leaves all as it is
  have hother {r : Status} (hr : r ≠ .quiescenceFailed) :
      (isRelease m = true → r = .ok ∧ b.Released ∧ session = hyperIoSessionRetire session ∨
          r = .quiescenceFailed ∧ b.Holding) ∧
        (isRelease m = false → (b.Holding → b.Holding) ∧
          (operationOf m = .prepareMemory → r = .quiescenceFailed → b.Holding)) :=
    ⟨fun hn => absurd hn hrelease, fun _ => ⟨id, fun _ hq => absurd hq hr⟩⟩
  split
  · exact ⟨h, hother (by decide)⟩
  split
  -- an operation of the block service
  next hblock =>
    refine wp_mono (wp_and_free ((blockDispatch_upkeep m).custody h)
      ((blockDispatch_confined m).wp b)) ?_
    rintro r b' k' ⟨h', hwithin⟩
    have hprepare : operationOf m ≠ .prepareMemory := by
      intro hp; rw [hp] at hblock; cases hblock
    have hop : operationOf m ≠ .releaseMemory := by
      intro hp; rw [hp] at hblock; cases hblock
    exact ⟨h', fun hn => absurd hn hrelease, fun _ =>
      ⟨hwithin.holding (Operation.memory_not_mem hprepare hop), fun hp => absurd hp hprepare⟩⟩
  -- an operation of the device
  next =>
    refine wp_mono (dispatchOperation_custody h (operationOf m) m) ?_
    rintro r b' k' ⟨h', hkept, hfailed⟩
    exact ⟨h', fun hn => absurd hn hrelease, fun _ => ⟨hkept, hfailed⟩⟩

end HyperIoVm
