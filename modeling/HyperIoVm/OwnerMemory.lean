import HyperIoVm.Roles

/-!
# The memory of the block owner

The owner maps a window of shared memory to read metadata into, never a grant: its requests
carry no token and at most 1 MiB. `ownerCalls` counts the bytes it has mapped, and forbids
whatever belongs to a client.
-/

namespace HyperIoVm

open Effects Routine

/-! ## What the owner may call -/

/-- The bytes mapped, at most 1 MiB of them, and neither a grant nor a device. -/
def ownerCalls : Contract Sys Nat where
  allows mapped
    | .mmap _ length => mapped + length.toNat ≤ hyperIoBlockMaxRead.toNat
    | .ioAdmit _ _ => False
    | .openNode (.vhost _) | .openNode .tun => False
    | _ => True
  assumes _ _ _ := True
  next mapped
    | .mmap _ length, some _ => mapped + length.toNat
    | .munmap _ length, .ok => mapped - length.toNat
    | _, _ => mapped

theorem ownerCalls_assumed (mapped : Nat) (es : List (Event Sys)) :
    ownerCalls.Assumed mapped es :=
  Contract.assumed_of_all fun _ _ _ => trivial

/-- The bytes the backend has mapped. -/
def Backend.mappedBytes (b : Backend) : Nat := if b.memory.isSome then b.region.length.toNat else 0

/-- The owner has neither device nor token, and all that is mapped is its window. -/
structure OwnerHolds (b : Backend) (mapped : Nat) : Prop where
  owner : b.blocks.isSome = true
  storage : Absent .storage {} b
  network : Absent .network {} b
  token : b.token = 0
  mapped : mapped = b.mappedBytes

section Owner

variable {b b' : Backend} {mapped : Nat} {α : Type} {m : Service α}

theorem OwnerHolds.within (h : OwnerHolds b mapped) (hb : Within [.blocks] b b') :
    OwnerHolds b' mapped where
  owner := hb.owner.trans h.owner
  storage := h.storage.within hb (by simp [Device.owns, Device.part])
  network := h.network.within hb (by simp [Device.owns, Device.part])
  token := (hb.token (by simp)).trans h.token
  mapped := by
    rw [h.mapped, Backend.mappedBytes, Backend.mappedBytes, hb.memory (by simp),
      hb.region (by simp)]

/-- The memory fields may change when the bytes mapped are counted. -/
theorem OwnerHolds.fields (h : OwnerHolds b mapped) {mapped' : Nat} (memory : Option UInt64)
    (memoryFd : Option Fd) (region : MemoryInfo)
    (hmapped : mapped' = if memory.isSome then region.length.toNat else 0) :
    OwnerHolds { b with memory, memoryFd, token := 0, region } mapped' where
  owner := h.owner
  storage := h.storage.within (within_memory b memory memoryFd 0 region) fun _ => memory_not_owned
  network := h.network.within (within_memory b memory memoryFd 0 region) fun _ => memory_not_owned
  token := rfl
  mapped := hmapped

/-- Calls that neither map, nor admit, nor open a device. -/
theorem ownerCalls_disk {c : Call} (hc : c.purpose ∈ diskPurposes) :
    ownerCalls.allows mapped c ∧ ∀ r, ownerCalls.next mapped c r = mapped := by
  cases c with
  | openNode node =>
    refine ⟨?_, fun _ => rfl⟩
    cases node <;> first
      | exact trivial
      | exact absurd hc (by simp [diskPurposes, Call.purpose, Node.purpose])
  | _ => first
    | exact ⟨trivial, fun _ => rfl⟩
    | exact absurd hc (by simp [diskPurposes, Call.purpose])

theorem ownerCalls_inert {c : Call} (hc : c.inert = true) :
    ownerCalls.allows mapped c ∧ ∀ r, ownerCalls.next mapped c r = mapped := by
  cases c with
  | _ => first
    | exact ⟨trivial, fun _ => rfl⟩
    | exact absurd hc Bool.false_ne_true

/-- A computation that stays with the disks keeps the memory as it is. -/
theorem Uses.owner (huses : Uses diskPurposes m) (hconfined : Confined [.blocks] m) :
    Keeps ownerCalls OwnerHolds m := by
  intro b k h
  exact wp_mono (Issues.wp huses (hconfined.wp b) (fun _ hc => (ownerCalls_disk hc).1)
    fun _ r hc => (ownerCalls_disk hc).2 r) fun _ _ _ hpost => hpost.1 ▸ h.within hpost.2

theorem Silent.owner (hm : Silent m) : Keeps ownerCalls OwnerHolds m := by
  intro b k h
  exact wp_mono (hm.wp_of (fun _ _ hc => (ownerCalls_inert hc).1)
    (fun _ _ r hc => (ownerCalls_inert hc).2 r) b k)
    fun _ _ _ hpost => hpost.1 ▸ h.within (hpost.2.mono (by simp))

/-! ## Release and preparation -/

/-- The owner's state with nothing mapped. -/
structure OwnerUnmapped (b : Backend) (mapped : Nat) : Prop extends OwnerHolds b mapped where
  memory : b.memory = none

theorem OwnerUnmapped.zero (h : OwnerUnmapped b mapped) : mapped = 0 := by
  rw [h.mapped, Backend.mappedBytes, h.memory]
  rfl

theorem OwnerUnmapped.within (h : OwnerUnmapped b mapped) (hb : Within [] b b') :
    OwnerUnmapped b' mapped :=
  ⟨h.toOwnerHolds.within (hb.mono (by simp)), (hb.memory (by simp)).trans h.memory⟩

theorem OwnerUnmapped.fields (h : OwnerUnmapped b mapped) (memoryFd : Option Fd)
    (region : MemoryInfo) : OwnerUnmapped { b with memoryFd, region, token := 0 } mapped where
  toOwnerHolds := h.toOwnerHolds.fields b.memory memoryFd region (by rw [h.memory]; exact h.zero)
  memory := h.memory

theorem quiesceAll_owner (h : OwnerHolds b mapped) :
    quiesceAll.wp ownerCalls (fun r b' k => r = .ok ∧ b' = b ∧ k = mapped) b mapped := by
  have hdisk : (b.endpoint .storage).Closed := h.storage.endpoint ▸ h.storage.closed
  have hnet : (b.endpoint .network).Closed := h.network.endpoint ▸ h.network.closed
  rw [quiesceAll, wp_bind]
  refine wp_mono (quiesceDisk_closed hdisk) fun r b' k hpost => ?_
  obtain ⟨rfl, rfl, rfl⟩ := hpost
  rw [wp_bind]
  refine wp_mono (quiesceNetwork_closed hnet (h.network.tap rfl)) fun r b' k hpost => ?_
  obtain ⟨rfl, rfl, rfl⟩ := hpost
  exact ⟨rfl, rfl, rfl⟩

theorem unmapMemory_owner (h : OwnerHolds b mapped) :
    unmapMemory.wp ownerCalls (fun r b' k =>
      OwnerHolds b' k ∧ (r = .ok → OwnerUnmapped b' k)) b mapped := by
  rw [unmapMemory, wp_bind, wp_get]
  cases hmemory : b.memory with
  | none => exact ⟨h, fun _ => ⟨h, hmemory⟩⟩
  | some address =>
    dsimp only
    rw [wp_bind]
    refine wp_issue trivial fun r _ => ?_
    have hmapped : mapped = b.region.length.toNat := by
      rw [h.mapped, Backend.mappedBytes, hmemory]
      rfl
    cases r with
    | failed => exact ⟨h, fun hok => by cases hok⟩
    | ok =>
      have hnone : OwnerHolds { b with memory := none } (mapped - b.region.length.toNat) := by
        have hfields := h.fields none b.memoryFd b.region
          (show mapped - b.region.length.toNat = 0 by rw [hmapped, Nat.sub_self])
        rw [← h.token] at hfields
        exact hfields
      exact ⟨hnone, fun _ => ⟨hnone, rfl⟩⟩

theorem closeMemory_owner (h : OwnerUnmapped b mapped) :
    closeMemory.wp ownerCalls (fun _ b' k => OwnerUnmapped b' k) b mapped := by
  rw [closeMemory, wp_bind, wp_get]
  cases hfd : b.memoryFd with
  | none => exact h
  | some fd =>
    have hclosed : OwnerUnmapped { b with memoryFd := none } mapped := by
      have hfields := h.fields none b.region
      rw [← h.token] at hfields
      exact hfields
    have hclose : (do
        let _ ← close fd
        modify fun b => { b with memoryFd := none }
        return Outcome.ok : Service Outcome).wp ownerCalls (fun _ b' k => OwnerUnmapped b' k)
          b mapped :=
      ⟨trivial, fun _ _ => hclosed⟩
    dsimp only
    rw [wp_bind, wp_ite]
    split
    · refine wp_issue_ioctl trivial fun r _ => ?_
      rw [wp_ite]
      split
      · exact h
      · exact hclose
    · exact hclose

theorem releaseMemory_owner : Keeps ownerCalls OwnerHolds releaseMemory := by
  intro b mapped h
  rw [releaseMemory, wp_bind]
  refine wp_mono (quiesceAll_owner h) fun r b' k hpost => ?_
  obtain ⟨rfl, rfl, rfl⟩ := hpost
  rw [if_neg (by decide), wp_bind]
  refine wp_mono (unmapMemory_owner h) fun r b k hpost => ?_
  rw [wp_ite]
  split
  · exact hpost.1
  rename_i hunmapped
  have h := hpost.2 (by cases r with | ok => rfl | failed => exact absurd rfl hunmapped)
  rw [wp_bind]
  refine wp_mono (closeMemory_owner h) fun r b k h => ?_
  rw [wp_ite]
  split
  · exact h.toOwnerHolds
  rw [wp_bind, retireToken, wp_bind, wp_get, wp_ite, if_pos h.token]
  exact (h.fields b.memoryFd ⟨0, 0⟩).toOwnerHolds

theorem rollbackMemory_owner : Keeps ownerCalls OwnerHolds rollbackMemory :=
  keeps_bind releaseMemory_owner fun _ => keeps_pure _

/-- The owner maps nothing beyond its window. -/
theorem mapMemory_owner {prepare : MemoryPrepare} (h : OwnerUnmapped b mapped)
    (htoken : prepare.token = 0) (hlength : prepare.length ≤ hyperIoBlockMaxRead) :
    (mapMemory prepare).wp ownerCalls (fun _ b' k => OwnerHolds b' k) b mapped := by
  have hdiagnostic {b : Backend} {mapped : Nat} (h : OwnerUnmapped b mapped) :
      diagnostic.wp ownerCalls (fun _ b' k => OwnerUnmapped b' k) b mapped :=
    h.within (.diagnostic [] b)
  rw [mapMemory, wp_bind]
  refine wp_mono (hdiagnostic h) fun _ b mapped h => ?_
  rw [wp_bind, wp_get, wp_bind]
  refine wp_issue (c := .openNode _) trivial fun r _ => ?_
  cases r with
  -- the device of the memory does not open
  | error _ => exact rollbackMemory_owner b mapped h.toOwnerHolds
  | ok fd =>
    -- its descriptor is all that is held
    have hopen : OwnerUnmapped { b with memoryFd := some fd } mapped := by
      have hfields := h.fields (some fd) b.region
      rw [← h.token] at hfields
      exact hfields
    dsimp only
    rw [wp_bind, wp_modify, wp_bind]
    refine wp_mono (hdiagnostic hopen) fun _ b mapped h => ?_
    rw [wp_bind]
    refine wp_issue (c := .memoryInfo fd) trivial fun r _ => ?_
    cases r with
    -- it does not say what it can map
    | none => exact rollbackMemory_owner b mapped h.toOwnerHolds
    | some window =>
      dsimp only
      rw [wp_ite]
      split
      · -- the grant does not lie in its window
        exact rollbackMemory_owner b mapped h.toOwnerHolds
      rw [wp_bind]
      refine wp_issue_ioctl trivial fun r _ => ?_
      rw [wp_ite]
      split
      · -- it is not prepared
        exact rollbackMemory_owner b mapped h.toOwnerHolds
      rw [wp_bind]
      refine wp_mono (hdiagnostic h) fun _ b mapped h => ?_
      rw [wp_bind]
      refine wp_issue (c := .mmap fd prepare.length) ?_ fun r _ => ?_
      · -- nothing else is mapped, so the limit is kept
        show mapped + prepare.length.toNat ≤ hyperIoBlockMaxRead.toNat
        rw [h.zero, Nat.zero_add]
        exact UInt64.le_iff_toNat_le.mp hlength
      · cases r with
        -- it cannot be mapped
        | none => exact rollbackMemory_owner b mapped h.toOwnerHolds
        | some address =>
          dsimp only
          rw [wp_bind, diagnostic, wp_modify, wp_bind, wp_modify, htoken]
          refine (h.within (.diagnostic [] b)).toOwnerHolds.fields (some address) (some fd)
            ⟨prepare.guestBase, prepare.length⟩ ?_
          show mapped + prepare.length.toNat = prepare.length.toNat
          rw [h.zero, Nat.zero_add]

theorem prepareMemory_owner (request : PrepareMemory) :
    Keeps ownerCalls OwnerHolds (prepareMemory request) := by
  intro b mapped h
  rw [prepareMemory, wp_bind, wp_get, wp_ite]
  split
  · exact h
  rename_i hfree
  simp only [Bool.or_eq_true, not_or, Bool.not_eq_true, Option.isSome_eq_false_iff,
    Option.isNone_iff_eq_none] at hfree
  rw [wp_ite]
  split
  · exact h
  rename_i hrequest
  simp only [h.owner, Bool.true_and, Bool.or_eq_true, not_or, decide_eq_true_eq, bne_iff_ne,
    not_not, UInt64.not_lt, gt_iff_lt] at hrequest
  obtain ⟨-, hlength, htoken⟩ := hrequest
  rw [if_pos htoken]
  exact mapMemory_owner ⟨h, hfree.1.1.2⟩ htoken hlength

/-! ## Dispatch -/

/-- Whatever an owner is asked, it stays an owner. -/
theorem dispatchOperation_owner (op : Operation) (m : Bytes) :
    Keeps ownerCalls OwnerHolds (dispatchOperation op m) := by
  -- an owner has no disk of its own
  have hactivate (message : Activate) : Keeps ownerCalls OwnerHolds (activateDisk message) := by
    intro b mapped h
    have hwwpn : b.wwpn = "" := by simpa [Backend.hasDevice] using h.storage.device
    rw [activateDisk, wp_bind, wp_get, wp_ite, if_pos hwwpn]
    exact h
  -- nor a network
  have hnetwork (request : Activate) : Keeps ownerCalls OwnerHolds (activateNetwork request) := by
    intro b mapped h
    have habsent : (!b.network) = true := by simpa [Backend.hasDevice] using h.network.device
    rw [activateNetwork, wp_bind, wp_get]
    dsimp only
    rw [wp_ite, if_pos habsent]
    exact h
  have hreset (d : Device) (queueStop : Bool) :
      Keeps ownerCalls OwnerHolds (resetDevice d queueStop m) := by
    intro b mapped h
    have habsent : (!b.hasDevice d) = true := by
      cases d with
      | storage => rw [h.storage.device]; rfl
      | network => rw [h.network.device]; rfl
    unfold resetDevice
    rw [wp_bind, wp_get, wp_ite]
    split <;> split <;> exact h
  refine keeps_bind keeps_get fun b => ?_
  cases op with
  | hello => exact (helloDevice_silent .storage _).owner
  | networkHello => exact (helloDevice_silent .network _).owner
  | prepareMemory =>
    exact keeps_ite (fun _ => keeps_bind (prepareMemory_owner _) fun _ => keeps_pure _)
      fun _ => keeps_pure _
  | activate =>
    exact keeps_ite (fun _ => keeps_bind (hactivate _) fun _ => keeps_pure _) fun _ => keeps_pure _
  | networkActivate =>
    exact keeps_ite (fun _ => keeps_bind (hnetwork _) fun _ => keeps_pure _) fun _ => keeps_pure _
  | reset => exact keeps_bind (hreset .storage _) fun _ => keeps_pure _
  | stopQueue => exact keeps_bind (hreset .storage _) fun _ => keeps_pure _
  | networkReset => exact keeps_bind (hreset .network _) fun _ => keeps_pure _
  | networkStopQueue => exact keeps_bind (hreset .network _) fun _ => keeps_pure _
  | releaseMemory => exact keeps_pure _
  | blockHello => exact keeps_pure _
  | blockEnum => exact keeps_pure _
  | blockRead => exact keeps_pure _
  | blockBind => exact keeps_pure _
  | unknown code => exact keeps_pure _

theorem dispatch_owner (session : Session) (m : Bytes) :
    Keeps ownerCalls OwnerHolds (dispatch session m) := by
  have hblock (hop : (operationOf m).isBlock = true) :
      Keeps ownerCalls OwnerHolds (blockDispatch m) :=
    (blockDispatch_uses m).owner ((blockDispatch_confined m).mono fun p hp => by
      rw [Operation.blocks_of_isBlock hop hp]
      exact List.mem_cons_self)
  exact keeps_bind keeps_get fun _ => keeps_ite
    (fun _ => keeps_bind releaseMemory_owner fun _ => keeps_pure _) fun _ =>
      keeps_ite (fun _ => keeps_pure _) fun _ => keeps_ite
        (fun hop => keeps_bind (hblock hop) fun _ => keeps_pure _)
        fun _ => keeps_bind (dispatchOperation_owner _ m) fun _ => keeps_pure _

end Owner

end HyperIoVm
