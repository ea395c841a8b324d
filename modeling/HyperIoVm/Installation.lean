import HyperIoVm.Activation
import HyperIoVm.Bridge
import HyperIoVm.Rings

/-!
# Rings as they are installed

What `configure_vhost` tells vhost and the notification driver about rings it has accepted: the
memory table is that of the mapping, every ring address is the one the table gives to the
guest's address, and the record of eventfds names a pair for exactly the configured queues.
-/

namespace HyperIoVm

open Effects Routine Data

/-! ## Ring addresses -/

theorem getElem?_flatMap {α β : Type} {f : α → List β} {n : Nat} (h : ∀ a, (f a).length = n)
    (l : List α) (i : Nat) {j : Nat} (hj : j < n) :
    (l.flatMap f)[n * i + j]? = l[i]?.bind fun a => (f a)[j]? := by
  induction l generalizing i with
  | nil => simp
  | cons a l ih =>
    rw [List.flatMap_cons]
    cases i with
    | zero =>
      rw [Nat.mul_zero, Nat.zero_add, List.getElem?_append_left (by rw [h]; exact hj)]
      rfl
    | succ i =>
      have hindex : n * (i + 1) + j = (f a).length + (n * i + j) := by
        rw [h, Nat.mul_succ]
        omega
      rw [hindex, List.getElem?_append_right (Nat.le_add_right _ _), Nat.add_sub_cancel_left, ih]
      rfl

/-- The area validated for part `part` of a configured queue. -/
theorem getElem?_hostAreas (b : Backend) {queues : List Queue} {i part : Nat} {q : Queue} {s : Span}
    (hq : queues[i]? = some q) (hsize : q.size ≠ 0) (hs : q.areas[part]? = some s) :
    ((queues.flatMap Queue.slots).map b.hostArea)[3 * i + part]? = some (b.hostArea (some s)) := by
  have hpart : part < 3 := (List.getElem?_eq_some_iff.mp hs).1
  rw [List.getElem?_map, getElem?_flatMap (fun q => Queue.length_slots) queues i hpart, hq]
  simp [Queue.slots, hsize, hs]

/-! ## The contract -/

/-- A memory table of vhost: where the guest's memory lies in the service's. -/
structure MemTable where
  guestPhysAddr : UInt64
  memorySize : UInt64
  userspaceAddr : UInt64
  deriving DecidableEq, Repr

/-- The table gives the guest's area `s` the address `address`, in the memory it maps. -/
structure MemTable.Maps (t : MemTable) (s : Span) (address : UInt64) : Prop where
  inside : s.Within ⟨t.guestPhysAddr.toNat, t.memorySize.toNat⟩
  translated : address.toNat = t.userspaceAddr.toNat + (s.start - t.guestPhysAddr.toNat)
  mapped : Span.Within ⟨address.toNat, s.length⟩ ⟨t.userspaceAddr.toNat, t.memorySize.toNat⟩

/-- The table of a client's memory. -/
def Backend.memTable (b : Backend) : MemTable :=
  ⟨b.region.guestBase, b.region.length, b.memoryAddress⟩

/-- The record names a pair of eventfds for exactly the configured queues. -/
structure Eventfds.Pairs (fds : Eventfds) (queues : List Queue) : Prop where
  configured : ∀ (i : Fin 6) (q : Queue), queues[i.val]? = some q → q.size ≠ 0 →
    0 ≤ fds.kick i ∧ 0 ≤ fds.call i
  unused : ∀ i : Fin 6, (∀ q : Queue, queues[i.val]? = some q → q.size = 0) →
    fds.kick i = -1 ∧ fds.call i = -1

/-- The record states the epoch of the activation, and pairs its queues. -/
def Eventfds.Describes (fds : Eventfds) (epoch : UInt32) (queues : List Queue) : Prop :=
  fds.epoch = epoch ∧ fds.reserved = 0 ∧ fds.Pairs queues

/-- The table a call has given to vhost. -/
def Call.tableSet (c : Call) : c.Reply → Option MemTable :=
  match c with
  | .ioctl _ (.setMemTable guest size user) =>
    fun (r : Outcome) => if r = .ok then some ⟨guest, size, user⟩ else none
  | _ => fun _ => none

/-- An activation of `queues` over the memory of `b`, from the table vhost has been given in it:
every ring address is translated by that table. -/
def installation (b : Backend) (epoch : UInt32) (queues : List Queue) :
    Contract Sys (Option MemTable) where
  allows table c :=
    match c with
    | .ioctl _ (.setMemTable guest size user) => (⟨guest, size, user⟩ : MemTable) = b.memTable
    | .ioctl _ (.setVringAddr i desc avail used) => ∃ t q, table = some t ∧ queues[i]? = some q ∧
        t.Maps q.descriptorArea desc ∧ t.Maps q.availableArea avail ∧ t.Maps q.usedArea used
    | .ioctl _ (.bind fds) => fds.Describes epoch queues
    | _ => True
  assumes _ _ _ := True
  next table c r := (c.tableSet r).or table

variable {b₀ b : Backend} {d : Device} {epoch : UInt32} {queues : List Queue}
variable {table : Option MemTable}

theorem installation_assumed (es : List (Event Sys)) :
    (installation b₀ epoch queues).Assumed table es :=
  Contract.assumed_of_all fun _ _ _ => trivial

/-! ## The calls of the installation -/

/-- A vhost ioctl the contract allows: it fails, or leaves the state of the service alone. -/
theorem vhostIoctl_wp {K : Type} {C : Contract Sys K} {k : K} {command : Command}
    {Q : Outcome → Backend → K → Prop} (hallow : ∀ fd, C.allows k (.ioctl fd command))
    (hok : ∀ fd, Q .ok b (C.next k (.ioctl fd command) Outcome.ok))
    (hfailed : ∀ b' k', Q .failed b' k') : (vhostIoctl d command).wp C Q b k := by
  rw [vhostIoctl, wp_bind, wp_get, wp_bind]
  cases (b.endpoint d).fd with
  | none => exact hfailed _ _
  | some fd =>
    refine wp_issue_ioctl (hallow fd) fun r _ => ?_
    cases r with
    | ok => exact hok fd
    | failed => exact hfailed _ _

/-- A step of a chain of vhost ioctls: the chain goes on where the ioctl succeeds. -/
theorem vhostIoctl_chain {K : Type} {C : Contract Sys K} {k : K} {command : Command}
    {ms : List (Service Outcome)} {Q : Outcome → Backend → K → Prop}
    (hallow : ∀ fd, C.allows k (.ioctl fd command))
    (hok : ∀ fd, (firstFailure ms).wp C Q b (C.next k (.ioctl fd command) Outcome.ok))
    (hfailed : ∀ b' k', Q .failed b' k') :
    (firstFailure (vhostIoctl d command :: ms)).wp C Q b k :=
  firstFailure_cons (vhostIoctl_wp hallow (fun fd => by rw [if_neg (by decide)]; exact hok fd)
    fun b' k' => by rw [if_pos rfl]; exact hfailed b' k')

/-- After the setup vhost has the table of the client's memory. -/
theorem setupVhost_installs (features : UInt64) (hb : b.memTable = b₀.memTable) :
    (setupVhost d features).wp (installation b₀ epoch queues) (fun r b' table' =>
      r = .ok → b' = b ∧ table' = some b₀.memTable) b table := by
  rw [setupVhost, wp_bind, wp_get]
  have hchain (table : Option MemTable) : (firstFailure
      [vhostIoctl d .setOwner, vhostIoctl d (.setFeatures features),
        vhostIoctl d (.setMemTable b.region.guestBase b.region.length b.memoryAddress)]).wp
      (installation b₀ epoch queues) (fun r b' table' =>
        r = .ok → b' = b ∧ table' = some b₀.memTable) b table := by
    refine vhostIoctl_chain (fun _ => trivial) (fun _ => ?_) (fun _ _ h => by cases h)
    refine vhostIoctl_chain (fun _ => trivial) (fun _ => ?_) (fun _ _ h => by cases h)
    refine vhostIoctl_chain (fun _ => hb) (fun _ _ => ⟨rfl, ?_⟩) (fun _ _ h => by cases h)
    rw [← hb]
    rfl
  split
  · exact vhostIoctl_chain (fun _ => trivial) (fun _ => hchain table) (fun _ _ h => by cases h)
  · exact hchain table

/-- The rings of a queue, at the addresses the table gives them. -/
theorem installRings_installs {areas : List Area} {i : Fin 6} {q : Queue}
    (hq : queues[i.val]? = some q) (hareas : ∀ (part : Nat) (s : Span), q.areas[part]? = some s →
      b₀.memTable.Maps s (ringStart areas i part)) :
    (installRings d areas i q).wp (installation b₀ epoch queues) (fun r b' table' =>
      r = .ok → b' = b ∧ table' = some b₀.memTable) b (some b₀.memTable) := by
  refine vhostIoctl_chain (fun _ => trivial) (fun _ => ?_) (fun _ _ h => by cases h)
  refine vhostIoctl_chain (fun _ => ⟨b₀.memTable, q, rfl, hq, ?_⟩) (fun _ => ?_)
    (fun _ _ h => by cases h)
  · exact ⟨hareas 0 _ rfl, hareas 1 _ rfl, hareas 2 _ rfl⟩
  · exact vhostIoctl_chain (fun _ => trivial) (fun _ _ => ⟨rfl, rfl⟩) (fun _ _ h => by cases h)

/-- What rounds over `qs` do to the record: a pair for each configured queue, and nothing
else. -/
structure Recorded (qs : List (Fin 6 × Queue)) (fds fds' : Eventfds) : Prop where
  epoch : fds'.epoch = fds.epoch
  reserved : fds'.reserved = fds.reserved
  paired : ∀ p ∈ qs, p.2.size ≠ 0 → 0 ≤ fds'.kick p.1 ∧ 0 ≤ fds'.call p.1
  kept : ∀ i, (∀ q, (i, q) ∈ qs → q.size = 0) →
    fds'.kick i = fds.kick i ∧ fds'.call i = fds.call i

theorem Recorded.refl (fds : Eventfds) : Recorded [] fds fds :=
  ⟨rfl, rfl, fun _ hp => absurd hp List.not_mem_nil, fun _ _ => ⟨rfl, rfl⟩⟩

theorem Recorded.append {qs qs' : List (Fin 6 × Queue)} {fds fds₁ fds' : Eventfds}
    (h : Recorded qs fds fds₁) (h' : Recorded qs' fds₁ fds') : Recorded (qs ++ qs') fds fds' where
  epoch := h'.epoch.trans h.epoch
  reserved := h'.reserved.trans h.reserved
  paired := by
    intro p hp hsize
    -- a later round on the same queue pairs it again
    by_cases hagain : ∀ q, (p.1, q) ∈ qs' → q.size = 0
    · have hkept := h'.kept p.1 hagain
      rw [hkept.1, hkept.2]
      obtain hp | hp := List.mem_append.mp hp
      · exact h.paired p hp hsize
      · exact absurd (hagain p.2 hp) hsize
    · push Not at hagain
      obtain ⟨q, hq, hsize⟩ := hagain
      exact h'.paired (p.1, q) hq hsize
  kept := by
    intro i hi
    have hkept := h.kept i fun q hq => hi q (List.mem_append_left _ hq)
    have hkept' := h'.kept i fun q hq => hi q (List.mem_append_right _ hq)
    exact ⟨hkept'.1.trans hkept.1, hkept'.2.trans hkept.2⟩

/-- The eventfds of a queue, in vhost and in the record. -/
theorem installEventfds_records {i : Fin 6} {q : Queue} (hsize : q.size ≠ 0) (fds : Eventfds)
    (kick call : Fd) :
    (installEventfds d i fds kick call).wp (installation b₀ epoch queues) (fun r _ table' =>
      ∀ fds', r = some fds' → table' = table ∧ Recorded [(i, q)] fds fds') b table := by
  rw [installEventfds, wp_bind]
  refine vhostIoctl_wp (fun _ => trivial) (fun _ => ?_) fun b' k' => ?_
  · rw [wp_ite, if_neg (by decide), wp_bind]
    refine vhostIoctl_wp (fun _ => trivial) (fun _ => ?_) fun b' k' => ?_
    · rw [wp_ite, if_neg (by decide), wp_pure]
      intro fds' hfds'
      obtain rfl := Option.some_inj.mp hfds'
      refine ⟨rfl, rfl, rfl, fun p hp _ => ?_, fun j hj => ?_⟩
      · rw [List.mem_singleton.mp hp]
        simp
      · have hne : j ≠ i := by
          intro hji
          exact hsize (hj q (by rw [hji]; exact List.mem_singleton_self _))
        exact ⟨Function.update_of_ne hne _ _, Function.update_of_ne hne _ _⟩
    · rw [wp_ite, if_pos rfl, wp_pure]
      exact fun _ h => by cases h
  · rw [wp_ite, if_pos rfl, wp_pure]
    exact fun _ h => by cases h

/-- One round of the installation: the rings, a new pair of eventfds, and the record. -/
theorem installQueue_records {areas : List Area} {i : Fin 6} {q : Queue}
    (hq : queues[i.val]? = some q) (hareas : q.size ≠ 0 → ∀ (part : Nat) (s : Span),
      q.areas[part]? = some s → b₀.memTable.Maps s (ringStart areas i part)) (fds : Eventfds) :
    (installQueue d areas i q fds).wp (installation b₀ epoch queues) (fun r _ table' =>
      ∀ fds', r = some fds' → table' = some b₀.memTable ∧ Recorded [(i, q)] fds fds')
      b (some b₀.memTable) := by
  rw [installQueue, wp_ite]
  -- a queue without slots
  split
  next hsize =>
    intro fds' hfds'
    obtain rfl := Option.some_inj.mp hfds'
    exact ⟨rfl, rfl, rfl, fun p hp hp' => absurd (List.mem_singleton.mp hp ▸ hsize) hp',
      fun _ _ => ⟨rfl, rfl⟩⟩
  rename_i hsize
  rw [wp_bind]
  refine wp_mono (installRings_installs hq (hareas hsize)) fun r b₁ table₁ hrings => ?_
  rw [wp_ite]
  split
  · -- its rings were refused
    exact fun _ h => by cases h
  rename_i hr
  obtain ⟨rfl, rfl⟩ := hrings (by cases r with | ok => rfl | failed => exact absurd rfl hr)
  rw [wp_bind]
  refine wp_issue (c := .eventfd) trivial fun kick _ => ?_
  rw [wp_bind]
  refine (wp_modify _).mpr ?_
  cases kick with
  -- there is no eventfd for the kick
  | none => exact fun _ h => by cases h
  | some kick =>
    dsimp only
    rw [wp_bind]
    refine wp_issue (c := .eventfd) trivial fun call _ => ?_
    rw [wp_bind]
    refine (wp_modify _).mpr ?_
    cases call with
    -- nor for the call
    | none => exact fun _ h => by cases h
    -- both are there, and the kernel gets them
    | some call => exact installEventfds_records hsize fds kick call

/-- The installation loop, for queues whose areas have been validated. -/
theorem installQueues_records {areas : List Area} (qs : List (Fin 6 × Queue))
    (hqs : ∀ p ∈ qs, queues[p.1.val]? = some p.2)
    (hareas : ∀ p ∈ qs, p.2.size ≠ 0 → ∀ (part : Nat) (s : Span), p.2.areas[part]? = some s →
      b₀.memTable.Maps s (ringStart areas p.1 part)) (fds : Eventfds) :
    (installQueues d areas qs fds).wp (installation b₀ epoch queues) (fun r _ table' =>
      ∀ fds', r = some fds' → table' = some b₀.memTable ∧ Recorded qs fds fds')
      b (some b₀.memTable) := by
  induction qs generalizing b fds with
  | nil =>
    intro fds' hfds'
    obtain rfl := Option.some_inj.mp hfds'
    exact ⟨rfl, .refl fds⟩
  | cons p qs ih =>
    rw [installQueues, wp_bind]
    refine wp_mono (installQueue_records (hqs p List.mem_cons_self)
      (hareas p List.mem_cons_self) fds) fun r b₁ table₁ hround => ?_
    cases r with
    | none => exact fun _ h => by cases h
    | some fds₁ =>
      obtain ⟨rfl, hrecorded⟩ := hround fds₁ rfl
      refine wp_mono (ih (fun p hp => hqs p (List.mem_cons_of_mem _ hp))
        (fun p hp => hareas p (List.mem_cons_of_mem _ hp)) fds₁) fun r b₂ table₂ hrest => ?_
      intro fds' hfds'
      obtain ⟨rfl, hrecorded'⟩ := hrest fds' hfds'
      exact ⟨rfl, hrecorded.append hrecorded'⟩

/-- The record of a whole installation describes the activation. -/
theorem Recorded.describes {fds : Eventfds}
    (h : Recorded ((List.finRange 6).zip queues) { epoch } fds) :
    fds.Describes epoch queues := by
  refine ⟨h.epoch, h.reserved, fun i q hq hsize => ?_, fun i hi => ?_⟩
  · exact h.paired (i, q) (mem_zip_finRange.mpr hq) hsize
  · exact h.kept i fun q hq => hi q (mem_zip_finRange.mp hq)

/-- What `configure_vhost` does with the open descriptor, for rings it has validated. -/
theorem installVhost_installs {areas : List Area} (features : UInt64)
    (hb : b.memTable = b₀.memTable) (hareas : ∀ (i : Nat) (q : Queue), queues[i]? = some q →
      q.size ≠ 0 → ∀ (part : Nat) (s : Span), q.areas[part]? = some s →
        b₀.memTable.Maps s (ringStart areas i part)) :
    (installVhost d epoch features queues areas).wp (installation b₀ epoch queues)
      (fun r _ _ => r = .ok ∨ r = .backendFailure) b table := by
  rw [installVhost, wp_bind]
  refine wp_mono (setupVhost_installs features hb) fun r b₁ table₁ hsetup => ?_
  rw [wp_ite]
  split
  · -- the features were refused
    exact .inr rfl
  rename_i hr
  obtain ⟨rfl, rfl⟩ := hsetup (by cases r with | ok => rfl | failed => exact absurd rfl hr)
  rw [wp_bind]
  refine wp_mono (installQueues_records _ (fun p hp => mem_zip_finRange.mp hp)
    (fun p hp => hareas p.1 p.2 (mem_zip_finRange.mp hp)) _) fun r b₂ table₂ hloop => ?_
  cases r with
  -- a queue was refused
  | none => exact .inr rfl
  | some fds =>
    obtain ⟨rfl, hrecorded⟩ := hloop fds rfl
    dsimp only
    rw [wp_bind, wp_get, wp_bind]
    -- the last call is the binding
    have hend (r : Outcome) : (if r = .failed then
        (do diagnostic; return .backendFailure) else
        (do modifyEndpoint d fun e => { e with bound := true }; return Status.ok) :
        Service Status).wp (installation b₀ epoch queues)
        (fun r _ _ => r = .ok ∨ r = .backendFailure) b₂ (some b₀.memTable) := by
      cases r with
      | ok => exact .inl rfl
      | failed => exact .inr rfl
    cases (b₂.endpoint d).notification with
    -- there is no bridge
    | none => exact hend .failed
    -- the bridge gets the descriptors of all queues
    | some fd => exact wp_issue_ioctl hrecorded.describes fun r _ => hend r

/-! ## The record and the notification driver -/

/-- The numbers of queues the two activations configure and require. -/
def Device.Configures (d : Device) (count required : Nat) : Prop :=
  match d with
  | .storage => 3 ≤ count ∧ count ≤ hyperIoQueues ∧ required = 3
  | .network => count = hyperIoNetworkQueues ∧ required = hyperIoNetworkQueues

namespace Eventfds.Pairs

variable {fds : Eventfds} {i : Fin 6}

/-- A queue that is not configured has no eventfds, and no other has none. -/
theorem absent_or_pair (h : fds.Pairs queues) (i : Fin 6) :
    (fds.kick i = -1 ∧ fds.call i = -1) ∨ 0 ≤ fds.kick i ∧ 0 ≤ fds.call i := by
  by_cases hconfigured : ∃ q, queues[i.val]? = some q ∧ q.size ≠ 0
  · obtain ⟨q, hq, hsize⟩ := hconfigured
    exact .inr (h.configured i q hq hsize)
  · push Not at hconfigured
    exact .inl (h.unused i hconfigured)

theorem absent_of_length (h : fds.Pairs queues) (hi : queues.length ≤ i.val) :
    fds.kick i = -1 ∧ fds.call i = -1 := by
  refine h.unused i fun q hq => ?_
  rw [List.getElem?_eq_none hi] at hq
  cases hq

/-- Of valid rings, the required queues have a pair each. -/
theorem pair_of_required {region : MemoryInfo} {required : Nat} (h : fds.Pairs queues)
    (hrings : RingsValid region required queues) (hi : i.val < required)
    (hlength : i.val < queues.length) : 0 ≤ fds.kick i ∧ 0 ≤ fds.call i := by
  have hq : queues[i.val]? = some queues[i.val] := List.getElem?_eq_getElem hlength
  refine h.configured i _ hq ?_
  obtain habsent | hformed := hrings.each i.val _ hq
  · exact absurd habsent.1 (Nat.not_le_of_lt hi)
  · exact hformed.1.size_ne

/-- The driver accepts the record of valid rings. -/
theorem valid {region : MemoryInfo} {count required : Nat} (h : fds.Pairs queues)
    (hlength : queues.length = count) (hd : d.Configures count required)
    (hrings : RingsValid region required queues) :
    hyperIoEventfdsValid fds (d = .network) = true := by
  rw [hyperIoEventfdsValid, List.all_eq_true]
  intro i _
  have hsix := i.isLt
  cases d with
  | storage =>
    obtain ⟨hcount, -, rfl⟩ := hd
    by_cases hi : i.val < 3
    · obtain ⟨hkick, hcall⟩ := h.pair_of_required hrings hi (by omega)
      have hmaximum : ¬ hyperIoQueues ≤ i.val := by show ¬ 6 ≤ i.val; omega
      simp [hmaximum, hkick, hcall, Nat.not_le_of_lt hi]
    · have hmaximum : ¬ hyperIoQueues ≤ i.val := by show ¬ 6 ≤ i.val; omega
      obtain ⟨hkick, hcall⟩ | ⟨hkick, hcall⟩ := h.absent_or_pair i
      · simp [hkick, hcall, Nat.le_of_not_lt hi]
      · have hpresent : fds.kick i ≠ -1 := by omega
        simp [hmaximum, hkick, hcall, hpresent]
  | network =>
    obtain ⟨rfl, rfl⟩ := hd
    by_cases hi : i.val < hyperIoNetworkQueues
    · obtain ⟨hkick, hcall⟩ := h.pair_of_required hrings hi (by omega)
      simp [hkick, hcall, Nat.not_le_of_lt hi]
    · obtain ⟨hkick, hcall⟩ := h.absent_of_length (i := i) (by omega)
      simp [hkick, hcall, Nat.le_of_not_lt hi]

end Eventfds.Pairs

/-! ## Ring validation is exact -/

/-- The device is idle and routed, and its client's memory is live. -/
structure Backend.Ready (b : Backend) (d : Device) : Prop where
  closed : (b.endpoint d).fd = none
  unbound : (b.endpoint d).bound = false
  unattached : (b.endpoint d).attached = false
  routed : (b.endpoint d).notification.isSome = true
  mapped : b.memory.isSome = true
  nonempty : b.region.length ≠ 0

/-- The areas are those of the guest moved into the mapping, and none of their addresses has
wrapped. -/
def Translated (b : Backend) (queues : List Queue) (areas : List Area) : Prop :=
  ∀ (i : Nat) (q : Queue), queues[i]? = some q → q.size ≠ 0 →
    ∀ (part : Nat) (s : Span), q.areas[part]? = some s → ∃ area, areas[3 * i + part]? = some area ∧
      area.start.toNat = b.memoryAddress.toNat + (s.start - b.region.guestBase.toNat) ∧
      area.stop.toNat = area.start.toNat + s.length ∧
      area.stop.toNat ≤ b.memoryAddress.toNat + b.region.length.toNat

theorem translated_hostAreas {required : Nat} (hmapped : b.MapsBelow)
    (hrings : RingsValid b.region required queues) :
    Translated b queues ((queues.flatMap Queue.slots).map b.hostArea) := by
  intro i q hq hsize part s hs
  obtain habsent | ⟨-, hwithin⟩ := hrings.each i q hq
  · exact absurd (by rw [habsent.2]; rfl) hsize
  · exact ⟨_, getElem?_hostAreas b hq hsize hs,
      hostArea_toNat hmapped (hwithin s (List.mem_of_getElem? hs))⟩

/-- The ring addresses of translated areas are the ones the table gives. -/
theorem Translated.maps {areas : List Area} {required : Nat} (h : Translated b queues areas)
    (hrings : RingsValid b.region required queues) {i : Nat} {q : Queue}
    (hq : queues[i]? = some q) (hsize : q.size ≠ 0) {part : Nat} {s : Span}
    (hs : q.areas[part]? = some s) : b.memTable.Maps s (ringStart areas i part) := by
  obtain ⟨area, harea, hstart, hstop, hend⟩ := h i q hq hsize part s hs
  have hring : ringStart areas i part = area.start := by
    rw [ringStart, List.getD_eq_getElem?_getD, harea]
    rfl
  obtain habsent | ⟨-, hwithin⟩ := hrings.each i q hq
  · exact absurd (by rw [habsent.2]; rfl) hsize
  · refine ⟨hwithin s (List.mem_of_getElem? hs), by rw [hring]; exact hstart, ?_, ?_⟩
    · show b.memoryAddress.toNat ≤ (ringStart areas i part).toNat
      rw [hring, hstart]
      exact Nat.le_add_right _ _
    · show (ringStart areas i part).toNat + s.length ≤ _
      rw [hring, ← hstop]
      exact hend

/-- What follows the validation of `configure_vhost`, on the areas it has left. -/
def openVhost (d : Device) (epoch : UInt32) (features : UInt64) (queues : List Queue)
    (areas : List Area) : Service Status := do
  match ← openNode (.vhost d) with
  | .error _ => do diagnostic; return .backendFailure
  | .ok fd => do
    modifyEndpoint d fun e => { e with fd := some fd }
    installVhost d epoch features queues areas

/-- On a device that is ready, `configure_vhost` goes by its validation alone. -/
theorem configureVhost_ready {features : UInt64} {count required : Nat} (hready : b.Ready d)
    (hepoch : epoch ≠ 0) (hcount : count ≤ hyperIoQueues) :
    (configureVhost d epoch features queues count required).run b =
      match validateQueues b required 0 (queues.take count) [] with
      | none => .done (.invalid, b)
      | some areas => (openVhost d epoch features (queues.take count) areas).run b := by
  have hidle : ¬ ((b.endpoint d).fd.isSome || (b.endpoint d).bound || (b.endpoint d).attached) =
      true := by
    simp [hready.closed, hready.unbound, hready.unattached]
  have hlive : ¬ (b.memory.isNone || b.region.length == 0 || (b.endpoint d).notification.isNone ||
      epoch == 0 || decide (count > hyperIoQueues)) = true := by
    simp [Option.isSome_iff_ne_none.mp hready.mapped, Option.isSome_iff_ne_none.mp hready.routed,
      hready.nonempty, hepoch, hcount]
  show (if _ then _ else if _ then _ else _ : Service Status).run b = _
  rw [if_neg hidle, if_neg hlive]
  dsimp only
  cases validateQueues b required 0 (queues.take count) [] with
  | none => rfl
  | some areas => rfl

/-- Validated rings are installed as they are. -/
theorem openVhost_installs {areas : List Area} (features : UInt64)
    (hareas : ∀ (i : Nat) (q : Queue), queues[i]? = some q → q.size ≠ 0 →
      ∀ (part : Nat) (s : Span), q.areas[part]? = some s →
        b.memTable.Maps s (ringStart areas i part)) :
    (openVhost d epoch features queues areas).wp (installation b epoch queues)
      (fun r _ _ => r = .ok ∨ r = .backendFailure) b table := by
  rw [openVhost, wp_bind]
  refine wp_issue (c := .openNode (.vhost d)) trivial fun r _ => ?_
  cases r with
  | error e => exact .inr rfl
  | ok fd =>
    dsimp only
    rw [wp_bind]
    refine (wp_modify _).mpr ?_
    exact installVhost_installs features (by cases d <;> rfl) hareas

/-- The validation of `configure_vhost` is exact: on a device that is ready, rings that are not
valid are refused before anything is done, and valid ones are installed. The areas computed
for valid rings have not wrapped; vhost is given each ring at the address its memory table
gives it, inside the mapping; and the notification driver accepts the record of eventfds. -/
theorem ring_validation_exact (hready : b.Ready d) (hmapped : b.MapsBelow) (hepoch : epoch ≠ 0)
    {count : Nat} (hcount : count ≤ hyperIoQueues) (features : UInt64) (queues : List Queue)
    (required : Nat) (env : Environment Sys) (past : List (Event Sys)) :
    let run := ((configureVhost d epoch features queues count required).run b).exec env past
    let configured := queues.take count
    (¬ RingsValid b.region required configured → run = ((.invalid, b), [])) ∧
    (RingsValid b.region required configured →
      (run.1.1 = .ok ∨ run.1.1 = .backendFailure) ∧
      (∃ r es, run.2 = ⟨.openNode (.vhost d), r⟩ :: es) ∧
      (∃ areas, validateQueues b required 0 configured [] = some areas ∧
        Translated b configured areas) ∧
      (installation b epoch configured).Obeyed none run.2 ∧
      (d.Configures count required → count ≤ queues.length →
        ∀ fd fds r, ⟨.ioctl fd (.bind fds), r⟩ ∈ run.2 →
          hyperIoEventfdsValid fds (d = .network) = true)) := by
  intro run configured
  have hrun : run = ((configureVhost d epoch features queues count required).run b).exec env past :=
    rfl
  rw [configureVhost_ready hready hepoch hcount] at hrun
  -- what is not valid is refused without a call
  constructor
  · intro hinvalid
    have hnone : validateQueues b required 0 (queues.take count) [] = none := by
      rw [Option.eq_none_iff_forall_ne_some]
      exact fun areas h => hinvalid ((validateQueues_iff hmapped).mp h).1
    rw [hrun, hnone]
    -- what is valid is installed
    rfl
  · intro hrings
    have hareas := (validateQueues_iff hmapped).mpr ⟨hrings, rfl⟩
    have htranslated := translated_hostAreas hmapped hrings
    rw [hareas] at hrun
    have hwp : (openVhost d epoch features configured _).wp (installation b epoch configured)
        (fun r _ _ => r = .ok ∨ r = .backendFailure) b none :=
      openVhost_installs features fun i q hq hsize part s hs => htranslated.maps hrings hq hsize hs
    obtain ⟨hobeyed, hstatus⟩ := Program.wp_exec env past hwp (installation_assumed _)
    rw [← hrun] at hobeyed hstatus
    refine ⟨hstatus, by rw [hrun]; exact ⟨_, _, rfl⟩, ⟨_, hareas, htranslated⟩, hobeyed, ?_⟩
    intro hd hlength fd fds r hmem
    obtain ⟨pre, post, hsplit⟩ := List.append_of_mem hmem
    rw [hsplit] at hobeyed
    -- the bridge was told each queue that is there
    have hdescribes : fds.Describes epoch configured := hobeyed.allows
    exact hdescribes.2.2.valid (by rw [List.length_take, min_eq_left hlength]) hd hrings

/-- Three rings of two entries each, in a client's memory of 64 KiB. -/
theorem ring_validation_exact_three :
    let b : Backend := { managed := true, memoryPath := "", memory := some 0x100000,
                         region := ⟨0x40000000, 0x10000⟩, disk := { notification := some 3 } }
    let queues : List Queue := [⟨2, 0, 0x40000000, 0x40000020, 0x4000002c⟩,
      ⟨2, 0, 0x40000100, 0x40000120, 0x4000012c⟩, ⟨2, 0, 0x40000200, 0x40000220, 0x4000022c⟩]
    RingsValid b.region 3 queues ∧ ∃ r es,
      (((configureVhost .storage 1 version1 queues 3 3).run b).exec
        (fun _ c => Call.refused c) []).2 =
        ⟨.openNode (.vhost .storage), r⟩ :: es := by
  intro b queues
  have hready : b.Ready .storage := ⟨rfl, rfl, rfl, rfl, rfl, by decide⟩
  have hmapped : b.MapsBelow := by show 0x100000 + 0x10000 < 2 ^ 64; decide
  have hsome : (validateQueues b 3 0 queues []).isSome = true := by decide +kernel
  obtain ⟨areas, hareas⟩ := Option.isSome_iff_exists.mp hsome
  have hrings := ((validateQueues_iff hmapped).mp hareas).1
  have hexact := ring_validation_exact hready hmapped (show (1 : UInt32) ≠ 0 by decide)
    (show 3 ≤ hyperIoQueues by decide) version1 queues 3 (fun _ c => Call.refused c) []
  exact ⟨hrings, (hexact.2 hrings).2.1⟩

end HyperIoVm
