import Mathlib.Algebra.BigOperators.Fin
import HyperIoVm.Bridge

/-!
# What a binding holds (`modules/io-bridge/hyper_io_bridge.c`)

For each queue a bound route holds its kick, the file and the context of its call eventfd, and a
place on that context's wait queue. A ledger counts the references that were taken and dropped: what
was taken and not dropped is what the bridge refers to, however far a binding loop came.
-/

namespace HyperIoVm

open Effects Routine Driver

/-! ## References -/

/-- A reference to an eventfd context or to a file, or a place on a context's wait queue. -/
inductive BindingRef where
  | event (event : Nat)
  | file (file : Nat)
  | wait (event : Nat)
  deriving DecidableEq, Repr

/-- What the kernel has seen of a driver: whether its device is being removed, whether its interrupt
is enabled, how often each reference was taken and dropped, and what its registers read. -/
structure RefLedger where
  dead : Bool := false
  irq : Bool := false
  taken : BindingRef → Nat := fun _ => 0
  dropped : BindingRef → Nat := fun _ => 0
  read : Nat → Option UInt32 := fun _ => none

namespace RefLedger

def take (k : RefLedger) (r : BindingRef) : RefLedger :=
  { k with taken := Function.update k.taken r (k.taken r + 1) }

def drop (k : RefLedger) (r : BindingRef) : RefLedger :=
  { k with dropped := Function.update k.dropped r (k.dropped r + 1) }

/-- Taken more often than dropped. -/
def Holds (k : RefLedger) (r : BindingRef) : Prop := k.dropped r < k.taken r

/-- Registers that admit a token, select an extent or retire a token. -/
def guarded (offset : Nat) : Prop := offset = 0x28 ∨ offset = 0x50 ∨ offset = 0x20

/-- A reference is dropped only while it is held, and a wait-queue entry before its context. Nothing
is admitted or retired while the interrupt is enabled or after the removal. -/
def allows (k : RefLedger) : BusCall → Prop
  | .eventfdCtxPut event => k.Holds (.event event)
  | .fput file => k.Holds (.file file)
  | .eventfdCtxRemoveWaitQueue event => k.Holds (.wait event) ∧ k.Holds (.event event)
  | .writeq _ offset _ => guarded offset → k.irq = false ∧ k.dead = false
  | .enableIrq _ => k.irq = false ∧ k.dead = false
  | .disableIrq _ => k.irq = true
  | _ => True

/-- A file has one context, and `bridge->dead` is what the removal has set. -/
def assumes (context : Nat → Nat) (k : RefLedger) : (c : BusCall) → c.Reply → Prop
  | .dead _, r => r = k.dead
  | .eventfdCtxFileget file, (r : Option Nat) => ∀ event, r = some event → event = context file
  | _, _ => True

def next (context : Nat → Nat) (k : RefLedger) : (c : BusCall) → c.Reply → RefLedger
  | .eventfdCtxFdget _, (r : Option Nat) => (r.map fun event => k.take (.event event)).getD k
  | .eventfdFget _, (r : Option Nat) => (r.map fun file => k.take (.file file)).getD k
  | .eventfdCtxFileget _, (r : Option Nat) => (r.map fun event => k.take (.event event)).getD k
  | .vfsPoll file, (r : Poll) => if r.queued then k.take (.wait (context file)) else k
  | .eventfdCtxPut event, _ => k.drop (.event event)
  | .fput file, _ => k.drop (.file file)
  | .eventfdCtxRemoveWaitQueue event, _ => k.drop (.wait event)
  | .readl _ offset, (r : UInt32) => { k with read := Function.update k.read offset (some r) }
  | .enableIrq _, _ => { k with irq := true }
  | .disableIrq _, _ => { k with irq := false }
  | _, _ => k

end RefLedger

/-- The contract of the references, where `context` is the eventfd context of each file. -/
def bindingLedger (context : Nat → Nat) : Contract Bus RefLedger where
  allows := RefLedger.allows
  assumes := RefLedger.assumes context
  next := RefLedger.next context

/-! ## Slots -/

/-- The references of one queue, in the order in which `unbind` drops them. -/
def slotRefs (kick : Option Nat) (c : CallBinding) : List BindingRef :=
  (if c.queue then c.event else none).toList.map .wait ++ (c.event.toList.map .event ++
    (c.file.toList.map .file ++ kick.toList.map .event))

/-- Neither a file nor a context nor a place on a wait queue. -/
def CallBinding.Vacant (c : CallBinding) : Prop :=
  c.file = none ∧ c.event = none ∧ c.queue = false

theorem CallBinding.Vacant.eq {c : CallBinding} (h : c.Vacant) :
    c = { c with file := none, event := none, queue := false } := by
  obtain ⟨hfile, hevent, hqueue⟩ := h
  cases c
  cases hfile
  cases hevent
  cases hqueue
  rfl

namespace Bridge

/-- How often the bridge refers to it. -/
def refs (b : Bridge) (r : BindingRef) : Nat := ∑ i, (slotRefs (b.kick i) (b.call i)).count r

/-- A queue without any of the four. -/
def Vacant (b : Bridge) (i : Fin 6) : Prop := b.kick i = none ∧ (b.call i).Vacant

/-- A queue with all four. -/
def Full (b : Bridge) (i : Fin 6) : Prop :=
  (b.kick i).isSome ∧ (b.call i).file.isSome ∧ (b.call i).event.isSome ∧ (b.call i).queue = true

/-- The queues that have descriptors have all four, the others have none. -/
def Fits (b : Bridge) (fds : Eventfds) (i : Fin 6) : Prop :=
  (fds.kick i ≠ -1 → b.Full i) ∧ (fds.kick i = -1 → b.Vacant i)

theorem Vacant.slotRefs {b : Bridge} {i : Fin 6} (h : b.Vacant i) :
    slotRefs (b.kick i) (b.call i) = [] := by
  obtain ⟨hkick, hfile, hevent, hqueue⟩ := h
  rw [HyperIoVm.slotRefs, hkick, hfile, hevent, hqueue]
  rfl

theorem refs_vacant {b : Bridge} (h : ∀ i, b.Vacant i) (r : BindingRef) : b.refs r = 0 := by
  apply Finset.sum_eq_zero
  intro i _
  rw [(h i).slotRefs, List.count_nil]

/-- Only one queue changes. -/
theorem refs_update {b b' : Bridge} {i : Fin 6}
    (h : ∀ j, j ≠ i → b'.kick j = b.kick j ∧ b'.call j = b.call j) (r : BindingRef) :
    b'.refs r + (HyperIoVm.slotRefs (b.kick i) (b.call i)).count r =
      b.refs r + (HyperIoVm.slotRefs (b'.kick i) (b'.call i)).count r := by
  have hothers : ∑ j ∈ Finset.univ.erase i, (HyperIoVm.slotRefs (b'.kick j) (b'.call j)).count r =
      ∑ j ∈ Finset.univ.erase i, (HyperIoVm.slotRefs (b.kick j) (b.call j)).count r := by
    apply Finset.sum_congr rfl
    intro j hj
    obtain ⟨hkick, hcall⟩ := h j (Finset.ne_of_mem_erase hj)
    rw [hkick, hcall]
  rw [refs, refs, ← Finset.add_sum_erase _ _ (Finset.mem_univ i),
    ← Finset.add_sum_erase Finset.univ (fun j => (HyperIoVm.slotRefs (b.kick j) (b.call j)).count r)
      (Finset.mem_univ i), hothers]
  omega

end Bridge

/-- What was taken and not dropped is what the bridge refers to. -/
def RefsBalanced (b : Bridge) (k : RefLedger) : Prop := ∀ r, k.taken r = k.dropped r + b.refs r


namespace RefLedger

def dropAll (k : RefLedger) (refs : List BindingRef) : RefLedger :=
  { k with dropped := fun r => k.dropped r + refs.count r }

theorem dropAll_append (k : RefLedger) (refs rest : List BindingRef) :
    (k.dropAll refs).dropAll rest = k.dropAll (refs ++ rest) := by
  rw [dropAll, dropAll, dropAll]
  congr 1
  funext r
  rw [List.count_append, ← Nat.add_assoc]

theorem drop_eq_dropAll (k : RefLedger) (r : BindingRef) : k.drop r = k.dropAll [r] := by
  rw [drop, dropAll]
  congr 1
  funext r'
  by_cases hr : r' = r
  · rw [hr, Function.update_self, List.count_singleton_self]
  · rw [Function.update_of_ne hr, List.count_singleton, beq_false_of_ne (Ne.symm hr)]
    rfl

/-- All of these are held. -/
def Covers (k : RefLedger) (refs : List BindingRef) : Prop :=
  ∀ r, k.dropped r + refs.count r ≤ k.taken r

theorem Covers.rest {k : RefLedger} {refs rest : List BindingRef} (h : k.Covers (refs ++ rest)) :
    (k.dropAll refs).Covers rest := by
  intro r
  show k.dropped r + refs.count r + rest.count r ≤ k.taken r
  rw [Nat.add_assoc, ← List.count_append]
  exact h r

theorem Covers.holds {k : RefLedger} {refs : List BindingRef} {r : BindingRef} (h : k.Covers refs)
    (hr : r ∈ refs) : k.Holds r :=
  Nat.lt_of_lt_of_le (Nat.lt_add_of_pos_right (List.count_pos_iff.mpr hr)) (h r)

end RefLedger

/-- A balanced ledger covers the references of each queue. -/
theorem RefsBalanced.covers {b : Bridge} {k : RefLedger} (h : RefsBalanced b k) (i : Fin 6) :
    k.Covers (slotRefs (b.kick i) (b.call i)) := by
  intro r
  rw [h r, Bridge.refs, ← Finset.add_sum_erase _ _ (Finset.mem_univ i)]
  exact Nat.add_le_add_left (Nat.le_add_right _ _) _

/-- One more reference is taken for a queue. -/
theorem RefsBalanced.take {b b' : Bridge} {k : RefLedger} {i : Fin 6} {ref : BindingRef}
    (h : RefsBalanced b k) (hothers : ∀ j, j ≠ i → b'.kick j = b.kick j ∧ b'.call j = b.call j)
    (hslot : (slotRefs (b'.kick i) (b'.call i)).Perm (ref :: slotRefs (b.kick i) (b.call i))) :
    RefsBalanced b' (k.take ref) := by
  intro r
  have hrefs := Bridge.refs_update hothers r
  rw [hslot.count_eq] at hrefs
  show Function.update k.taken ref (k.taken ref + 1) r = k.dropped r + b'.refs r
  by_cases hr : r = ref
  · rw [hr, List.count_cons_self] at hrefs
    rw [hr, Function.update_self, h ref]
    omega
  · rw [List.count_cons_of_ne (Ne.symm hr)] at hrefs
    rw [Function.update_of_ne hr, h r]
    omega

/-- A call of the driver. -/
theorem wp_busCall {K : Type} {C : Contract Bus K} {c : BusCall}
    {Q : c.Reply → Bridges → K → Prop} {s : Bridges} {k : K} (hallow : C.allows k c)
    (h : ∀ r, C.assumes k c r → Q r s (C.next k c r)) : (Driver.call c).wp C Q s k := ⟨hallow, h⟩

/-- An update of the bridge. -/
theorem wp_modifyBridge {K : Type} {C : Contract Bus K} {d : Device} {f : Bridge → Bridge}
    {Q : Unit → Bridges → K → Prop} {s : Bridges} {k : K} (h : ∀ s', s' d = f (s d) → Q () s' k) :
    (modifyBridge d f).wp C Q s k := h _ (Function.update_self ..)

/-- An update of a queue's call. -/
theorem wp_modifyCall {K : Type} {C : Contract Bus K} {d : Device} {i : Fin 6}
    {f : CallBinding → CallBinding} {Q : Unit → Bridges → K → Prop} {s : Bridges} {k : K}
    (h : ∀ s', s' d = { s d with call := Function.update (s d).call i (f ((s d).call i)) } →
      Q () s' k) : (modifyCall d i f).wp C Q s k := wp_modifyBridge h

section Unbinding

variable {context : Nat → Nat} {d : Device} {s : Bridges} {k : RefLedger}

/-! ## Unbinding -/

/-- A pointer is dropped if it is set. -/
theorem wp_ifHeld {held : Option Nat} {f : Nat → Driver Unit} (ref : Nat → BindingRef)
    (h : ∀ x, held = some x →
      (f x).wp (bindingLedger context) (fun _ s' k' => s' = s ∧ k' = k.drop (ref x)) s k) :
    (ifHeld held f).wp (bindingLedger context)
      (fun _ s' k' => s' = s ∧ k' = k.dropAll (held.toList.map ref)) s k := by
  cases held with
  | none => exact ⟨rfl, rfl⟩
  | some x =>
    refine wp_mono (h x rfl) fun _ s' k' hpost => ⟨hpost.1, hpost.2.trans ?_⟩
    exact k.drop_eq_dropAll (ref x)

/-- The bridge without the references of a queue. -/
def Bridge.clear (b : Bridge) (i : Fin 6) : Bridge :=
  { b with
    kick := Function.update b.kick i none
    call := Function.update b.call i
      { b.call i with file := none, event := none, queue := false } }

theorem Bridge.clear_vacant (b : Bridge) (i : Fin 6) : (b.clear i).Vacant i := by
  have hcall : (b.clear i).call i = { b.call i with file := none, event := none, queue := false } :=
    Function.update_self ..
  refine ⟨Function.update_self .., ?_, ?_, ?_⟩
  · rw [hcall]
  · rw [hcall]
  · rw [hcall]

theorem Bridge.clear_others {b : Bridge} {i j : Fin 6} (h : j ≠ i) :
    (b.clear i).kick j = b.kick j ∧ (b.clear i).call j = b.call j :=
  ⟨Function.update_of_ne h _ _, Function.update_of_ne h _ _⟩

theorem RefsBalanced.clear {b : Bridge} (h : RefsBalanced b k) (i : Fin 6) :
    RefsBalanced (b.clear i) (k.dropAll (slotRefs (b.kick i) (b.call i))) := by
  intro r
  have hothers (j : Fin 6) (hj : j ≠ i) := Bridge.clear_others (b := b) hj
  have hrefs := Bridge.refs_update hothers r
  rw [(b.clear_vacant i).slotRefs, List.count_nil] at hrefs
  show k.taken r = k.dropped r + _ + (b.clear i).refs r
  rw [h r]
  omega

/-- A round of `unbind` drops what the queue holds, whatever that is. -/
theorem unbindQueue_wp {i : Fin 6} (h : RefsBalanced (s d) k) :
    (unbindQueue d i).wp (bindingLedger context) (fun _ s' k' => s' d = (s d).clear i ∧
      k' = k.dropAll (slotRefs ((s d).kick i) ((s d).call i))) s k := by
  have hcovers := h.covers i
  rw [slotRefs] at hcovers ⊢
  -- the wait queue of the call is left first
  rw [unbindQueue, wp_bind, wp_get, wp_bind]
  refine wp_mono (wp_ifHeld .wait fun event hevent => ?_) ?_
  · have hsome : ((s d).call i).event = some event := by
      split at hevent
      · exact hevent
      · cases hevent
    refine ⟨⟨hcovers.holds ?_, hcovers.holds ?_⟩, fun _ _ => ⟨rfl, rfl⟩⟩
    · rw [hevent]
      exact List.mem_append_left _ List.mem_cons_self
    · rw [hsome]
      exact List.mem_append_right _ (List.mem_append_left _ List.mem_cons_self)
  intro _ s₁ k₁ hpost
  obtain ⟨rfl, rfl⟩ := hpost
  -- then its context is given up
  have hcovers := hcovers.rest
  rw [wp_bind]
  refine wp_mono (wp_ifHeld .event fun event hevent => ?_) ?_
  · refine ⟨hcovers.holds ?_, fun _ _ => ⟨rfl, rfl⟩⟩
    rw [hevent]
    exact List.mem_append_left _ List.mem_cons_self
  intro _ s₂ k₂ hpost
  obtain ⟨rfl, rfl⟩ := hpost
  -- then its file
  have hcovers := hcovers.rest
  rw [wp_bind]
  refine wp_mono (wp_ifHeld .file fun file hfile => ?_) ?_
  · refine ⟨hcovers.holds ?_, fun _ _ => ⟨rfl, rfl⟩⟩
    rw [hfile]
    exact List.mem_append_left _ List.mem_cons_self
  intro _ s₃ k₃ hpost
  obtain ⟨rfl, rfl⟩ := hpost
  -- the context of the kick is the last
  have hcovers := hcovers.rest
  rw [wp_bind]
  refine wp_mono (wp_ifHeld .event fun kick hkick => ?_) ?_
  · refine ⟨hcovers.holds ?_, fun _ _ => ⟨rfl, rfl⟩⟩
    rw [hkick]
    exact List.mem_cons_self
  intro _ s₄ k₄ hpost
  obtain ⟨rfl, rfl⟩ := hpost
  rw [wp_bind]
  refine (wp_modify _).mpr ((wp_modify _).mpr ⟨?_, ?_⟩)
  · rw [Function.update_self, Function.update_self]
    rfl
  · rw [RefLedger.dropAll_append, RefLedger.dropAll_append, RefLedger.dropAll_append]

/-- A bridge that is not bound: its interrupt is off, and its queues are vacant. -/
structure Unbound (b : Bridge) (k : RefLedger) : Prop where
  balanced : RefsBalanced b k
  bound : b.bound = false
  irqEnabled : b.irqEnabled = false
  irq : k.irq = false
  vacant : ∀ i, b.Vacant i

/-- The interrupt is off, and the flag says so. -/
theorem silenceIrq_wp (h : (s d).irqEnabled = k.irq) :
    (silenceIrq d).wp (bindingLedger context) (fun _ s' k' =>
      s' d = { s d with irqEnabled := false } ∧ k' = { k with irq := false }) s k := by
  rw [silenceIrq, wp_bind, wp_get, wp_ite]
  split
  next henabled =>
    rw [wp_bind]
    exact ⟨h.symm.trans henabled, fun _ _ => ⟨Function.update_self .., rfl⟩⟩
  next henabled =>
    rw [Bool.not_eq_true] at henabled
    have hbridge (b : Bridge) (hb : b.irqEnabled = false) : b = { b with irqEnabled := false } := by
      rw [← hb]
    have hledger (k : RefLedger) (hk : k.irq = false) : k = { k with irq := false } := by
      rw [← hk]
    exact ⟨hbridge _ henabled, hledger _ (h.symm.trans henabled)⟩

/-- In the loop of `unbind`: some queues are vacant. -/
structure Clearing (k₀ : RefLedger) (done : List (Fin 6)) (b : Bridge) (k : RefLedger) :
    Prop where
  balanced : RefsBalanced b k
  irqEnabled : b.irqEnabled = false
  irq : k.irq = false
  dead : k.dead = k₀.dead
  vacant : ∀ i ∈ done, b.Vacant i

theorem unbindQueue_clearing {k₀ : RefLedger} {done : List (Fin 6)} {i : Fin 6}
    (h : Clearing k₀ done (s d) k) :
    (unbindQueue d i).wp (bindingLedger context)
      (fun _ s' k' => Clearing k₀ (done ++ [i]) (s' d) k') s k := by
  refine wp_mono (unbindQueue_wp h.balanced) fun _ s' k' hpost => ?_
  obtain ⟨hs', rfl⟩ := hpost
  rw [hs']
  refine ⟨h.balanced.clear i, h.irqEnabled, h.irq, h.dead, fun j hj => ?_⟩
  by_cases hji : j = i
  · rw [hji]
    exact Bridge.clear_vacant _ i
  · have hdone : j ∈ done := by
      obtain hdone | hlast := List.mem_append.mp hj
      · exact hdone
      · exact absurd (List.mem_singleton.mp hlast) hji
    obtain ⟨hkick, hcall⟩ := Bridge.clear_others (b := s d) hji
    rw [Bridge.Vacant, hkick, hcall]
    exact h.vacant j hdone

/-- `unbind` leaves the bridge unbound, whatever was bound of it. -/
theorem unbind_wp (hbalanced : RefsBalanced (s d) k) (hirq : (s d).irqEnabled = k.irq) :
    (unbind d).wp (bindingLedger context) (fun _ s' k' => Unbound (s' d) k' ∧ k'.dead = k.dead)
      s k := by
  rw [unbind, wp_bind]
  refine wp_mono (silenceIrq_wp hirq) fun _ s₁ k₁ hpost => ?_
  obtain ⟨hs₁, hk₁⟩ := hpost
  have hstart : Clearing k [] (s₁ d) k₁ := by
    rw [hs₁, hk₁]
    exact ⟨hbalanced, rfl, rfl, rfl, fun j hj => absurd hj List.not_mem_nil⟩
  rw [wp_bind]
  refine wp_mono (wp_forM (J := fun done s k' => Clearing k done (s d) k')
    (fun _ _ _ _ _ _ h => unbindQueue_clearing h) hstart) fun _ s₂ k₂ hpost => ?_
  refine wp_modifyBridge fun s₃ hs₃ => ?_
  rw [hs₃]
  refine ⟨⟨hpost.balanced, rfl, hpost.irqEnabled, hpost.irq, fun i => ?_⟩, hpost.dead⟩
  exact hpost.vacant i (List.mem_finRange i)

end Unbinding

/-! ## Binding -/

/-- While a queue is bound: the others stay as they were. -/
structure BindingOf (b₀ : Bridge) (k₀ : RefLedger) (i : Fin 6) (b : Bridge) (k : RefLedger) :
    Prop where
  balanced : RefsBalanced b k
  bound : b.bound = false
  irqEnabled : b.irqEnabled = false
  irq : k.irq = false
  kept : k.dead = k₀.dead ∧ k.read = k₀.read
  others : ∀ j, j ≠ i → b.kick j = b₀.kick j ∧ b.call j = b₀.call j

namespace BindingOf

variable {b₀ b : Bridge} {k₀ k : RefLedger} {i : Fin 6} {ref : BindingRef}

theorem setKick (h : BindingOf b₀ k₀ i b k) (hvacant : b.Vacant i) (kick : Nat) :
    BindingOf b₀ k₀ i { b with kick := Function.update b.kick i (some kick) }
      (k.take (.event kick)) := by
  refine ⟨h.balanced.take (i := i) (fun j hj => ⟨Function.update_of_ne hj _ _, rfl⟩) ?_, h.bound,
    h.irqEnabled, h.irq, h.kept, fun j hj => ⟨?_, (h.others j hj).2⟩⟩
  · obtain ⟨hkick, hfile, hevent, hqueue⟩ := hvacant
    dsimp only
    rw [Function.update_self, slotRefs, slotRefs, hkick, hfile, hevent, hqueue]
    exact .refl _
  · exact (Function.update_of_ne hj _ _).trans (h.others j hj).1

theorem setCall (h : BindingOf b₀ k₀ i b k) {c : CallBinding}
    (hslot : slotRefs (b.kick i) c = ref :: slotRefs (b.kick i) (b.call i)) :
    BindingOf b₀ k₀ i { b with call := Function.update b.call i c } (k.take ref) := by
  refine ⟨h.balanced.take (i := i) (fun j hj => ⟨rfl, Function.update_of_ne hj _ _⟩) ?_, h.bound,
    h.irqEnabled, h.irq, h.kept, fun j hj => ⟨(h.others j hj).1, ?_⟩⟩
  · dsimp only
    rw [Function.update_self, hslot]
  · exact (Function.update_of_ne hj _ _).trans (h.others j hj).2

theorem sameCall (h : BindingOf b₀ k₀ i b k) {c : CallBinding}
    (hslot : slotRefs (b.kick i) c = slotRefs (b.kick i) (b.call i)) :
    BindingOf b₀ k₀ i { b with call := Function.update b.call i c } k := by
  refine ⟨fun r => ?_, h.bound, h.irqEnabled, h.irq, h.kept,
    fun j hj => ⟨(h.others j hj).1, (Function.update_of_ne hj _ _).trans (h.others j hj).2⟩⟩
  have hrefs := @Bridge.refs_update b { b with call := Function.update b.call i c } i
    (fun j hj => ⟨rfl, Function.update_of_ne hj _ _⟩) r
  dsimp only at hrefs
  rw [Function.update_self, hslot] at hrefs
  rw [h.balanced r]
  omega

end BindingOf

section Binding

variable {context : Nat → Nat} {d : Device} {s : Bridges} {k k₀ : RefLedger} {b₀ : Bridge}
  {i : Fin 6} {fds : Eventfds}

/-- `notify_call` takes no reference. -/
theorem notifyCall_wp (event : Nat) (epoch : UInt32) :
    (notifyCall d event epoch).wp (bindingLedger context) (fun _ s' k' => s' = s ∧ k' = k) s k := by
  rw [notifyCall, wp_bind]
  refine wp_busCall (c := .eventfdCtxDoRead event) trivial fun (count : UInt64) _ => ?_
  rw [wp_ite]
  split
  · refine wp_busCall (c := .writeq d 0x18 _) (fun hguarded => ?_) fun _ _ => ⟨rfl, rfl⟩
    exact absurd hguarded (by unfold RefLedger.guarded; decide)
  · exact ⟨rfl, rfl⟩

/-- The call half of a round: it can fail between any two of its references. -/
theorem bindCall_wp (h : BindingOf b₀ k₀ i (s d) k) (hkick : ((s d).kick i).isSome = true)
    (hvacant : ((s d).call i).Vacant) :
    (bindCall d fds i).wp (bindingLedger context)
      (fun r s' k' => BindingOf b₀ k₀ i (s' d) k' ∧ (r = .ok → (s' d).Full i)) s k := by
  have hcall := hvacant.eq
  rw [bindCall, wp_bind]
  refine wp_busCall (c := .eventfdFget (fds.call i)) trivial fun (r : Option Nat) _ => ?_
  -- the descriptor is not an eventfd
  cases r with
  | none => exact ⟨h, fun hok => Outcome.noConfusion hok⟩
  | some file =>
    rw [wp_bind]
    refine wp_modifyCall fun s₁ hs₁ => ?_
    have h₁ : BindingOf b₀ k₀ i (s₁ d) (k.take (.file file)) := by
      rw [hs₁]
      exact h.setCall (by rw [hcall]; rfl)
    have hcall₁ : (s₁ d).call i = { (s d).call i with
        file := some file, event := none, queue := false } := by
      rw [hs₁, hcall]
      exact Function.update_self ..
    have hkick₁ : ((s₁ d).kick i).isSome = true := by
      rw [hs₁]
      exact hkick
    rw [wp_bind]
    refine wp_busCall (c := .eventfdCtxFileget file) trivial fun (r : Option Nat) hr => ?_
    -- its context cannot be had
    cases r with
    | none => exact ⟨h₁, fun hok => Outcome.noConfusion hok⟩
    | some event =>
      obtain rfl : event = context file := hr event rfl
      rw [wp_bind]
      refine wp_modifyCall fun s₂ hs₂ => ?_
      have h₂ : BindingOf b₀ k₀ i (s₂ d)
          ((k.take (.file file)).take (.event (context file))) := by
        rw [hs₂]
        exact h₁.setCall (by rw [hcall₁]; rfl)
      have hcall₂ : (s₂ d).call i = { (s d).call i with
          file := some file, event := some (context file), queue := false,
          epoch := fds.epoch } := by
        rw [hs₂, hcall₁]
        exact Function.update_self ..
      have hkick₂ : ((s₂ d).kick i).isSome = true := by
        rw [hs₂]
        exact hkick₁
      rw [wp_bind]
      refine wp_busCall (c := .vfsPoll file) trivial fun (poll : Poll) _ => ?_
      rw [wp_bind]
      refine wp_modifyCall fun s₃ hs₃ => ?_
      let k₂ := (k.take (.file file)).take (.event (context file))
      show wp _ _ _ s₃ (if poll.queued = true then k₂.take (.wait (context file)) else k₂)
      rw [wp_ite]
      -- it has not been put on the wait queue
      cases hqueued : poll.queued with
      | false =>
        refine ⟨?_, fun hok => Outcome.noConfusion hok⟩
        show BindingOf b₀ k₀ i (s₃ d) k₂
        rw [hs₃]
        exact h₂.sameCall (by rw [hcall₂, hqueued])
      -- it is full, and a notification that came early is passed on
      | true =>
        have h₃ : BindingOf b₀ k₀ i (s₃ d) (k₂.take (.wait (context file))) := by
          rw [hs₃]
          exact h₂.setCall (by rw [hcall₂, hqueued]; rfl)
        have hfull : (s₃ d).Full i := by
          rw [Bridge.Full, hs₃]
          dsimp only
          rw [Function.update_self, hcall₂]
          exact ⟨hkick₂, rfl, rfl, hqueued⟩
        rw [if_neg (by decide), if_pos rfl, wp_bind]
        have hdone : BindingOf b₀ k₀ i (s₃ d) (k₂.take (.wait (context file))) ∧
            (Outcome.ok = .ok → (s₃ d).Full i) := ⟨h₃, fun _ => hfull⟩
        rw [wp_ite]
        split
        · refine wp_mono (notifyCall_wp (context file) fds.epoch) fun _ s' k' hpost => ?_
          obtain ⟨rfl, rfl⟩ := hpost
          exact hdone
        · exact hdone

/-- A round of the binding loop. -/
theorem bindQueue_wp (h : BindingOf b₀ k₀ i (s d) k) (hvacant : (s d).Vacant i) :
    (bindQueue d fds i).wp (bindingLedger context)
      (fun r s' k' => BindingOf b₀ k₀ i (s' d) k' ∧ (r = .ok → (s' d).Fits fds i)) s k := by
  rw [bindQueue, wp_ite]
  split
  next habsent =>
    exact ⟨h, fun _ => ⟨fun hpresent => absurd habsent hpresent, fun _ => hvacant⟩⟩
  next hpresent =>
    rw [wp_bind]
    refine wp_busCall (c := .eventfdCtxFdget (fds.kick i)) trivial fun (r : Option Nat) _ => ?_
    cases r with
    | none => exact ⟨h, fun hok => Outcome.noConfusion hok⟩
    | some kick =>
      rw [wp_bind]
      refine wp_modifyBridge fun s₁ hs₁ => ?_
      have h₁ : BindingOf b₀ k₀ i (s₁ d) (k.take (.event kick)) := by
        rw [hs₁]
        exact h.setKick hvacant kick
      refine wp_mono (bindCall_wp h₁ ?_ ?_) fun r s' k' hpost => ⟨hpost.1, fun hok => ?_⟩
      · rw [hs₁]
        dsimp only
        rw [Function.update_self]
        rfl
      · rw [hs₁]
        exact hvacant.2
      · exact ⟨fun _ => hpost.2 hok, fun habsent => absurd habsent hpresent⟩

/-- In the binding loop: the queues that are done fit their descriptors, the others are vacant. -/
structure BindingQueues (fds : Eventfds) (k₀ : RefLedger) (todo : List (Fin 6))
    (b : Bridge) (k : RefLedger) : Prop where
  balanced : RefsBalanced b k
  bound : b.bound = false
  irqEnabled : b.irqEnabled = false
  irq : k.irq = false
  kept : k.dead = k₀.dead ∧ k.read = k₀.read
  vacant : ∀ i ∈ todo, b.Vacant i
  done : ∀ i, i ∉ todo → b.Fits fds i

/-- The binding loop: on success every queue fits its descriptors, on failure what was taken so far
is what the bridge refers to. -/
theorem bindQueues_wp {todo : List (Fin 6)} (hnodup : todo.Nodup)
    (h : BindingQueues fds k₀ todo (s d) k) :
    (bindQueues d fds todo).wp (bindingLedger context) (fun r s' k' => RefsBalanced (s' d) k' ∧
      (s' d).bound = false ∧ (s' d).irqEnabled = false ∧ k'.irq = false ∧
        (k'.dead = k₀.dead ∧ k'.read = k₀.read) ∧ (r = .ok → ∀ i, (s' d).Fits fds i)) s k := by
  induction todo generalizing s k with
  | nil =>
    exact ⟨h.balanced, h.bound, h.irqEnabled, h.irq, h.kept, fun _ i => h.done i List.not_mem_nil⟩
  | cons i todo ih =>
    obtain ⟨hi, hnodup⟩ := List.nodup_cons.mp hnodup
    have hstart : BindingOf (s d) k i (s d) k :=
      ⟨h.balanced, h.bound, h.irqEnabled, h.irq, ⟨rfl, rfl⟩, fun _ _ => ⟨rfl, rfl⟩⟩
    rw [bindQueues, wp_bind]
    refine wp_mono (bindQueue_wp hstart (h.vacant i List.mem_cons_self)) fun r s' k' hpost => ?_
    obtain ⟨hround, hok⟩ := hpost
    rw [wp_ite]
    split
    next hfailed =>
      exact ⟨hround.balanced, hround.bound, hround.irqEnabled, hround.irq,
        ⟨hround.kept.1.trans h.kept.1, hround.kept.2.trans h.kept.2⟩,
        fun hok => Outcome.noConfusion hok⟩
    next hfailed =>
      have hr : r = .ok := by
        cases r with
        | ok => rfl
        | failed => exact absurd rfl hfailed
      refine ih hnodup ⟨hround.balanced, hround.bound, hround.irqEnabled, hround.irq,
        ⟨hround.kept.1.trans h.kept.1, hround.kept.2.trans h.kept.2⟩, fun j hj => ?_,
        fun j hj => ?_⟩
      · have hji : j ≠ i := fun heq => hi (heq ▸ hj)
        obtain ⟨hkick, hcall⟩ := hround.others j hji
        rw [Bridge.Vacant, hkick, hcall]
        exact h.vacant j (List.mem_cons_of_mem i hj)
      · by_cases hji : j = i
        · rw [hji]
          exact hok hr
        · obtain ⟨hkick, hcall⟩ := hround.others j hji
          have hdone := h.done j fun hmem => hj ((List.mem_cons.mp hmem).resolve_left hji)
          rw [Bridge.Fits, Bridge.Full, Bridge.Vacant, hkick, hcall]
          exact hdone

end Binding

end HyperIoVm
