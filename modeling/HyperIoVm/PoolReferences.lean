import HyperIoVm.MemoryProbe

/-!
# Page references of a static pool (`modules/guest-memory/memory.c`)

The counter `pages` is at once how far the probe has come, what a failure gives back and what the
last reference gives back. A ledger of the page references shows that they balance: whatever fails,
the probe has put what it took, or the device holds one reference for every page of its region.
-/

namespace HyperIoVm

open Effects Routine MemoryDriver MemoryProbe

/-! ## The ledger -/

/-- The pages whose reference was taken and put so far, and the region that the probe was given. -/
structure PoolLedger where
  taken : List UInt64 := []
  put : List UInt64 := []
  region : Option MemoryResource := none
  deriving DecidableEq, Repr

def PoolLedger.afterDriver (ledger : PoolLedger) : MmCall → PoolLedger
  | .putPage pfn => { ledger with put := ledger.put ++ [pfn] }
  | _ => ledger

/-- What a call of the driver does to the page references. -/
def poolRefs : Contract Mm PoolLedger where
  allows _ _ := True
  assumes _ _ _ := True
  next ledger c _ := ledger.afterDriver c

def PoolLedger.afterProbe (ledger : PoolLedger) : (c : ProbeCall) → c.Reply → PoolLedger
  | .mm c, _ => ledger.afterDriver c
  | .getPageUnlessZero pfn, true => { ledger with taken := ledger.taken ++ [pfn] }
  | .ofAddressToResource .region, .ok resource => { ledger with region := some resource }
  | _, _ => ledger

/-- What a call of the probe does. -/
def probeRefs : Contract ProbeBus PoolLedger where
  allows _ _ := True
  assumes _ _ _ := True
  next := PoolLedger.afterProbe

theorem poolRefs_assumed (ledger : PoolLedger) (es : List (Event Mm)) :
    poolRefs.Assumed ledger es := Contract.assumed_of_all fun _ _ _ => trivial

theorem probeRefs_assumed (ledger : PoolLedger) (es : List (Event ProbeBus)) :
    probeRefs.Assumed ledger es := Contract.assumed_of_all fun _ _ _ => trivial

theorem poolRefs_putPage (ledger : PoolLedger) (pfn : UInt64) (r : Unit) :
    poolRefs.next ledger (.putPage pfn) r = { ledger with put := ledger.put ++ [pfn] } := rfl

section Driver

variable {α : Type} {memory : GuestMemory} {ledger : PoolLedger}

/-- A function of the driver does in the probe what it does elsewhere. -/
theorem wp_onDriver {m : MemoryDriver α} {Q : α → GuestMemory → PoolLedger → Prop}
    (h : m.wp poolRefs Q memory ledger) : (onDriver m).wp probeRefs Q memory ledger := by
  have hsim : Program.Simulates driverCalls poolRefs probeRefs
      (fun ledger _ ledger' => ledger = ledger') := by
    intro c k s l hkl _
    refine ⟨trivial, fun r _ => ⟨trivial, ?_⟩⟩
    rw [hkl]
    rfl
  have hhandle := Program.wp_handle hsim h (s := PUnit.unit) rfl
  show Program.wp probeRefs (_ >>= _) _ ledger
  rw [Program.wp_bind]
  refine Program.wp_mono hhandle fun r ledger' hpost => ?_
  obtain ⟨_, hQ, rfl⟩ := hpost
  exact hQ

/-- The pages that the last reference gives back. -/
def GuestMemory.poolPages (memory : GuestMemory) : List UInt64 :=
  (List.range (if memory.dynamic then 0 else memory.pages.toNat)).map fun index =>
    memory.firstPfn + .ofNat index

/-- The state that `hyper_memory_destroy` leaves, when no granules are prepared. -/
def GuestMemory.destroyed (memory : GuestMemory) : GuestMemory :=
  { memory with
    granules := [], pfns := none, freed := true
    firstPfn := if memory.dynamic then 0 else memory.firstPfn
    pages := if memory.dynamic then 0 else memory.pages }

/-- Every page of the pool is put once. -/
theorem hyperMemoryDestroy_pool (hgranules : memory.granules = []) :
    hyperMemoryDestroy.wp poolRefs (fun _ memory' ledger' => memory' = memory.destroyed ∧
      ledger' = { ledger with put := ledger.put ++ memory.poolPages }) memory ledger := by
  rw [hyperMemoryDestroy, wp_bind, hyperMemoryUnprepare, wp_bind, wp_get, wp_bind, hgranules,
    hyperGranulesPut, wp_pure, wp_modify, wp_bind, wp_get, wp_bind]
  -- the loop puts the pages in order
  refine wp_mono (wp_forM (J := fun (done : List Nat) memory' ledger' =>
    memory' = { memory.destroyed with freed := memory.freed } ∧ ledger' = { ledger with
      put := ledger.put ++ done.map fun index => memory.firstPfn + .ofNat index }) ?_ ?_) ?_
  · intro pre index post hl memory' ledger' hJ
    obtain ⟨rfl, rfl⟩ := hJ
    refine MemoryDriver.wp_call trivial fun _ _ => ⟨rfl, ?_⟩
    have hdynamic : memory.dynamic = false := by
      rw [← Bool.not_eq_true]
      intro hdynamic
      rw [if_pos hdynamic, List.range_zero] at hl
      exact List.append_ne_nil_of_right_ne_nil pre (List.cons_ne_nil index post) hl.symm
    refine (poolRefs_putPage _ _ _).trans ?_
    simp [hdynamic]
  · refine ⟨?_, ?_⟩
    · rw [GuestMemory.destroyed]
    · rw [List.map_nil, List.append_nil]
  · intro _ memory' ledger' hJ
    obtain ⟨rfl, rfl⟩ := hJ
    rw [wp_modify]
    refine ⟨rfl, ?_⟩
    by_cases hdynamic : memory.dynamic = true <;> simp [GuestMemory.poolPages, hdynamic]

/-- Only the last reference gives the pages back. -/
theorem krefPut_pool (memory : GuestMemory) (hgranules : memory.granules = []) :
    krefPut.wp poolRefs (fun _ memory' ledger' =>
      (memory.references - 1 ≠ 0 →
        memory' = { memory with references := memory.references - 1 } ∧ ledger' = ledger) ∧
      (memory.references - 1 = 0 → memory' = { memory.destroyed with references := 0 } ∧
        ledger' = { ledger with put := ledger.put ++ memory.poolPages })) memory ledger := by
  rw [krefPut, wp_bind, wp_modify, wp_bind, wp_get, wp_ite]
  split
  next hlast =>
    refine wp_mono (hyperMemoryDestroy_pool hgranules) fun _ memory' ledger' hpost => ?_
    obtain ⟨rfl, rfl⟩ := hpost
    refine ⟨fun h => absurd hlast h, fun h => ⟨?_, rfl⟩⟩
    rw [GuestMemory.destroyed, GuestMemory.destroyed, h]
  next hlast =>
    exact ⟨fun _ => ⟨rfl, rfl⟩, fun h => absurd h hlast⟩

end Driver

/-! ## The probe -/

section Probe

variable {memory : GuestMemory} {ledger : PoolLedger}

/-- The device while it is probed: its one reference is the driver's, and it has the pages that are
taken. -/
structure Probing (memory : GuestMemory) (ledger : PoolLedger) : Prop where
  taken : ledger.taken = memory.poolPages
  put : ledger.put = []
  references : memory.references = 1
  granules : memory.granules = []
  pfns : memory.pfns = none
  opened : memory.opened = false
  vmas : memory.vmas = 0
  freed : memory.freed = false

/-- A failure has put what was taken. -/
def ProbeBalanced (P : GuestMemory → PoolLedger → Prop) :
    Except ProbeError Unit → GuestMemory → PoolLedger → Prop
  | .error _, _, ledger => ledger.put = ledger.taken
  | .ok _, memory, ledger => P memory ledger

theorem probeFail_balanced {P : GuestMemory → PoolLedger → Prop} (h : Probing memory ledger)
    (e : ProbeError) : (probeFail e).wp probeRefs (ProbeBalanced P) memory ledger := by
  rw [probeFail, wp_bind]
  refine wp_mono (wp_onDriver (krefPut_pool memory h.granules)) fun _ memory' ledger' hpost => ?_
  obtain ⟨-, hlast⟩ := hpost
  obtain ⟨rfl, rfl⟩ := hlast (by rw [h.references])
  rw [wp_pure]
  show ledger.put ++ memory.poolPages = ledger.taken
  rw [h.put, h.taken, List.nil_append]

/-- A call of the probe that the ledger does not look at. -/
theorem wp_probeCall {c : ProbeCall} {Q : c.Reply → GuestMemory → PoolLedger → Prop}
    (hnext : ∀ r, probeRefs.next ledger c r = ledger) (h : ∀ r, Q r memory ledger) :
    (MemoryProbe.call c).wp probeRefs Q memory ledger := by
  refine ⟨trivial, fun r _ => ?_⟩
  show Q r memory (probeRefs.next ledger c r)
  rw [hnext r]
  exact h r

theorem wp_getPageUnlessZero {pfn : UInt64} {Q : Bool → GuestMemory → PoolLedger → Prop}
    (hno : Q false memory ledger)
    (hyes : Q true memory { ledger with taken := ledger.taken ++ [pfn] }) :
    (getPageUnlessZero pfn).wp probeRefs Q memory ledger := by
  refine ⟨trivial, fun (r : Bool) _ => ?_⟩
  cases r with
  | false => exact hno
  | true => exact hyes

/-- One more page is one more reference to give back. -/
theorem poolPages_succ {n : UInt64} (hdynamic : memory.dynamic = false)
    (hpages : memory.pages.toNat + 1 < 2 ^ 64) (hn : n = memory.pages + 1) :
    ({ memory with pages := n } : GuestMemory).poolPages =
      memory.poolPages ++ [memory.firstPfn + memory.pages] := by
  have hsucc : n.toNat = memory.pages.toNat + 1 := by
    rw [hn, UInt64.toNat_add]
    exact Nat.mod_eq_of_lt hpages
  simp only [GuestMemory.poolPages, hdynamic, Bool.false_eq_true, if_false, hsucc,
    List.range_succ, List.map_append, List.map_cons, List.map_nil]
  rw [UInt64.ofNat_toNat]

/-- The loop takes the pages in order, and counts them. -/
theorem takePages_probing (rounds : Nat) (h : Probing memory ledger)
    (hdynamic : memory.dynamic = false) (hpages : memory.pages.toNat + rounds < 2 ^ 64) :
    (takePages rounds).wp probeRefs (fun r memory' ledger' => Probing memory' ledger' ∧
      memory'.dynamic = false ∧ memory'.firstPfn = memory.firstPfn ∧
        ledger'.region = ledger.region ∧
          (r = true → memory'.pages.toNat = memory.pages.toNat + rounds)) memory ledger := by
  induction rounds generalizing memory ledger with
  | zero => exact ⟨h, hdynamic, rfl, rfl, fun _ => rfl⟩
  -- a page that is refused ends the loop with the references of those before it
  | succ rounds ih =>
    have hstop : Probing memory ledger ∧ memory.dynamic = false ∧
        memory.firstPfn = memory.firstPfn ∧ ledger.region = ledger.region ∧
          (false = true → memory.pages.toNat = memory.pages.toNat + (rounds + 1)) :=
      ⟨h, hdynamic, rfl, rfl, fun hfalse => absurd hfalse Bool.false_ne_true⟩
    rw [takePages, wp_bind, wp_get, wp_bind]
    refine wp_probeCall (fun _ => rfl) fun (valid : Bool) => ?_
    rw [wp_ite]
    split
    · -- it is no page of memory
      exact hstop
    rw [wp_bind]
    refine wp_probeCall (fun _ => rfl) fun (reserved : Bool) => ?_
    rw [wp_ite]
    split
    · -- it is not reserved
      exact hstop
    rw [wp_bind]
    refine wp_probeCall (fun _ => rfl) fun (compound : Bool) => ?_
    rw [wp_ite]
    split
    · -- it belongs to a compound page
      exact hstop
    rw [wp_bind]
    refine wp_getPageUnlessZero hstop ?_
    · -- the page is taken, so the next one is behind it
      rw [wp_ite, if_neg (by decide), wp_bind, wp_modify]
      have hpages' : (memory.pages + 1).toNat = memory.pages.toNat + 1 := by
        rw [UInt64.toNat_add]
        exact Nat.mod_eq_of_lt (show memory.pages.toNat + 1 < 2 ^ 64 by omega)
      have hnext : Probing { memory with pages := memory.pages + 1 }
          { ledger with taken := ledger.taken ++ [memory.firstPfn + memory.pages] } := by
        refine ⟨?_, h.put, h.references, h.granules, h.pfns, h.opened, h.vmas, h.freed⟩
        rw [poolPages_succ hdynamic (by omega) rfl, h.taken]
      refine wp_mono (ih hnext hdynamic (by rw [hpages']; omega)) ?_
      intro r memory' ledger' hpost
      obtain ⟨hprobing, hdynamic', hfirst, hregion, hall⟩ := hpost
      refine ⟨hprobing, hdynamic', hfirst, hregion, fun hr => ?_⟩
      rw [hall hr, hpages']
      omega

/-- What a probe leaves that has registered the device. -/
structure Probed (P : GuestMemory → PoolLedger → Prop) (memory : GuestMemory)
    (ledger : PoolLedger) :
    Prop extends Probing memory ledger where
  live : memory.live = true
  region : P memory ledger

/-- The registration changes nothing but `live`. -/
theorem registerDevice_balanced {P : GuestMemory → PoolLedger → Prop} (device : String)
    (h : Probing memory ledger) (hP : P { memory with live := true } ledger) :
    (registerDevice device).wp probeRefs (ProbeBalanced (Probed P)) memory ledger := by
  -- the name is read from the device tree
  have hname : (probeName device).wp probeRefs
      (fun _ memory' ledger' => memory' = memory ∧ ledger' = ledger) memory ledger := by
    rw [probeName, wp_bind]
    refine wp_probeCall (fun _ => rfl) fun (present : Bool) => ?_
    rw [wp_ite]
    split
    · rw [wp_bind]
      refine wp_probeCall (fun _ => rfl) fun (client : Option UInt32) => ?_
      cases client with
      | none => exact ⟨rfl, rfl⟩
      | some client =>
        dsimp only
        rw [wp_ite]
        split
        · exact ⟨rfl, rfl⟩
        · exact ⟨rfl, rfl⟩
    · exact ⟨rfl, rfl⟩
  rw [registerDevice, wp_bind]
  refine wp_mono hname fun name memory' ledger' hpost => ?_
  obtain ⟨rfl, rfl⟩ := hpost
  cases name with
  -- the client of the device is not one
  | none => exact probeFail_balanced h _
  | some name =>
    dsimp only
    rw [wp_bind]
    refine wp_probeCall (fun _ => rfl) fun (allocated : Outcome) => ?_
    rw [wp_ite]
    split
    · -- there is no memory for the name
      exact probeFail_balanced h _
    rw [wp_bind, wp_modify, wp_bind]
    have hlive : Probing { memory' with live := true } ledger' :=
      ⟨h.taken, h.put, h.references, h.granules, h.pfns, h.opened, h.vmas, h.freed⟩
    refine wp_probeCall (fun _ => rfl) fun (registered : Except KernelError Unit) => ?_
    cases registered with
    -- the device is not registered, and all is given back
    | error e => exact probeFail_balanced hlive _
    | ok done => exact ⟨hlive, rfl, hP⟩

/-- The pool is the region, page by page. -/
def CoversRegion (memory : GuestMemory) (ledger : PoolLedger) : Prop :=
  memory.dynamic = false → ∃ resource, ledger.region = some resource ∧
    memory.firstPfn.toNat * 4096 = resource.start.toNat ∧
      memory.pages.toNat * 4096 = resource.size.toNat ∧
        memory.firstPfn.toNat + memory.pages.toNat < 2 ^ 64

theorem probeDynamic_balanced (device : String) (htaken : ledger.taken = [])
    (hput : ledger.put = []) :
    (probeDynamic device).wp probeRefs (ProbeBalanced (Probed CoversRegion)) memory ledger := by
  have hzeros : Probing { dynamic := true, live := false } ledger :=
    ⟨htaken, hput, rfl, rfl, rfl, rfl, rfl, rfl⟩
  rw [probeDynamic, wp_bind]
  refine wp_probeCall (fun _ => rfl) fun (allocated : Outcome) => ?_
  rw [wp_ite]
  split
  · exact hput.trans htaken.symm
  rw [wp_bind, wp_set, wp_bind]
  refine wp_probeCall (fun r => ?_) fun (result : Except KernelError MemoryResource) => ?_
  · cases r <;> rfl
  cases result with
  | error e => exact probeFail_balanced hzeros _
  | ok resource =>
    dsimp only
    rw [wp_ite]
    split
    · exact probeFail_balanced hzeros _
    rw [wp_bind, wp_modify]
    refine registerDevice_balanced device
      ⟨htaken, hput, rfl, rfl, rfl, rfl, rfl, rfl⟩ fun hdynamic => ?_
    exact absurd hdynamic.symm Bool.false_ne_true

/-- What is aligned to pages is the number of its pages times their size. -/
theorem toNat_shift_mul {a : UInt64} (h : a % 4096 = 0) : (a >>> 12).toNat * 4096 = a.toNat := by
  have hmod : a.toNat % 4096 = 0 := by
    rw [← UInt64.toNat_inj, UInt64.toNat_mod] at h
    exact h
  have hshift : (a >>> 12).toNat = a.toNat / 4096 := by
    rw [UInt64.toNat_shiftRight]
    exact Nat.shiftRight_eq_div_pow _ _
  rw [hshift]
  exact Nat.div_mul_cancel (Nat.dvd_of_mod_eq_zero hmod)

/-- The static pool of a region that has passed the checks. -/
theorem probePool_balanced (device : String) {resource : MemoryResource}
    (htaken : ledger.taken = []) (hput : ledger.put = []) (hregion : ledger.region = some resource)
    (hstart : resource.start % 4096 = 0) (hsize : resource.size % 4096 = 0)
    (hfits : resource.size >>> 12 ≤ ulongMax - resource.start >>> 12) :
    (probePool device resource.start resource.size).wp probeRefs
      (ProbeBalanced (Probed CoversRegion)) memory ledger := by
  have hzeros (guestBase : UInt64) :
      Probing { dynamic := false, live := false, guestBase } ledger :=
    ⟨htaken, hput, rfl, rfl, rfl, rfl, rfl, rfl⟩
  rw [probePool, wp_bind]
  refine wp_probeCall (fun _ => rfl) fun (allocated : Outcome) => ?_
  rw [wp_ite]
  split
  · -- nothing was taken
    exact hput.trans htaken.symm
  rw [wp_bind, wp_set, wp_bind]
  -- whatever the base is, nothing is taken yet
  suffices hrest : ∀ (readable : Bool) (guestBase : UInt64), Routine.wp probeRefs
      (if !readable then probeFail (.kernel .einval)
      else do
        let memory ← get
        if memory.guestBase % 4096 ≠ 0 ∨ memory.guestBase > ulongMax - resource.size then
          probeFail (.kernel .einval)
        else
          modify fun memory => { memory with firstPfn := resource.start >>> 12 }
          if ← takePages (resource.size >>> 12).toNat then registerDevice device
          else probeFail (.kernel .einval))
      (ProbeBalanced (Probed CoversRegion)) { dynamic := false, live := false, guestBase } ledger by
    rw [wp_bind]
    -- the base is that of the region unless the device tree has another one
    refine wp_probeCall (fun _ => rfl) fun (present : Bool) => ?_
    rw [wp_ite]
    split
    · rw [wp_bind]
      refine wp_probeCall (fun _ => rfl) fun (guestBase : Option UInt64) => ?_
      cases guestBase with
      | none => exact hrest false resource.start
      | some guestBase => exact hrest true guestBase
    · exact hrest true resource.start
  intro readable guestBase
  rw [wp_ite]
  split
  · -- the base cannot be read
    exact probeFail_balanced (hzeros _) _
  rw [wp_bind, wp_get, wp_ite]
  split
  · -- it is not aligned, or the pages do not fit behind it
    exact probeFail_balanced (hzeros _) _
  rw [wp_bind, wp_modify, wp_bind]
  have hpool : Probing
      { dynamic := false, live := false, guestBase, firstPfn := resource.start >>> 12 } ledger :=
    ⟨htaken, hput, rfl, rfl, rfl, rfl, rfl, rfl⟩
  have hpages := (resource.size >>> 12).toNat_lt
  refine wp_mono (takePages_probing (resource.size >>> 12).toNat hpool rfl ?_) ?_
  · show 0 + _ < _
    omega
  intro r memory' ledger' hpost
  obtain ⟨hprobing, -, hfirst, hregion', hall⟩ := hpost
  have hfirst : memory'.firstPfn = resource.start >>> 12 := hfirst
  rw [wp_ite]
  split
  -- every page was taken: the pool covers the region
  next htook =>
    refine registerDevice_balanced device hprobing fun _ => ?_
    have hcount : memory'.pages.toNat = (resource.size >>> 12).toNat :=
      (hall htook).trans (Nat.zero_add _)
    refine ⟨resource, hregion'.trans hregion, ?_, ?_, ?_⟩
    · show memory'.firstPfn.toNat * 4096 = _
      rw [hfirst]
      exact toNat_shift_mul hstart
    · show memory'.pages.toNat * 4096 = _
      rw [hcount]
      exact toNat_shift_mul hsize
    · show memory'.firstPfn.toNat + memory'.pages.toNat < _
      rw [hfirst, hcount]
      have hmax : ulongMax.toNat = 2 ^ 64 - 1 := rfl
      have hshift := (resource.start >>> 12).toNat_lt
      rw [UInt64.le_iff_toNat_le, UInt64.toNat_sub_of_le] at hfits
      · omega
      · rw [UInt64.le_iff_toNat_le, hmax]
        omega
  -- a page was refused, and those before it are given back
  next => exact probeFail_balanced hprobing _

/-- Whether the region can be used is only read. -/
theorem unusable_refs {Q : Bool → GuestMemory → PoolLedger → Prop}
    (h : ∀ unusable, Q unusable memory ledger) :
    (do
      if ← ofPropertyReadBool .region "no-map" then return true
      else ofPropertyReadBool .region "reusable" : MemoryProbe Bool).wp probeRefs Q
        memory ledger := by
  rw [wp_bind]
  refine wp_probeCall (fun _ => rfl) fun (noMap : Bool) => ?_
  rw [wp_ite]
  split
  · exact h true
  · exact wp_probeCall (fun _ => rfl) fun (reusable : Bool) => h reusable

theorem probeStatic_balanced (device : String) (htaken : ledger.taken = [])
    (hput : ledger.put = []) : (probeStatic device).wp probeRefs
      (ProbeBalanced (Probed CoversRegion)) memory ledger := by
  have hnothing (region : Option MemoryResource) (e : ProbeError) :
      ProbeBalanced (Probed CoversRegion) (.error e) memory { ledger with region } :=
    hput.trans htaken.symm
  rw [probeStatic, wp_bind]
  refine wp_probeCall (fun _ => rfl) fun (found : Bool) => ?_
  rw [wp_ite]
  split
  · -- there is no region
    exact hnothing ledger.region (.kernel .einval)
  rw [wp_bind]
  refine unusable_refs fun unusable => ?_
  rw [wp_ite]
  split
  · -- it has no pages, or they can be reused
    rw [wp_bind]
    exact wp_probeCall (fun _ => rfl) fun _ => hnothing ledger.region (.kernel .einval)
  rw [wp_bind]
  refine ⟨trivial, fun (result : Except KernelError MemoryResource) _ => ?_⟩
  cases result with
  -- its address cannot be read
  | error e => exact ⟨trivial, fun _ _ => hnothing ledger.region (.kernel e)⟩
  | ok resource =>
    show Routine.wp probeRefs _ _ memory { ledger with region := some resource }
    rw [wp_bind]
    refine wp_probeCall (fun _ => rfl) fun _ => ?_
    dsimp only
    rw [wp_ite]
    split
    · -- it is empty or not aligned
      exact hnothing (some resource) (.kernel .einval)
    rename_i hchecks
    rw [wp_ite]
    split
    · -- its end is no page frame number
      exact hnothing (some resource) .eoverflow
    rename_i hoverflow
    simp only [not_or, not_not] at hchecks
    refine probePool_balanced device htaken hput rfl hchecks.2.1 hchecks.2.2.1 ?_
    exact UInt64.not_lt.mp hoverflow

/-- A probe that fails has put what it took, and one that succeeds has what it took. -/
theorem hyperMemoryProbe_balanced (device : String) (htaken : ledger.taken = [])
    (hput : ledger.put = []) : (hyperMemoryProbe device).wp probeRefs
      (ProbeBalanced (Probed CoversRegion)) memory ledger := by
  rw [hyperMemoryProbe, wp_bind]
  refine wp_probeCall (fun _ => rfl) fun (dynamic : Bool) => ?_
  rw [wp_ite]
  split
  · exact probeDynamic_balanced device htaken hput
  · exact probeStatic_balanced device htaken hput

end Probe

end HyperIoVm
