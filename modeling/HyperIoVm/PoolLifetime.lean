import HyperIoVm.Effects.Points
import HyperIoVm.Lifetime
import HyperIoVm.PoolReferences

/-!
# The life of a static pool (`modules/guest-memory/memory.c`)

The pages of a pool are given back when the last of the driver's reference and the files is gone,
whatever the order in which files are opened, mapped, closed and the device is removed.
-/

namespace HyperIoVm

open Effects Routine MemoryDriver MemorySystem MemoryProbe

/-! ## The invariant -/

/-- A static device, whose pages are `pool`: none of them is put before the last reference is, and
then each of them is. -/
structure PoolHeld (pool : List UInt64) (s : MemoryDevice) (ledger : PoolLedger) : Prop where
  dynamic : s.memory.dynamic = false
  granules : s.memory.granules = []
  pfns : s.memory.pfns = none
  pages : s.memory.poolPages = pool
  references : s.memory.references = s.registered.toNat + s.files.length
  held : s.files ≠ [] ∨ s.registered = true → ledger.put = []
  returned : s.files = [] → s.registered = false → ledger.put = pool

section Pool

variable {pool : List UInt64} {s : MemoryDevice} {ledger : PoolLedger} {memory : GuestMemory}

/-- The pool looks at few fields of the driver. -/
theorem PoolHeld.setMemory (h : PoolHeld pool s ledger) (memory : GuestMemory)
    (hdynamic : memory.dynamic = false)
    (hgranules : memory.granules = []) (hpfns : memory.pfns = none)
    (hfirst : memory.firstPfn = s.memory.firstPfn) (hpages : memory.pages = s.memory.pages)
    (hreferences : memory.references = s.memory.references) :
    PoolHeld pool { s with memory } ledger := by
  refine ⟨hdynamic, hgranules, hpfns, ?_, ?_, h.held, h.returned⟩
  · rw [← h.pages, GuestMemory.poolPages, GuestMemory.poolPages, hdynamic, h.dynamic, hfirst,
      hpages]
  · rw [hreferences]
    exact h.references

/-- Files can change under a device that keeps as many. -/
theorem PoolHeld.setFiles (h : PoolHeld pool s ledger) {files : List OpenFile}
    (hlength : files.length = s.files.length) : PoolHeld pool { s with files } ledger := by
  have hempty : files = [] ↔ s.files = [] := by
    rw [← List.length_eq_zero_iff, hlength, List.length_eq_zero_iff]
  refine ⟨h.dynamic, h.granules, h.pfns, h.pages, ?_, fun hsome => h.held ?_,
    fun hnil => h.returned ?_⟩
  · rw [h.references, hlength]
  · exact hsome.imp_left fun hne hnil => hne (hempty.mpr hnil)
  · exact hempty.mp hnil

/-! ## The driver's functions -/

/-- A call that gives no page back. -/
theorem wp_mmCall {c : MmCall} {Q : c.Reply → GuestMemory → PoolLedger → Prop}
    (hnext : ledger.afterDriver c = ledger) (h : ∀ r, Q r memory ledger) :
    (MemoryDriver.call c).wp poolRefs Q memory ledger := by
  refine ⟨trivial, fun r _ => ?_⟩
  show Q r memory (ledger.afterDriver c)
  rw [hnext]
  exact h r

/-- A static device has nothing to unprepare. -/
theorem hyperMemoryUnprepare_pool (hdynamic : memory.dynamic = false)
    (hgranules : memory.granules = []) (hpfns : memory.pfns = none) :
    hyperMemoryUnprepare.wp poolRefs (fun _ memory' ledger' => memory' = memory ∧ ledger' = ledger)
      memory ledger := by
  rw [hyperMemoryUnprepare, wp_bind, wp_get, wp_bind, hgranules, hyperGranulesPut, wp_pure,
    wp_modify]
  refine ⟨?_, rfl⟩
  have hstatic : ¬ memory.dynamic = true := by
    rw [hdynamic]
    exact Bool.false_ne_true
  rw [if_neg hstatic, if_neg hstatic, ← hgranules, ← hpfns]

/-- An ioctl does not change a static device. -/
theorem hyperMemoryIoctl_pool (command : MemoryCommand) (hdynamic : memory.dynamic = false)
    (hgranules : memory.granules = []) (hpfns : memory.pfns = none) :
    (hyperMemoryIoctl command).wp poolRefs
      (fun _ memory' ledger' => memory' = memory ∧ ledger' = ledger) memory ledger := by
  cases command with
  | unknown => exact ⟨rfl, rfl⟩
  | info =>
    rw [hyperMemoryIoctl, wp_bind, wp_get, wp_ite]
    split
    · exact ⟨rfl, rfl⟩
    rw [ioctlMemoryInfo, wp_bind, wp_get, wp_bind]
    refine wp_mmCall rfl fun (copied : Outcome) => ?_
    rw [wp_ite]
    split
    · exact ⟨rfl, rfl⟩
    · exact ⟨rfl, rfl⟩
  | release =>
    rw [hyperMemoryIoctl, wp_bind, wp_get, wp_ite]
    split
    · exact ⟨rfl, rfl⟩
    rw [ioctlMemoryRelease, wp_bind, wp_get, wp_ite]
    split
    · -- something is mapped
      exact ⟨rfl, rfl⟩
    -- a pool has no granules to put
    rw [wp_bind]
    refine wp_mono (hyperMemoryUnprepare_pool hdynamic hgranules hpfns) ?_
    intro _ memory' ledger' hpost
    exact hpost
  | prepare prepare =>
    rw [hyperMemoryIoctl, wp_bind]
    refine wp_mmCall rfl fun (copied : Outcome) => ?_
    rw [wp_ite]
    split
    · exact ⟨rfl, rfl⟩
    rw [wp_bind, wp_get, wp_ite]
    split
    · exact ⟨rfl, rfl⟩
    rw [ioctlMemoryPrepare, wp_bind, hyperMemoryPrepare, wp_ite]
    split
    · exact ⟨rfl, rfl⟩
    rw [wp_bind, wp_get, wp_ite, hdynamic]
    -- a pool is not prepared
    exact ⟨rfl, rfl⟩

/-- The mapping loop only inserts pages. -/
theorem insertPages_pool (vma : Vma) (rounds : Nat) (index : UInt64) (inserted : List UInt64) :
    (insertPages vma rounds index inserted).wp poolRefs
      (fun _ memory' ledger' => memory' = memory ∧ ledger' = ledger) memory ledger := by
  induction rounds generalizing index inserted with
  | zero => exact ⟨rfl, rfl⟩
  | succ rounds ih =>
    rw [insertPages, wp_bind, wp_get, wp_bind]
    refine wp_mmCall rfl fun (r : Except KernelError Unit) => ?_
    cases r with
    | error e => exact ⟨rfl, rfl⟩
    | ok done => exact ih _ _

theorem hyperMemoryMmap_pool (vma : Vma) : (hyperMemoryMmap vma).wp poolRefs
    (fun _ memory' ledger' => (∃ vmas, memory' = { memory with vmas }) ∧ ledger' = ledger)
    memory ledger := by
  have hsame : (∃ vmas, memory = { memory with vmas }) ∧ ledger = ledger :=
    ⟨⟨memory.vmas, rfl⟩, rfl⟩
  rw [hyperMemoryMmap, wp_ite]
  split
  · exact hsame
  rw [wp_bind, wp_get, wp_ite]
  split
  · exact hsame
  rw [wp_ite]
  split
  · exact hsame
  rw [wp_bind]
  refine wp_mono (insertPages_pool vma _ 0 []) fun r memory' ledger' hpost => ?_
  obtain ⟨rfl, rfl⟩ := hpost
  cases r with
  | error e => exact hsame
  | ok frames => exact ⟨⟨memory'.vmas + 1, rfl⟩, rfl⟩

/-! ## The steps -/

theorem openFile_pool (fd : Fd) : Keeps poolRefs (PoolHeld pool) (openFile fd) := by
  intro s ledger h
  rw [openFile, wp_bind, wp_get, wp_ite]
  split
  · exact h
  rename_i hregistered
  simp only [Bool.not_eq_true', Bool.not_eq_false] at hregistered
  rw [wp_bind, wp_onMemory, hyperMemoryOpen, wp_bind, wp_get, wp_ite]
  split
  · exact h
  rw [wp_ite, h.dynamic]
  split
  · exact h
  rw [wp_bind, wp_modify, wp_pure, wp_bind, wp_modify, wp_pure]
  refine ⟨h.dynamic, h.granules, h.pfns, h.pages, ?_, fun _ => h.held (Or.inr hregistered), ?_⟩
  · show s.memory.references + 1 = _
    rw [h.references, List.length_append]
    rfl
  · exact fun _ hgone => absurd (hgone.symm.trans hregistered) Bool.false_ne_true

theorem ioctlFile_pool (file : Nat) (command : MemoryCommand) :
    Keeps poolRefs (PoolHeld pool) (ioctlFile file command) := by
  intro s ledger h
  rw [ioctlFile, wp_bind, wp_get, wp_ite]
  split
  · exact h
  rw [wp_onMemory]
  refine wp_mono (hyperMemoryIoctl_pool command h.dynamic h.granules h.pfns) ?_
  intro _ memory' ledger' hpost
  obtain ⟨rfl, rfl⟩ := hpost
  exact h

theorem mmapFile_pool (file : Nat) (vma : Vma) :
    Keeps poolRefs (PoolHeld pool) (mmapFile file vma) := by
  intro s ledger h
  rw [mmapFile, wp_bind, wp_get, wp_ite]
  split
  · exact h
  rw [wp_bind, wp_onMemory]
  refine wp_mono (hyperMemoryMmap_pool vma) fun r memory' ledger' hpost => ?_
  obtain ⟨⟨vmas, rfl⟩, rfl⟩ := hpost
  have hmemory : PoolHeld pool { s with memory := { s.memory with vmas } } ledger' :=
    h.setMemory _ h.dynamic h.granules h.pfns rfl rfl rfl
  cases r with
  | error e => exact hmemory
  | ok frames =>
    rw [wp_bind, modifyFile, wp_modify, wp_pure]
    exact hmemory.setFiles (List.length_modify _ _ _)

theorem openArea_pool (file area : Nat) (cut : Option Nat) :
    Keeps poolRefs (PoolHeld pool) (openArea file area cut) := by
  intro s ledger h
  rw [openArea, wp_bind, wp_get]
  cases s.files[file]?.bind (·.areas[area]?) with
  | none => exact h
  | some a =>
    dsimp only
    rw [wp_ite]
    split
    · exact h
    rw [wp_bind, wp_onMemory, hyperVmaOpen, wp_modify, wp_bind, modifyFile, wp_modify, wp_pure]
    have hmemory := h.setMemory { s.memory with vmas := s.memory.vmas + 1 } h.dynamic
      h.granules h.pfns rfl rfl rfl
    exact hmemory.setFiles (List.length_modify _ _ _)

theorem closeArea_pool (file area : Nat) :
    Keeps poolRefs (PoolHeld pool) (closeArea file area) := by
  intro s ledger h
  rw [closeArea, wp_bind, wp_get]
  cases s.files[file]?.bind (·.areas[area]?) with
  | none => exact h
  | some a =>
    dsimp only
    rw [wp_bind, wp_onMemory, hyperVmaClose, wp_modify, wp_bind, modifyFile, wp_modify, wp_pure]
    have hmemory := h.setMemory { s.memory with vmas := s.memory.vmas - 1 } h.dynamic
      h.granules h.pfns rfl rfl rfl
    exact hmemory.setFiles (List.length_modify _ _ _)

theorem closeFile_pool (file : Nat) : Keeps poolRefs (PoolHeld pool) (closeFile file) := by
  intro s ledger h
  rw [closeFile, wp_bind, modifyFile, wp_modify, wp_pure]
  exact h.setFiles (List.length_modify _ _ _)

/-- A reference goes: the last one takes the pages with it. -/
theorem PoolHeld.drop (h : PoolHeld pool s ledger) (registered : Bool) (files : List OpenFile)
    (opened : Bool) (hheld : s.files ≠ [] ∨ s.registered = true)
    (hless : s.registered.toNat + s.files.length = registered.toNat + files.length + 1) :
    krefPut.wp poolRefs (fun _ memory' ledger' =>
      PoolHeld pool { s with memory := memory', registered, files } ledger')
      { s.memory with opened } ledger := by
  have hput := h.held hheld
  have hreferences : s.memory.references - 1 = registered.toNat + files.length := by
    rw [h.references, hless]
    omega
  refine wp_mono (krefPut_pool { s.memory with opened } h.granules) ?_
  intro _ memory' ledger' hpost
  obtain ⟨hmore, hlast⟩ := hpost
  -- the last reference: the pages are given back
  by_cases hzero : s.memory.references - 1 = 0
  · obtain ⟨rfl, rfl⟩ := hlast hzero
    rw [hreferences] at hzero
    have hfiles : files = [] := List.length_eq_zero_iff.mp (by omega)
    have hregistered : registered = false := Bool.toNat_eq_zero.mp (by omega)
    subst hfiles hregistered
    have hpages : (GuestMemory.destroyed { s.memory with opened }).poolPages = pool := by
      rw [← h.pages]
      simp [GuestMemory.destroyed, GuestMemory.poolPages, h.dynamic]
    refine ⟨h.dynamic, rfl, rfl, hpages, rfl, fun hsome => ?_, fun _ _ => ?_⟩
    · rcases hsome with hne | htrue
      · exact absurd rfl hne
      · exact absurd htrue Bool.false_ne_true
    · show ledger.put ++ s.memory.poolPages = pool
      rw [hput, h.pages, List.nil_append]
  · -- somebody else holds the device
    obtain ⟨rfl, rfl⟩ := hmore hzero
    refine ⟨h.dynamic, h.granules, h.pfns, h.pages, hreferences, fun _ => hput, ?_⟩
    intro (hnil : files = []) (hgone : registered = false)
    rw [hreferences, hnil, hgone] at hzero
    exact absurd rfl hzero

theorem releaseFile_pool (file : Nat) : Keeps poolRefs (PoolHeld pool) (releaseFile file) := by
  intro s ledger h
  rw [releaseFile, wp_bind, wp_get]
  cases hf : s.files[file]? with
  | none => exact h
  | some f =>
    dsimp only
    rw [wp_ite]
    split
    · exact h
    obtain ⟨hlt, -⟩ := List.getElem?_eq_some_iff.mp hf
    have hlength : (s.files.eraseIdx file).length + 1 = s.files.length := by
      rw [List.length_eraseIdx_of_lt hlt]
      omega
    have hne : s.files ≠ [] := List.ne_nil_of_length_pos (by omega)
    rw [wp_bind, wp_onMemory, hyperMemoryRelease, wp_bind, wp_get, h.dynamic,
      if_neg Bool.false_ne_true, wp_bind, wp_pure, wp_bind, wp_modify]
    refine wp_mono (h.drop s.registered (s.files.eraseIdx file) false (Or.inl hne)
      (by omega)) ?_
    intro _ memory' ledger' hpost
    rw [wp_bind, wp_modify, wp_pure]
    exact hpost

theorem beginRemove_pool : Keeps poolRefs (PoolHeld pool) beginRemove := by
  intro s ledger h
  rw [beginRemove, wp_bind, wp_onMemory, wp_modify, wp_pure]
  exact h.setMemory _ h.dynamic h.granules h.pfns rfl rfl rfl

theorem endRemove_pool : Keeps poolRefs (PoolHeld pool) endRemove := by
  intro s ledger h
  rw [endRemove, wp_bind, wp_get, wp_ite]
  split
  · exact h
  rename_i hremoving
  simp only [Bool.or_eq_true, Bool.not_eq_true', not_or, Bool.not_eq_true, Bool.not_eq_false]
    at hremoving
  rw [wp_bind, wp_modify, wp_bind, wp_onMemory]
  refine wp_mono (h.drop false s.files s.memory.opened (Or.inr hremoving.2) ?_) ?_
  · rw [hremoving.2]
    show 1 + _ = 0 + _ + 1
    omega
  · intro _ memory' ledger' hpost
    rw [wp_pure]
    exact hpost

/-- Every step keeps the pool. -/
theorem DeviceStep.poolHeld (step : DeviceStep) : Keeps poolRefs (PoolHeld pool) step.run := by
  cases step with
  | openFile fd => exact openFile_pool fd
  | ioctl file command => exact keeps_bind (ioctlFile_pool file command) fun _ => keeps_pure _
  | mmap file vma => exact mmapFile_pool file vma
  | openArea file area cut => exact openArea_pool file area cut
  | closeArea file area => exact closeArea_pool file area
  | closeFile file => exact closeFile_pool file
  | releaseFile file => exact releaseFile_pool file
  | beginRemove => exact beginRemove_pool
  | endRemove => exact endRemove_pool

end Pool

/-! ## From the probe on -/

/-- What `hyper_memory_probe` does. The structure is allocated by the probe itself. -/
def probeRun (device : String) (env : Environment ProbeBus) :
    (Except ProbeError Unit × GuestMemory) × List (Event ProbeBus) :=
  ((hyperMemoryProbe device).run { dynamic := false }).exec env []

/-- The ledger after the probe. -/
def probeLedger (device : String) (env : Environment ProbeBus) : PoolLedger :=
  probeRefs.after {} (probeRun device env).2

/-- The device that the probe has registered, after these steps. -/
def poolRun (device : String) (env : Environment ProbeBus) (env' : Environment Mm)
    (steps : List DeviceStep) : Point Mm MemoryDevice :=
  points DeviceStep.run env' ({ memory := (probeRun device env).1.2 }, []) steps

/-- The ledger goes on with the steps. -/
def poolLedger (device : String) (env : Environment ProbeBus) (env' : Environment Mm)
    (steps : List DeviceStep) : PoolLedger :=
  poolRefs.after (probeLedger device env) (poolRun device env env' steps).2

section Run

variable {memory : GuestMemory} {ledger : PoolLedger}

/-- No reference is taken after the probe. -/
theorem poolRefs_taken (es : List (Event Mm)) :
    (poolRefs.after ledger es).taken = ledger.taken := by
  induction es generalizing ledger with
  | nil => rfl
  | cons e es ih =>
    rw [Contract.after_cons, ih]
    show (ledger.afterDriver e.1).taken = ledger.taken
    cases e.1 <;> rfl

/-- The page frames of a pool that does not wrap. -/
theorem toNat_poolPage (hfits : memory.firstPfn.toNat + memory.pages.toNat < 2 ^ 64) {index : Nat}
    (hindex : index < memory.pages.toNat) :
    (memory.firstPfn + UInt64.ofNat index).toNat = memory.firstPfn.toNat + index := by
  rw [UInt64.toNat_add, UInt64.toNat_ofNat_of_lt' (show index < 2 ^ 64 by omega)]
  exact Nat.mod_eq_of_lt (show memory.firstPfn.toNat + index < 2 ^ 64 by omega)

theorem poolPages_static (hdynamic : memory.dynamic = false) : memory.poolPages =
    (List.range memory.pages.toNat).map fun index => memory.firstPfn + .ofNat index := by
  rw [GuestMemory.poolPages, hdynamic]
  rfl

/-- Every page of a pool once. -/
theorem poolPages_nodup (hdynamic : memory.dynamic = false)
    (hfits : memory.firstPfn.toNat + memory.pages.toNat < 2 ^ 64) : memory.poolPages.Nodup := by
  rw [poolPages_static hdynamic]
  refine List.Nodup.map_on ?_ List.nodup_range
  intro i hi j hj heq
  have hnat := congrArg UInt64.toNat heq
  rw [toNat_poolPage hfits (List.mem_range.mp hi), toNat_poolPage hfits (List.mem_range.mp hj)]
    at hnat
  omega

theorem mem_poolPages (hdynamic : memory.dynamic = false)
    (hfits : memory.firstPfn.toNat + memory.pages.toNat < 2 ^ 64) (pfn : UInt64) :
    pfn ∈ memory.poolPages ↔ memory.firstPfn.toNat ≤ pfn.toNat ∧
      pfn.toNat < memory.firstPfn.toNat + memory.pages.toNat := by
  rw [poolPages_static hdynamic, List.mem_map]
  constructor
  · intro h
    obtain ⟨index, hindex, rfl⟩ := h
    have hlt := List.mem_range.mp hindex
    rw [toNat_poolPage hfits hlt]
    omega
  · intro h
    have hlt : pfn.toNat - memory.firstPfn.toNat < memory.pages.toNat := by omega
    refine ⟨pfn.toNat - memory.firstPfn.toNat, List.mem_range.mpr hlt, ?_⟩
    apply UInt64.toNat_inj.mp
    rw [toNat_poolPage hfits hlt]
    omega

variable {device : String} {env : Environment ProbeBus} {env' : Environment Mm}
  {steps : List DeviceStep}

theorem probeRun_balanced : ProbeBalanced (Probed CoversRegion) (probeRun device env).1.1
    (probeRun device env).1.2 (probeLedger device env) :=
  (Program.wp_exec env [] (hyperMemoryProbe_balanced device rfl rfl)
    (probeRefs_assumed _ _)).2

/-- The device begins its life with the pages that the probe has taken. -/
theorem Probed.poolHeld {P : GuestMemory → PoolLedger → Prop} (h : Probed P memory ledger)
    (hdynamic : memory.dynamic = false) : PoolHeld ledger.taken { memory } ledger :=
  ⟨hdynamic, h.granules, h.pfns, h.taken.symm, h.references, fun _ => h.put,
    fun _ hgone => absurd hgone.symm Bool.false_ne_true⟩

end Run

/-- A probe that fails has put exactly the references that it took. One that succeeds holds one on
each page of its region; they are all put when the last of the driver's reference and the files is
gone, and none before. -/
theorem pool_references_balance (device : String) (env : Environment ProbeBus)
    (env' : Environment Mm) (steps : List DeviceStep) :
    let probe := probeRun device env
    let ledger := probeLedger device env
    let now := poolRun device env env' steps
    let later := poolLedger device env env' steps
    -- a probe that fails gives back what it took
    (∀ e, probe.1.1 = .error e → ledger.put = ledger.taken) ∧
      (probe.1.1 = .ok () → probe.1.2.dynamic = false →
        (ledger.put = [] ∧ ledger.taken.Nodup ∧ ∃ resource, ledger.region = some resource ∧
          ∀ pfn : UInt64, pfn ∈ ledger.taken ↔ resource.start.toNat ≤ pfn.toNat * 4096 ∧
            pfn.toNat * 4096 < resource.start.toNat + resource.size.toNat) ∧
        now.1.memory.references = now.1.registered.toNat + now.1.files.length ∧
        later.taken = ledger.taken ∧
        (now.1.files ≠ [] ∨ now.1.registered = true → later.put = []) ∧
        (now.1.files = [] → now.1.registered = false → later.put = ledger.taken)) := by
  intro probe ledger now later
  have hprobe : ProbeBalanced (Probed CoversRegion) probe.1.1 probe.1.2 ledger :=
    probeRun_balanced
  refine ⟨fun e he => ?_, fun hok hdynamic => ?_⟩
  · -- it has failed
    rw [he] at hprobe
    exact hprobe
  · -- it has a device, which holds the pages of the region
    rw [hok] at hprobe
    have hprobed : Probed CoversRegion probe.1.2 ledger := hprobe
    obtain ⟨resource, hregion, hfirst, hpages, hfits⟩ := hprobed.region hdynamic
    have hkeeps : ∀ step ∈ steps, Keeps poolRefs (PoolHeld ledger.taken) (DeviceStep.run step) :=
      fun step _ => step.poolHeld
    have hlife : PoolHeld ledger.taken now.1 later :=
      (points_keeps (k := ledger) poolRefs_assumed hkeeps
        (p := (({ memory := probe.1.2 } : MemoryDevice), [])) trivial
        (hprobed.poolHeld hdynamic)).2
    refine ⟨⟨hprobed.put, ?_, resource, hregion, fun pfn => ?_⟩, hlife.references,
      poolRefs_taken _, hlife.held, hlife.returned⟩
    · rw [hprobed.taken]
      exact poolPages_nodup hdynamic hfits
    · rw [hprobed.taken, mem_poolPages hdynamic hfits, ← hfirst, ← hpages]
      omega

/-- A static node with a region of two pages, and a kernel that refuses nothing. -/
def twoPages : Environment ProbeBus := fun _ c =>
  match c with
  | .mm c => kindKernel [] c
  | .ofPropertyReadBool _ _ | .ofFindProperty _ | .pageCompound _ => false
  | .ofParsePhandle _ | .pfnValid _ | .pageReserved _ | .getPageUnlessZero _ => true
  | .ofNodePut => ()
  | .ofAddressToResource _ => (.ok ⟨0x80000000, 0x80001fff⟩ : Except KernelError MemoryResource)
  | .ofPropertyReadU64 _ => (none : Option UInt64)
  | .ofPropertyReadU32 _ => (none : Option UInt32)
  | .kzalloc | .kasprintf _ => Outcome.ok
  | .miscRegister => (.ok () : Except KernelError Unit)

/-- The device is removed while a file maps it, and the file is closed later. -/
def removedFirst : List DeviceStep :=
  [.openFile 3, .mmap 0 { start := 0x10000, count := 2 }, .beginRemove, .endRemove, .closeFile 0,
    .releaseFile 0, .closeArea 0 0, .releaseFile 0]

theorem pool_references_balance_removed :
    (poolLedger "pool" twoPages kindKernel (removedFirst.take 6)).put = [] ∧
      (poolLedger "pool" twoPages kindKernel removedFirst).put = [0x80000, 0x80001] := by
  have hok : (probeRun "pool" twoPages).1.1 = .ok () := rfl
  have hstatic : (probeRun "pool" twoPages).1.2.dynamic = false := rfl
  have hbefore := (pool_references_balance "pool" twoPages kindKernel (removedFirst.take 6)).2 hok
    hstatic
  have hafter := (pool_references_balance "pool" twoPages kindKernel removedFirst).2 hok hstatic
  refine ⟨hbefore.2.2.2.1 (Or.inl ?_), (hafter.2.2.2.2 ?_ ?_).trans rfl⟩
  · decide +kernel
  · decide +kernel
  · decide +kernel

end HyperIoVm
