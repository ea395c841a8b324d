import HyperIoVm.Effects.Points
import HyperIoVm.Lifetime

/-!
# Runs of a guest-memory device

What holds at every point of every run: granules are put only when no memory area is live, and
once a grant is prepared no other one can be until the first is given back.
-/

namespace HyperIoVm

open Effects Routine MemoryDriver MemorySystem

/-! ## While an area is live -/

/-- The call puts no granule. -/
def MmCall.PutsNothing : MmCall → Prop
  | .hyperGranulesPut _ => False
  | _ => True

theorem put_eq_nil {es : List (Event Mm)}
    (h : (Contract.only MmCall.PutsNothing : Contract Mm Unit).Obeyed () es) : put es = [] := by
  induction es with
  | nil => rfl
  | cons e es ih =>
    obtain ⟨hallow, hrest⟩ := h
    obtain ⟨c, r⟩ := e
    cases c with
    | hyperGranulesPut owned => cases hallow
    | _ => exact ih hrest

section Live

variable {s : MemoryDevice} {held : Held} {memory : GuestMemory}

/-- The routine puts no granule from this state. -/
abbrev PutsNothing {σ α : Type} (m : Routine Mm σ α) (s : σ) : Prop :=
  m.wp (.only MmCall.PutsNothing) (fun _ _ _ => True) s ()

theorem copyFromUser_putsNothing {Q : Outcome → GuestMemory → Unit → Prop}
    (h : ∀ r, Q r memory ()) : copyFromUser.wp (.only MmCall.PutsNothing) Q memory () :=
  ⟨trivial, fun r _ => h r⟩

theorem insertPages_putsNothing (vma : Vma) (rounds : Nat) (index : UInt64)
    (inserted : List UInt64) : (insertPages vma rounds index inserted).wp
      (.only MmCall.PutsNothing) (fun _ _ _ => True) memory () := by
  induction rounds generalizing index inserted with
  | zero => trivial
  | succ rounds ih =>
    rw [insertPages, wp_bind, wp_get, wp_bind]
    refine MemoryDriver.wp_call trivial fun r _ => ?_
    cases r with
    | error e => trivial
    | ok done => exact ih _ _

theorem hyperMemoryMmap_putsNothing (vma : Vma) : PutsNothing (hyperMemoryMmap vma) memory := by
  rw [PutsNothing, hyperMemoryMmap, wp_ite]
  split
  · trivial
  rw [wp_bind, wp_get, wp_ite]
  split
  · trivial
  rw [wp_ite]
  split
  · trivial
  rw [wp_bind]
  refine wp_mono (insertPages_putsNothing vma _ 0 []) fun r memory' _ _ => ?_
  cases r with
  | error e => trivial
  | ok frames => trivial

/-- `PREPARE` is busy, `RELEASE` is refused. -/
theorem hyperMemoryIoctl_putsNothing (h : Lifetime s held) (hareas : s.areas ≠ [])
    (command : MemoryCommand) : PutsNothing (hyperMemoryIoctl command) s.memory := by
  -- something is mapped
  have hvmas : s.memory.vmas ≠ 0 := by
    rw [h.vmas]
    exact fun hzero => hareas (List.length_eq_zero_iff.mp hzero)
  rw [PutsNothing]
  cases command with
  | unknown => trivial
  | info =>
    rw [hyperMemoryIoctl, wp_bind, wp_get, wp_ite]
    split
    · trivial
    rw [ioctlMemoryInfo, wp_bind, wp_get, wp_bind]
    exact ⟨trivial, fun r _ => by cases r <;> trivial⟩
  | release =>
    rw [hyperMemoryIoctl, wp_bind, wp_get, wp_ite]
    split
    · trivial
    -- so the device is not released
    rw [ioctlMemoryRelease, wp_bind, wp_get, wp_ite, if_pos hvmas]
    trivial
  | prepare prepare =>
    rw [hyperMemoryIoctl, wp_bind]
    refine copyFromUser_putsNothing fun r => ?_
    rw [wp_ite]
    split
    · trivial
    rw [wp_bind, wp_get, wp_ite]
    split
    · trivial
    rw [ioctlMemoryPrepare, wp_bind]
    -- nor prepared once more
    exact wp_mono (hyperMemoryPrepare_busy prepare h.dynamic (h.pfns_isSome hareas))
      fun _ _ _ _ => trivial

theorem Lifetime.files_ne_nil (h : Lifetime s held) (hpfns : s.memory.pfns.isSome = true) :
    s.files ≠ [] := by
  rcases h.prepared with ⟨hmemory, -⟩ | ⟨hfiles, -⟩
  · rw [hmemory.pfns] at hpfns
    cases hpfns
  · exact hfiles

/-- While an area is live, no step puts a granule. -/
theorem DeviceStep.putsNothing (h : Lifetime s held) (hareas : s.areas ≠ []) (step : DeviceStep) :
    PutsNothing step.run s := by
  have hfiles := h.files_ne_nil (h.pfns_isSome hareas)
  rw [PutsNothing]
  cases step with
  | openFile fd =>
    rw [DeviceStep.run, HyperIoVm.openFile, wp_bind, wp_get, wp_ite]
    split
    · trivial
    rw [wp_bind, wp_onMemory, hyperMemoryOpen, wp_bind, wp_get, wp_ite]
    split
    · trivial
    rw [wp_ite]
    split
    · -- another file is open
      trivial
    · -- this file is the first
      trivial
  | ioctl file command =>
    rw [DeviceStep.run, wp_bind, ioctlFile, wp_bind, wp_get, wp_ite]
    split
    · trivial
    rw [wp_onMemory]
    exact wp_mono (hyperMemoryIoctl_putsNothing h hareas command) fun _ _ _ _ => trivial
  | mmap file vma =>
    rw [DeviceStep.run, mmapFile, wp_bind, wp_get, wp_ite]
    split
    · trivial
    rw [wp_bind, wp_onMemory]
    refine wp_mono (hyperMemoryMmap_putsNothing vma) fun r _ _ _ => ?_
    cases r with
    | error e => trivial
    | ok frames => trivial
  | openArea file area cut =>
    rw [DeviceStep.run, HyperIoVm.openArea, wp_bind, wp_get]
    split
    · trivial
    rw [wp_ite]
    split
    · trivial
    · trivial
  | closeArea file area =>
    rw [DeviceStep.run, HyperIoVm.closeArea, wp_bind, wp_get]
    split
    · trivial
    · trivial
  | closeFile file => trivial
  | releaseFile file =>
    rw [DeviceStep.run, HyperIoVm.releaseFile, wp_bind, wp_get]
    cases hf : s.files[file]? with
    -- there is no such file
    | none => trivial
    -- an area of it is still there
    | some f =>
      rw [areas_of_files (h.file_eq hf).1] at hareas
      dsimp only
      rw [wp_ite, if_pos (by simp [hareas])]
      trivial
  | beginRemove => trivial
  | endRemove =>
    rw [DeviceStep.run, HyperIoVm.endRemove, wp_bind, wp_get, wp_ite]
    split
    · trivial
    -- the reference of the probe is given back
    rename_i hremoving
    simp only [Bool.or_eq_true, Bool.not_eq_true', not_or, Bool.not_eq_true, Bool.not_eq_false]
      at hremoving
    rw [wp_bind, wp_modify, wp_bind, wp_onMemory, krefPut, wp_bind, wp_modify, wp_bind, wp_get,
      wp_ite, if_neg]
    · trivial
    · -- the open file holds a reference too
      show s.memory.references - 1 ≠ 0
      rw [h.references, hremoving.2, Bool.toNat_true, Nat.add_sub_cancel_left]
      exact fun hzero => hfiles (List.length_eq_zero_iff.mp hzero)

end Live

/-! ## A second preparation -/

/-- The step gives back what was prepared, if it succeeds. -/
def DeviceStep.givesBack : DeviceStep → Bool
  | .ioctl _ .release | .releaseFile _ => true
  | _ => false

section Busy

variable {s : MemoryDevice} {held : Held}

theorem hyperMemoryIoctl_pfns (h : Lifetime s held) (hpfns : s.memory.pfns.isSome = true)
    {file : Nat} {command : MemoryCommand}
    (hcommand : (DeviceStep.ioctl file command).givesBack = false) :
    (hyperMemoryIoctl command).wp granuleRefs
      (fun _ memory held' => memory = s.memory ∧ held' = held) s.memory held := by
  cases command with
  | unknown => exact ⟨rfl, rfl⟩
  | info =>
    rw [hyperMemoryIoctl, wp_bind, wp_get, wp_ite]
    split
    · exact ⟨rfl, rfl⟩
    rw [ioctlMemoryInfo, wp_bind, wp_get, wp_bind]
    refine copyToUser_refs fun r => ?_
    rw [wp_ite]
    split
    · exact ⟨rfl, rfl⟩
    · exact ⟨rfl, rfl⟩
  | release => cases hcommand
  | prepare prepare =>
    rw [hyperMemoryIoctl, wp_bind]
    refine copyFromUser_refs fun r => ?_
    rw [wp_ite]
    split
    · exact ⟨rfl, rfl⟩
    rw [wp_bind, wp_get, wp_ite]
    split
    · exact ⟨rfl, rfl⟩
    rw [ioctlMemoryPrepare, wp_bind]
    -- it has been prepared already
    exact wp_mono (hyperMemoryPrepare_busy prepare h.dynamic hpfns) fun _ _ _ hbusy =>
      ⟨hbusy.1, hbusy.2.1⟩

/-- Only `RELEASE` and the release of the file give the page frames back. -/
theorem DeviceStep.stays_prepared (h : Lifetime s held) (hpfns : s.memory.pfns.isSome = true)
    (step : DeviceStep) (hstep : step.givesBack = false) : step.run.wp granuleRefs
      (fun _ s' _ => s'.memory.pfns.isSome = true) s held := by
  have hfiles := h.files_ne_nil hpfns
  cases step with
  | openFile fd =>
    rw [DeviceStep.run, HyperIoVm.openFile, wp_bind, wp_get, wp_ite]
    split
    · exact hpfns
    rw [wp_bind, wp_onMemory, hyperMemoryOpen, wp_bind, wp_get, wp_ite]
    split
    · exact hpfns
    rw [wp_ite]
    split
    · exact hpfns
    · exact hpfns
  | ioctl file command =>
    rw [DeviceStep.run, wp_bind, ioctlFile, wp_bind, wp_get, wp_ite]
    split
    · exact hpfns
    rw [wp_onMemory]
    refine wp_mono (hyperMemoryIoctl_pfns h hpfns hstep) ?_
    intro r memory held' hpost
    rw [hpost.1]
    exact hpfns
  | mmap file vma =>
    rw [DeviceStep.run, mmapFile, wp_bind, wp_get, wp_ite]
    split
    · exact hpfns
    rw [wp_bind, wp_onMemory]
    refine wp_mono (hyperMemoryMmap_refs h) fun r memory held' hpost => ?_
    obtain ⟨-, herror, hok⟩ := hpost
    cases r with
    | error e =>
      rw [herror e rfl]
      exact hpfns
    | ok inserted =>
      rw [(hok inserted rfl).1]
      exact hpfns
  | openArea file area cut =>
    rw [DeviceStep.run, HyperIoVm.openArea, wp_bind, wp_get]
    split
    · exact hpfns
    rw [wp_ite]
    split
    · exact hpfns
    · exact hpfns
  | closeArea file area =>
    rw [DeviceStep.run, HyperIoVm.closeArea, wp_bind, wp_get]
    split
    · exact hpfns
    · exact hpfns
  | closeFile file => exact hpfns
  | releaseFile file => cases hstep
  | beginRemove => exact hpfns
  | endRemove =>
    rw [DeviceStep.run, HyperIoVm.endRemove, wp_bind, wp_get, wp_ite]
    split
    · exact hpfns
    -- the reference of the probe is given back
    rename_i hremoving
    simp only [Bool.or_eq_true, Bool.not_eq_true', not_or, Bool.not_eq_true, Bool.not_eq_false]
      at hremoving
    rw [wp_bind, wp_modify, wp_bind, wp_onMemory]
    refine wp_mono (krefPut_refs h.dynamic h.granules) fun _ memory held' hpost => ?_
    rw [(hpost.1 ?_).1]
    · exact hpfns
    · -- the open file holds a reference too
      rw [h.references, hremoving.2, Bool.toNat_true, Nat.add_sub_cancel_left]
      exact fun hzero => hfiles (List.length_eq_zero_iff.mp hzero)

/-- A `PREPARE` of a prepared device fails and changes nothing. -/
theorem prepare_fails (h : Lifetime s held) (hpfns : s.memory.pfns.isSome = true) (file : Nat)
    (prepare : MemoryPrepare) : (DeviceStep.ioctl file (.prepare prepare)).run.wp granuleRefs
      (fun r s' held' => s' = s ∧ held' = held ∧ ∃ e, r = .error e) s held := by
  rw [DeviceStep.run, wp_bind, ioctlFile, wp_bind, wp_get, wp_ite]
  split
  · exact ⟨rfl, rfl, _, rfl⟩
  rw [wp_onMemory, hyperMemoryIoctl, wp_bind]
  refine copyFromUser_refs fun r => ?_
  rw [wp_ite]
  split
  · exact ⟨rfl, rfl, _, rfl⟩
  rw [wp_bind, wp_get, wp_ite]
  split
  · exact ⟨rfl, rfl, _, rfl⟩
  rw [ioctlMemoryPrepare, wp_bind]
  refine wp_mono (hyperMemoryPrepare_busy prepare h.dynamic hpfns) fun r memory held' hbusy => ?_
  obtain ⟨rfl, rfl, e, rfl⟩ := hbusy
  exact ⟨rfl, rfl, e, rfl⟩

/-- A `PREPARE` that succeeds leaves the device prepared. -/
theorem prepare_prepares (h : Lifetime s held) (file : Nat) (prepare : MemoryPrepare) :
    (DeviceStep.ioctl file (.prepare prepare)).run.wp granuleRefs
      (fun r s' _ => r = .ok () → s'.memory.pfns.isSome = true) s held := by
  cases hpfns : s.memory.pfns with
  | some frames =>
    -- it is prepared already
    refine wp_mono (prepare_fails h (by rw [hpfns]; rfl) file prepare) fun r s' held' hpost => ?_
    obtain ⟨-, -, e, rfl⟩ := hpost
    intro hok
    cases hok
  | none =>
    obtain ⟨-, -, rfl⟩ := h.unprepared hpfns
    rw [DeviceStep.run, wp_bind, ioctlFile, wp_bind, wp_get, wp_ite]
    split
    · -- the file has no descriptor
      intro hok; cases hok
    rw [wp_onMemory, hyperMemoryIoctl, wp_bind]
    refine copyFromUser_refs fun r => ?_
    rw [wp_ite]
    split
    · -- the request cannot be copied
      intro hok; cases hok
    rw [wp_bind, wp_get, wp_ite]
    split
    · -- the device is no longer live
      intro hok; cases hok
    rw [ioctlMemoryPrepare, wp_bind]
    refine wp_mono (hyperMemoryPrepare_refs h.dynamic) fun r memory held' hpost => ?_
    cases r with
    -- the preparation has failed
    | error e => intro hok; cases hok
    | ok done =>
      intro _
      rw [(hpost.2 rfl).state]
      rfl

end Busy

/-! ## Every run -/

/-- The device after a run of steps, from its registration on. -/
def deviceRun (start stop : UInt64) (env : Environment Mm) (steps : List DeviceStep) :
    Point Mm MemoryDevice :=
  points DeviceStep.run env (.probed start stop, []) steps

section Run

variable {start stop : UInt64} {env : Environment Mm} {steps : List DeviceStep}

theorem deviceRun_lifetime : granuleRefs.Obeyed [] (deviceRun start stop env steps).2 ∧
    Lifetime (deviceRun start stop env steps).1
      (granuleRefs.after [] (deviceRun start stop env steps).2) :=
  points_keeps granuleRefs_assumed (fun step _ => step.lifetime) trivial
    (Lifetime.probed start stop)

theorem step_at {step : DeviceStep} {s : Point Mm MemoryDevice} {held : Held}
    {Q : Except KernelError Unit → MemoryDevice → Held → Prop}
    (h : step.run.wp granuleRefs Q s.1 held) :
    Q (step.run.runAt env s).1.1 (step.run.runAt env s).1.2
      (granuleRefs.after held (step.run.runAt env s).2) :=
  (wp_runAt env s h (granuleRefs_assumed _ _)).2

/-- A prepared device stays prepared while nothing gives the page frames back. -/
theorem points_prepared {p : Point Mm MemoryDevice} {mid : List DeviceStep}
    (h : Lifetime p.1 (granuleRefs.after [] p.2)) (hpfns : p.1.memory.pfns.isSome = true)
    (hmid : ∀ step ∈ mid, step.givesBack = false) :
    let later := points DeviceStep.run env p mid
    Lifetime later.1 (granuleRefs.after [] later.2) ∧ later.1.memory.pfns.isSome = true := by
  induction mid generalizing p with
  | nil => exact ⟨h, hpfns⟩
  | cons step mid ih =>
    have hstep := @step_at env _ _ _ _ (step.stays_prepared h hpfns (hmid step List.mem_cons_self))
    have hlife := @step_at env _ _ _ _ (step.lifetime p.1 _ h)
    refine ih (p := advance DeviceStep.run env p step) ?_ hstep
      fun other hother => hmid other (List.mem_cons_of_mem step hother)
    rw [advance, Contract.after_append]
    exact hlife

end Run

/-- The frame at place `i` of an area: inside the prepared range, and in a granule of the
device. -/
def MemoryArea.InGrant (area : MemoryArea) (memory : GuestMemory) (held : Held) (i : Nat) : Prop :=
  area.pgoff.toNat + i < memory.pages.toNat ∧
    ∃ pfns pfn, memory.pfns = some pfns ∧ area.frames[i]? = some pfn ∧
      pfns[area.pgoff.toNat + i]? = some pfn ∧
      ∃ ref ∈ held, ref.1 ∈ memory.granules ∧ ref.2.toNat = pfn.toNat / 512

theorem Lifetime.inGrant {s : MemoryDevice} {held : Held} (h : Lifetime s held)
    {area : MemoryArea} (harea : area ∈ s.areas) {i : Nat} (hi : i < area.frames.length) :
    area.InGrant s.memory held i := by
  rcases h.prepared with ⟨-, hnone⟩ | ⟨-, frames, hbacked, hmaps⟩
  · rw [hnone] at harea
    cases harea
  obtain ⟨hin, hframe⟩ := hmaps area harea i hi
  have hpfn : frames[area.pgoff.toNat + i]? = some frames[area.pgoff.toNat + i] :=
    List.getElem?_eq_getElem hin
  obtain ⟨ref, href, hindex⟩ := hbacked.covered _ (List.getElem_mem hin)
  refine ⟨hbacked.pages ▸ hin, frames, _, hbacked.pfns, hframe.trans hpfn, hpfn, ref, href, ?_,
    hindex⟩
  rw [h.granules]
  exact List.mem_map_of_mem href

/-- What is prepared is prepared whole. -/
theorem Lifetime.together {s : MemoryDevice} {held : Held} (h : Lifetime s held) :
    (s.memory.pfns.isSome = true ↔ s.memory.granules ≠ []) ∧
      (s.memory.pfns.isSome = true ↔ s.memory.pages ≠ 0) := by
  rcases h.prepared with ⟨hnone, -⟩ | ⟨-, frames, hbacked, -⟩
  · simp [hnone.pfns, hnone.granules, hnone.pages]
  · have hpages : s.memory.pages ≠ 0 := by
      intro hzero
      have hlength := hbacked.pages
      rw [hzero] at hlength
      exact absurd hbacked.positive (hlength ▸ Nat.lt_irrefl 0)
    simp [hbacked.pfns, hbacked.granules, hpages]

/-- The life of a dynamic device. At every point of every run at most one file is open; page
frames, granules and a page count are present together; `vmas` counts the live areas; every
frame of a live area is that of a page inside the prepared range, in a granule the device holds.
No step puts a granule while an area is live. After a preparation, another one fails and changes
nothing until `RELEASE` or the release of the file. -/
theorem device_lifetime (start stop : UInt64) (env : Environment Mm) (steps : List DeviceStep) :
    let now := deviceRun start stop env steps
    let memory := now.1.memory
    let held := granuleRefs.after [] now.2
    (now.1.files.length ≤ 1 ∧
      (memory.pfns.isSome = true ↔ memory.granules ≠ []) ∧
      (memory.pfns.isSome = true ↔ memory.pages ≠ 0) ∧
      memory.vmas = now.1.areas.length ∧
      memory.granules = held.map Prod.fst ∧
      ∀ area ∈ now.1.areas, ∀ i < area.frames.length, area.InGrant memory held i) ∧
    (∀ step : DeviceStep, now.1.areas ≠ [] → put (step.run.runAt env now).2 = []) ∧
    ∀ file prepare,
      let step := DeviceStep.ioctl file (.prepare prepare)
      (step.run.runAt env now).1.1 = .ok () →
      ∀ mid : List DeviceStep, (∀ step ∈ mid, step.givesBack = false) → ∀ file' prepare',
        let later := points DeviceStep.run env (advance DeviceStep.run env now step) mid
        let second := (DeviceStep.ioctl file' (.prepare prepare')).run.runAt env later
        (∃ e, second.1.1 = .error e) ∧ second.1.2 = later.1 ∧
          granuleRefs.after [] (later.2 ++ second.2) = granuleRefs.after [] later.2 := by
  intro now memory held
  obtain ⟨-, hlife⟩ : _ ∧ Lifetime now.1 held := deviceRun_lifetime
  refine ⟨⟨hlife.one, hlife.together.1, hlife.together.2, hlife.vmas, hlife.granules,
    fun area harea i hi => hlife.inGrant harea hi⟩, fun step hareas => ?_, ?_⟩
  · -- while something is mapped, no step puts a granule
    have hputs := wp_runAt env now (step.putsNothing hlife hareas)
    exact put_eq_nil (hputs (Contract.only_assumed _ _)).1
  · -- between two preparations there has to be a step that gives back
    intro file prepare step hok mid hmid file' prepare' later second
    have hafter : Lifetime (advance DeviceStep.run env now step).1
        (granuleRefs.after [] (advance DeviceStep.run env now step).2) := by
      rw [advance, Contract.after_append]
      exact step_at (step.lifetime now.1 held hlife)
    obtain ⟨hlater, hpfns⟩ := @points_prepared env _ mid hafter
      (step_at (prepare_prepares hlife file prepare) hok) hmid
    obtain ⟨hstate, hheld, herror⟩ := @step_at env _ later _ _
      (prepare_fails hlater hpfns file' prepare')
    refine ⟨herror, hstate, ?_⟩
    rw [Contract.after_append]
    exact hheld

end HyperIoVm
