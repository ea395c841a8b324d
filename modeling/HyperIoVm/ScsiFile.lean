import HyperIoVm.Resources
import HyperIoVm.Data.Steps

/-!
# A vhost-scsi file (`patches/linux/0002-vhost-scsi-per-instance-resources.patch`)

The counts of request queues and scatterlist entries belong to an open file. The device is built
with them by the first stateful command, and from then on they are fixed. Every call but the two
probes runs under the lock of the file.
-/

namespace HyperIoVm

open Data

/-! ## The calls -/

/-- `struct vhost_scsi_resources`. -/
structure VhostScsiResources where
  requestQueues : UInt32
  sgPrealloc : UInt32
  reserved0 : UInt32 := 0
  reserved1 : UInt32 := 0
  deriving DecidableEq, Repr

/-- `struct vhost_scsi`: the field that the patch sets, and the rest. -/
structure VhostScsi (V : Type) where
  inlineSgCnt : UInt32
  rest : V

/-- What the patch builds on: the limits of the driver, and the code that it does not show. `E` is
what a call of that code finds around it. -/
structure ScsiDriver (V E : Type) where
  /-- `VHOST_SCSI_MAX_IO_VQ`. -/
  maxIoVq : UInt32
  /-- `VHOST_SCSI_PREALLOC_SGLS`. -/
  preallocSgls : UInt32
  /-- `CONFIG_ARCH_NO_SG_CHAIN`. -/
  noSgChain : Bool
  /-- `VHOST_SCSI_FEATURES`. -/
  features : UInt64
  /-- `VHOST_SCSI_ABI_VERSION`. -/
  abiVersion : UInt32
  /-- The number of request queues of a device. -/
  requestQueues : V → UInt32
  /-- The allocations of `vhost_scsi_alloc` for a number of request queues. -/
  allocRest : E → UInt32 → Option V
  /-- `vhost_scsi_dev_ioctl`. -/
  devIoctl : E → VhostScsi V → UInt32 → UInt64 → VhostScsi V × Int

/-- `struct vhost_scsi_file`. -/
structure ScsiFile (V : Type) where
  device : Option (VhostScsi V) := none
  resources : VhostScsiResources

/-- A call of `vhost_scsi_ioctl`, with what comes of its copies from and to the caller. -/
inductive ScsiCall (E : Type) where
  | getFeatures (copied : Bool)
  | getAbiVersion (copied : Bool)
  | getResources (copied : Bool)
  | setResources (words : Option VhostScsiResources)
  | command (around : E) (command : UInt32) (arg : UInt64)

/-- What a call has copied to the caller. -/
inductive ScsiCopy where
  | features (features : UInt64)
  | abiVersion (version : UInt32)
  | resources (resources : VhostScsiResources)
  deriving DecidableEq, Repr

/-- The file after a call, what the call returns and copies, and how many devices it has built. -/
structure ScsiResult (V : Type) where
  file : ScsiFile V
  ret : Int
  copied : Option ScsiCopy := none
  built : Nat := 0

def enomem : Int := 12
def efault : Int := 14
def ebusy : Int := 16
def einval : Int := 22
def eopnotsupp : Int := 95

/-- `clamp_t`. -/
def clamp (value low high : UInt32) : UInt32 :=
  if value ≥ high then high else if value ≤ low then low else value

section Driver

variable {V E : Type} (driver : ScsiDriver V E)

/-- `vhost_scsi_alloc`. -/
def vhostScsiAlloc (around : E) (nvqs sgCnt : UInt32) : Option (VhostScsi V) :=
  (driver.allocRest around nvqs).map fun rest => ⟨sgCnt, rest⟩

/-- `vhost_scsi_open`, with the parameters of the module. -/
def vhostScsiOpen (maxIoVqs inlineSgCnt : UInt32) : ScsiFile V where
  resources := {
    requestQueues := clamp maxIoVqs 1 driver.maxIoVq
    sgPrealloc := inlineSgCnt }

/-- `vhost_scsi_release`: the number of devices it frees. -/
def vhostScsiRelease (file : ScsiFile V) : Nat := if file.device.isSome then 1 else 0

/-- `copy_to_user`. -/
def scsiCopyToUser (file : ScsiFile V) (copied : Bool) (copy : ScsiCopy) : ScsiResult V :=
  if copied then ⟨file, 0, some copy, 0⟩ else ⟨file, -efault, none, 0⟩

/-- The branch of `VHOST_SCSI_SET_RESOURCES`. -/
def scsiSetResources (file : ScsiFile V) (words : Option VhostScsiResources) : ScsiResult V :=
  if file.device.isSome then ⟨file, -ebusy, none, 0⟩
  else
    match words with
    | none => ⟨file, -efault, none, 0⟩
    | some resources =>
      if resources.requestQueues = 0 ∨ resources.requestQueues > driver.maxIoVq ∨
          resources.sgPrealloc = 1 ∨ resources.sgPrealloc > driver.preallocSgls ∨
          resources.reserved0 ≠ 0 ∨ resources.reserved1 ≠ 0 then ⟨file, -einval, none, 0⟩
      else if driver.noSgChain ∧ resources.sgPrealloc ≠ driver.preallocSgls then
        ⟨file, -eopnotsupp, none, 0⟩
      else ⟨{ file with resources }, 0, none, 0⟩

/-- `vhost_scsi_ioctl`. -/
def vhostScsiIoctl (file : ScsiFile V) : ScsiCall E → ScsiResult V
  | .getFeatures copied => scsiCopyToUser file copied (.features driver.features)
  | .getAbiVersion copied => scsiCopyToUser file copied (.abiVersion driver.abiVersion)
  | .getResources copied => scsiCopyToUser file copied (.resources file.resources)
  | .setResources words => scsiSetResources driver file words
  | .command around command arg =>
    match file.device with
    | some device =>
      let (device, ret) := driver.devIoctl around device command arg
      ⟨{ file with device := some device }, ret, none, 0⟩
    | none =>
      match vhostScsiAlloc driver around file.resources.requestQueues file.resources.sgPrealloc with
      | none => ⟨file, -enomem, none, 0⟩
      | some device =>
        let (device, ret) := driver.devIoctl around device command arg
        ⟨{ file with device := some device }, ret, none, 1⟩

/-! ## Runs -/

/-- A file with its release, and the number of devices that have been built and freed for it. -/
structure ScsiState (V : Type) where
  file : Option (ScsiFile V)
  built : Nat := 0
  freed : Nat := 0

/-- What happens to an open file. -/
inductive ScsiAction (E : Type) where
  | ioctl (call : ScsiCall E)
  | release

def scsiStep (s : ScsiState V) : ScsiAction E → Option (ScsiState V)
  | .ioctl call => s.file.map fun file =>
    let result := vhostScsiIoctl driver file call
    { s with file := some result.file, built := s.built + result.built }
  | .release => s.file.map fun file =>
    { s with file := none, freed := s.freed + vhostScsiRelease file }

/-- A file that has just been opened. -/
def scsiOpened (maxIoVqs inlineSgCnt : UInt32) : ScsiState V :=
  { file := some (vhostScsiOpen driver maxIoVqs inlineSgCnt) }

end Driver

/-! ## Counts -/

section Counts

variable {V E : Type} {driver : ScsiDriver V E} {file : ScsiFile V} {call : ScsiCall E}

/-- What the hidden code is relied on for: `vhost_scsi_alloc` builds the number of request queues it
is asked for, if that is within the limit, and the wrapped commands leave the counts as they are. -/
structure ScsiDriver.Counts (driver : ScsiDriver V E) : Prop where
  limit : 1 ≤ driver.maxIoVq
  alloc : ∀ around nvqs rest, 1 ≤ nvqs → nvqs ≤ driver.maxIoVq →
    driver.allocRest around nvqs = some rest → driver.requestQueues rest = nvqs
  queues : ∀ around device command arg,
    driver.requestQueues (driver.devIoctl around device command arg).1.rest =
      driver.requestQueues device.rest
  sg : ∀ around device command arg,
    (driver.devIoctl around device command arg).1.inlineSgCnt = device.inlineSgCnt

/-- The counts of a device, as a record. -/
def ScsiDriver.counts (driver : ScsiDriver V E) (device : VhostScsi V) : UInt32 × UInt32 :=
  (driver.requestQueues device.rest, device.inlineSgCnt)

/-- A record that is valid in every field. -/
structure VhostScsiResources.Valid (driver : ScsiDriver V E) (r : VhostScsiResources) : Prop where
  queues : 1 ≤ r.requestQueues ∧ r.requestQueues ≤ driver.maxIoVq
  sg : r.sgPrealloc ≠ 1 ∧ r.sgPrealloc ≤ driver.preallocSgls
  reserved : r.reserved0 = 0 ∧ r.reserved1 = 0
  chain : driver.noSgChain = true → r.sgPrealloc = driver.preallocSgls

/-- The calls that only ask. -/
def ScsiCall.IsQuery : ScsiCall E → Prop
  | .getFeatures _ | .getAbiVersion _ | .getResources _ => True
  | _ => False

theorem scsiCopyToUser_file {copied : Bool} {copy : ScsiCopy} :
    (scsiCopyToUser file copied copy).file = file ∧
      (scsiCopyToUser file copied copy).built = 0 := by
  rw [scsiCopyToUser]
  split
  · exact ⟨rfl, rfl⟩
  · exact ⟨rfl, rfl⟩

/-- A query changes nothing, and builds nothing. -/
theorem ioctl_query (h : call.IsQuery) :
    (vhostScsiIoctl driver file call).file = file ∧
      (vhostScsiIoctl driver file call).built = 0 := by
  cases call with
  | getFeatures => exact scsiCopyToUser_file
  | getAbiVersion => exact scsiCopyToUser_file
  | getResources => exact scsiCopyToUser_file
  | setResources | command => exact absurd h id

theorem one_le_iff_ne_zero {n : UInt32} : 1 ≤ n ↔ n ≠ 0 := by
  rw [UInt32.le_iff_toNat_le, ne_eq, ← UInt32.toNat_inj]
  exact Nat.one_le_iff_ne_zero

/-- A valid record is installed. -/
theorem setResources_valid {r : VhostScsiResources} (hdevice : file.device = none)
    (h : r.Valid driver) :
    scsiSetResources driver file (some r) = ⟨{ file with resources := r }, 0, none, 0⟩ := by
  have hnone : ¬ file.device.isSome = true := by
    rw [hdevice]
    exact Bool.false_ne_true
  have hfields : ¬ (r.requestQueues = 0 ∨ r.requestQueues > driver.maxIoVq ∨ r.sgPrealloc = 1 ∨
      r.sgPrealloc > driver.preallocSgls ∨ r.reserved0 ≠ 0 ∨ r.reserved1 ≠ 0) := by
    simp only [not_or, gt_iff_lt, UInt32.not_lt, not_not]
    exact ⟨one_le_iff_ne_zero.mp h.queues.1, h.queues.2, h.sg.1, h.sg.2, h.reserved.1,
      h.reserved.2⟩
  have hchain : ¬ (driver.noSgChain = true ∧ r.sgPrealloc ≠ driver.preallocSgls) :=
    fun hchain => hchain.2 (h.chain hchain.1)
  unfold scsiSetResources
  rw [if_neg hnone]
  dsimp only
  rw [if_neg hfields, if_neg hchain]

/-- Any other record leaves the file as it was. -/
theorem setResources_cases (words : Option VhostScsiResources) :
    (∃ r, words = some r ∧ r.Valid driver ∧ file.device = none ∧
      scsiSetResources driver file words = ⟨{ file with resources := r }, 0, none, 0⟩) ∨
    (∃ error, 0 < error ∧ scsiSetResources driver file words = ⟨file, -error, none, 0⟩) := by
  unfold scsiSetResources
  split
  · exact .inr ⟨ebusy, by decide, rfl⟩
  rename_i hdevice
  cases words with
  | none => exact .inr ⟨efault, by decide, rfl⟩
  | some r =>
    dsimp only
    split
    · exact .inr ⟨einval, by decide, rfl⟩
    rename_i hfields
    split
    · exact .inr ⟨eopnotsupp, by decide, rfl⟩
    rename_i hchain
    simp only [not_or, gt_iff_lt, UInt32.not_lt, not_not] at hfields
    obtain ⟨hzero, hqueues, hone, hsg, hreserved⟩ := hfields
    refine .inl ⟨r, rfl, ⟨⟨one_le_iff_ne_zero.mpr hzero, hqueues⟩, ⟨hone, hsg⟩, hreserved, ?_⟩,
      Option.not_isSome_iff_eq_none.mp hdevice, rfl⟩
    exact fun hno => not_not.mp fun hne => hchain ⟨hno, hne⟩

theorem clamp_mem {value low high : UInt32} (h : low ≤ high) :
    low ≤ clamp value low high ∧ clamp value low high ≤ high := by
  rw [clamp]
  split
  · exact ⟨h, UInt32.le_refl _⟩
  rename_i hhigh
  split
  · exact ⟨UInt32.le_refl _, h⟩
  rename_i hlow
  rw [ge_iff_le, UInt32.not_le] at hhigh
  rw [UInt32.not_le] at hlow
  exact ⟨UInt32.le_of_lt hlow, UInt32.le_of_lt hhigh⟩

/-- The counts of the record are within the limits, and those of the device are the same. -/
structure ScsiFile.Keeps (driver : ScsiDriver V E) (file : ScsiFile V) : Prop where
  queues : 1 ≤ file.resources.requestQueues ∧ file.resources.requestQueues ≤ driver.maxIoVq
  counts : ∀ device, file.device = some device →
    driver.counts device = (file.resources.requestQueues, file.resources.sgPrealloc)

theorem keeps_open (hcounts : driver.Counts) (maxIoVqs inlineSgCnt : UInt32) :
    (vhostScsiOpen driver maxIoVqs inlineSgCnt).Keeps driver where
  queues := clamp_mem hcounts.limit
  counts _ hdevice := absurd hdevice.symm (Option.some_ne_none _)

/-- A device keeps its counts in a wrapped command. -/
theorem counts_devIoctl (hcounts : driver.Counts) {around : E} {device : VhostScsi V}
    {command : UInt32} {arg : UInt64} :
    driver.counts (driver.devIoctl around device command arg).1 = driver.counts device := by
  rw [ScsiDriver.counts, hcounts.queues, hcounts.sg]
  rfl

/-- A device is built with the counts of the record. -/
theorem counts_alloc (hcounts : driver.Counts) (h : file.Keeps driver) {around : E}
    {device : VhostScsi V} (halloc : vhostScsiAlloc driver around file.resources.requestQueues
      file.resources.sgPrealloc = some device) :
    driver.counts device = (file.resources.requestQueues, file.resources.sgPrealloc) := by
  obtain ⟨rest, hrest, rfl⟩ := Option.map_eq_some_iff.mp halloc
  rw [ScsiDriver.counts, hcounts.alloc around _ rest h.queues.1 h.queues.2 hrest]

/-- What a call does to a file: it changes neither the record nor the counts of a device that is
there, and otherwise builds at most one. -/
structure ScsiFile.Followed (driver : ScsiDriver V E) (file : ScsiFile V) (result : ScsiResult V) :
    Prop where
  keeps : result.file.Keeps driver
  built : vhostScsiRelease file + result.built = vhostScsiRelease result.file
  frozen : ∀ device, file.device = some device → result.file.resources = file.resources ∧
    ∃ device', result.file.device = some device'

/-- A call that leaves the file alone. -/
theorem followed_same (h : file.Keeps driver) {result : ScsiResult V} (hfile : result.file = file)
    (hbuilt : result.built = 0) : file.Followed driver result where
  keeps := by
    rw [hfile]
    exact h
  built := by rw [hfile, hbuilt, Nat.add_zero]
  frozen device hdevice := by
    rw [hfile]
    exact ⟨rfl, device, hdevice⟩

theorem ioctl_followed (hcounts : driver.Counts) (h : file.Keeps driver) (call : ScsiCall E) :
    file.Followed driver (vhostScsiIoctl driver file call) := by
  cases call with
  | getFeatures => exact followed_same h scsiCopyToUser_file.1 scsiCopyToUser_file.2
  | getAbiVersion => exact followed_same h scsiCopyToUser_file.1 scsiCopyToUser_file.2
  | getResources => exact followed_same h scsiCopyToUser_file.1 scsiCopyToUser_file.2
  | setResources words =>
    show file.Followed driver (scsiSetResources driver file words)
    obtain ⟨r, -, hvalid, hdevice, hset⟩ | ⟨error, -, hset⟩ := setResources_cases words
    · rw [hset]
      refine ⟨⟨hvalid.queues, fun device hsome => ?_⟩, rfl, fun device hsome => ?_⟩
      · exact absurd (hdevice.symm.trans hsome).symm (Option.some_ne_none _)
      · exact absurd (hdevice.symm.trans hsome).symm (Option.some_ne_none _)
    · rw [hset]
      exact followed_same h rfl rfl
  | command around command arg =>
    rw [vhostScsiIoctl]
    split
    next device hdevice =>
      refine ⟨⟨h.queues, fun device' hdevice' => ?_⟩, ?_, fun _ _ => ⟨rfl, _, rfl⟩⟩
      · obtain rfl := Option.some_inj.mp hdevice'
        rw [counts_devIoctl hcounts, h.counts device hdevice]
      · rw [vhostScsiRelease, hdevice]
        rfl
    rename_i hnone
    split
    next => exact followed_same h rfl rfl
    next device hdevice =>
      refine ⟨⟨h.queues, fun device' hdevice' => ?_⟩, ?_, fun _ _ => ⟨rfl, _, rfl⟩⟩
      · obtain rfl := Option.some_inj.mp hdevice'
        rw [counts_devIoctl hcounts, counts_alloc hcounts h hdevice]
      · rw [vhostScsiRelease, hnone]
        rfl

/-! ## Runs keep the counts -/

variable {s s' : ScsiState V} {action : ScsiAction E} {actions : List (ScsiAction E)}

/-- While the file is open its device is the only one that was built, and afterwards every device
has been freed. -/
structure ScsiState.Keeps (driver : ScsiDriver V E) (s : ScsiState V) : Prop where
  opened : ∀ file, s.file = some file →
    file.Keeps driver ∧ s.built = vhostScsiRelease file ∧ s.freed = 0
  released : s.file = none → s.built ≤ 1 ∧ s.freed = s.built

theorem release_le (file : ScsiFile V) : vhostScsiRelease file ≤ 1 := by
  rw [vhostScsiRelease]
  split
  · exact Nat.le_refl _
  · exact Nat.zero_le _

theorem scsiStep_keeps (hcounts : driver.Counts) (h : s.Keeps driver)
    (hstep : scsiStep driver s action = some s') : s'.Keeps driver := by
  cases action with
  | ioctl call =>
    obtain ⟨file, hfile, rfl⟩ := Option.map_eq_some_iff.mp hstep
    obtain ⟨hkeeps, hbuilt, hfreed⟩ := h.opened file hfile
    have hcall := ioctl_followed hcounts hkeeps call
    refine ⟨fun file' hfile' => ?_, fun hnone => absurd hnone (Option.some_ne_none _)⟩
    obtain rfl := Option.some_inj.mp hfile'
    refine ⟨hcall.keeps, ?_, hfreed⟩
    rw [← hcall.built, ← hbuilt]
  | release =>
    obtain ⟨file, hfile, rfl⟩ := Option.map_eq_some_iff.mp hstep
    obtain ⟨-, hbuilt, hfreed⟩ := h.opened file hfile
    refine ⟨fun file' hfile' => absurd hfile'.symm (Option.some_ne_none _), fun _ => ?_⟩
    dsimp only
    rw [hbuilt, hfreed, Nat.zero_add]
    exact ⟨release_le file, rfl⟩

/-- The record, once there is a device. -/
def ScsiState.Reports (r : VhostScsiResources) (s : ScsiState V) : Prop :=
  ∀ file, s.file = some file → file.resources = r ∧ ∃ device, file.device = some device

theorem scsiStep_reports {r : VhostScsiResources} (hcounts : driver.Counts)
    (hkeeps : s.Keeps driver)
    (h : s.Reports r) (hstep : scsiStep driver s action = some s') : s'.Reports r := by
  intro file' hfile'
  cases action with
  | ioctl call =>
    obtain ⟨file, hfile, rfl⟩ := Option.map_eq_some_iff.mp hstep
    obtain rfl := Option.some_inj.mp hfile'
    obtain ⟨hr, device, hdevice⟩ := h file hfile
    have hcall := ioctl_followed hcounts (hkeeps.opened file hfile).1 call
    rw [← hr]
    exact hcall.frozen device hdevice
  | release =>
    obtain ⟨file, -, rfl⟩ := Option.map_eq_some_iff.mp hstep
    exact absurd hfile'.symm (Option.some_ne_none _)

theorem opened_keeps (hcounts : driver.Counts) (maxIoVqs inlineSgCnt : UInt32) :
    (scsiOpened driver maxIoVqs inlineSgCnt).Keeps driver where
  opened file hfile := by
    obtain rfl := Option.some_inj.mp hfile
    exact ⟨keeps_open hcounts maxIoVqs inlineSgCnt, rfl, rfl⟩
  released hnone := absurd hnone (Option.some_ne_none _)

/-- A stateful command that cannot build the device leaves the file as it was. -/
theorem ioctl_unbuilt {around : E} (hdevice : file.device = none)
    (halloc : vhostScsiAlloc driver around file.resources.requestQueues file.resources.sgPrealloc =
      none) (command : UInt32) (arg : UInt64) :
    vhostScsiIoctl driver file (.command around command arg) = ⟨file, -enomem, none, 0⟩ := by
  rw [vhostScsiIoctl, hdevice]
  dsimp only
  rw [halloc]

/-- The words that the service passes to `HYPER_VHOST_SCSI_SET_RESOURCES`. -/
def ScsiResources.words (r : ScsiResources) : VhostScsiResources :=
  { requestQueues := r.requestQueues, sgPrealloc := r.sgPrealloc }

theorem words_valid {r : ScsiResources} (hqueues : 4 ≤ driver.maxIoVq)
    (hsg : 2048 ≤ driver.preallocSgls) (hchain : driver.noSgChain = false)
    (h : hyperScsiResourcesValid r.requestQueues r.sgPrealloc = true) : r.words.Valid driver := by
  obtain ⟨⟨hqueue, hqueue'⟩, hsg2, hsg'⟩ := hyperScsiResourcesValid_iff.mp h
  have hfour : r.requestQueues ≤ 4 := UInt32.le_iff_toNat_le.mpr hqueue'
  have hlimit : r.sgPrealloc ≤ 2048 := UInt32.le_iff_toNat_le.mpr hsg'
  refine ⟨⟨UInt32.le_iff_toNat_le.mpr hqueue, UInt32.le_trans hfour hqueues⟩,
    ⟨fun hone => ?_, UInt32.le_trans hlimit hsg⟩, ⟨rfl, rfl⟩, fun hno => ?_⟩
  · have htwo : 2 ≤ (1 : UInt32).toNat := by
      rw [← hone]
      exact hsg2
    exact absurd htwo (by decide)
  · rw [hchain] at hno
    cases hno

/-- What is settled about an open file: while it has no device, calls that only ask or fail leave it
as it was and the others install a valid record; once it has a device, which is the only one, its
counts are what `VHOST_SCSI_GET_RESOURCES` reports, for good. -/
structure ResourcesFrozen (driver : ScsiDriver V E) (s : ScsiState V) (file : ScsiFile V) :
    Prop where
  reported : ∀ device, file.device = some device → s.built = 1 ∧
    ∃ r, (vhostScsiIoctl driver file (.getResources true)).copied = some (.resources r) ∧
      driver.counts device = (r.requestQueues, r.sgPrealloc) ∧
      ∀ actions s', runSteps (scsiStep driver) s actions = some s' → ∀ file',
        s'.file = some file' → ∃ device', file'.device = some device' ∧
          driver.counts device' = (r.requestQueues, r.sgPrealloc) ∧
          (vhostScsiIoctl driver file' (.getResources true)).copied = some (.resources r)
  queries : ∀ call : ScsiCall E, call.IsQuery → (vhostScsiIoctl driver file call).file = file ∧
    (vhostScsiIoctl driver file call).built = 0
  configured : file.device = none → ∀ words : Option VhostScsiResources,
    (∃ r, words = some r ∧ r.Valid driver ∧ vhostScsiIoctl driver file (.setResources words) =
      ⟨{ file with resources := r }, 0, none, 0⟩) ∨
    ∃ error, 0 < error ∧ vhostScsiIoctl driver file (.setResources words) =
      ⟨file, -error, none, 0⟩
  unbuilt : file.device = none → ∀ around, vhostScsiAlloc driver around
      file.resources.requestQueues file.resources.sgPrealloc = none → ∀ command arg,
    vhostScsiIoctl driver file (.command around command arg) = ⟨file, -enomem, none, 0⟩
  configurable : file.device = none → ∀ r : VhostScsiResources, r.Valid driver →
    vhostScsiIoctl driver file (.setResources (some r)) = ⟨{ file with resources := r }, 0, none, 0⟩

theorem resourcesFrozen (hcounts : driver.Counts) (h : s.Keeps driver)
    (hfile : s.file = some file) : ResourcesFrozen driver s file where
  reported device hdevice := by
    obtain ⟨hkeeps, hbuilt, -⟩ := h.opened file hfile
    refine ⟨?_, file.resources, rfl, hkeeps.counts device hdevice, fun actions s' hrun => ?_⟩
    · rw [hbuilt, vhostScsiRelease, hdevice]
      rfl
    have hreports : s.Reports file.resources := by
      intro file' hfile'
      obtain rfl := Option.some_inj.mp (hfile.symm.trans hfile')
      exact ⟨rfl, device, hdevice⟩
    have hlater := runSteps_invariant (J := fun s : ScsiState V => s.Keeps driver ∧
        s.Reports file.resources) (fun s a s' hs hstep =>
      ⟨scsiStep_keeps hcounts hs.1 hstep, scsiStep_reports hcounts hs.1 hs.2 hstep⟩)
      ⟨h, hreports⟩ hrun
    intro file' hfile'
    obtain ⟨hr, device', hdevice'⟩ := hlater.2 file' hfile'
    refine ⟨device', hdevice', ?_, ?_⟩
    · rw [(hlater.1.opened file' hfile').1.counts device' hdevice', hr]
    · rw [← hr]
      rfl
  queries _ hquery := ioctl_query hquery
  configured _ words := by
    obtain ⟨r, hr, hvalid, -, hset⟩ | hset := @setResources_cases V E driver file words
    · exact .inl ⟨r, hr, hvalid, hset⟩
    · exact .inr hset
  unbuilt hdevice _ halloc := ioctl_unbuilt hdevice halloc
  configurable hdevice _ hvalid := setResources_valid hdevice hvalid

/-- The resources of a file are frozen consistently. In every state that a run of calls reaches, at
most one device has been built, it is freed when the file is released and not before, and the open
file is as `ResourcesFrozen` says. A freshly opened file takes every record that the service
accepts, if the limits of the driver are at least those of the service. -/
theorem scsi_resources_frozen (hcounts : driver.Counts) {maxIoVqs inlineSgCnt : UInt32}
    (h : runSteps (scsiStep driver) (scsiOpened driver maxIoVqs inlineSgCnt) actions = some s) :
    s.built ≤ 1 ∧ s.freed = (if s.file.isSome then 0 else s.built) ∧
    (∀ file, s.file = some file → ResourcesFrozen driver s file) ∧
    (4 ≤ driver.maxIoVq → 2048 ≤ driver.preallocSgls → driver.noSgChain = false →
      ∀ r : ScsiResources, hyperScsiResourcesValid r.requestQueues r.sgPrealloc = true →
        vhostScsiIoctl driver (vhostScsiOpen driver maxIoVqs inlineSgCnt)
          (.setResources (some r.words)) =
            ⟨{ (vhostScsiOpen driver maxIoVqs inlineSgCnt) with resources := r.words }, 0, none,
              0⟩) := by
  have hkeeps : s.Keeps driver := runSteps_invariant
    (fun _ _ _ hs hstep => scsiStep_keeps hcounts hs hstep)
    (opened_keeps hcounts maxIoVqs inlineSgCnt) h
  refine ⟨?_, ?_, fun file hfile => resourcesFrozen hcounts hkeeps hfile,
    fun hqueues hsg hchain r hr => setResources_valid rfl (words_valid hqueues hsg hchain hr)⟩
  · cases hfile : s.file with
    | none => exact (hkeeps.released hfile).1
    | some file =>
      rw [(hkeeps.opened file hfile).2.1]
      exact release_le file
  · cases hfile : s.file with
    | none => exact (hkeeps.released hfile).2
    | some file => exact (hkeeps.opened file hfile).2.2

end Counts

/-- A driver whose devices are nothing but their queues; `true` is memory that suffices. -/
def plainDriver : ScsiDriver UInt32 Bool where
  maxIoVq := 1024
  preallocSgls := 2048
  noSgChain := false
  features := 0x100000000
  abiVersion := 1
  requestQueues nvqs := nvqs
  allocRest memory nvqs := if memory then some nvqs else none
  devIoctl _ device _ _ := (device, 0)

theorem plainDriver_counts : plainDriver.Counts where
  limit := by decide
  alloc around nvqs rest _ _ h := by
    cases around with
    | true => exact (Option.some_inj.mp h).symm
    | false => exact absurd h.symm (Option.some_ne_none rest)
  queues _ _ _ _ := rfl
  sg _ _ _ _ := rfl

/-- The device is built at the second attempt, and neither a later configuration nor a reset of the
owner changes its counts. -/
theorem scsi_resources_frozen_plain : ∃ (s : ScsiState UInt32) (device : VhostScsi UInt32),
    s.file = some ⟨some device, { requestQueues := 4, sgPrealloc := 128 }⟩ ∧ s.built = 1 ∧
      plainDriver.counts device = (4, 128) := by
  have hrun : (runSteps (scsiStep plainDriver) (scsiOpened plainDriver 128 2048)
      [.ioctl (.getFeatures true), .ioctl (.command false 0xaf01 0),
        .ioctl (.setResources (some { requestQueues := 4, sgPrealloc := 128 })),
        .ioctl (.command true 0xaf01 0),
        .ioctl (.setResources (some { requestQueues := 2, sgPrealloc := 128 })),
        .ioctl (.command true 0xaf02 0)]).map (fun s => s.file.map fun file =>
          (file.resources, file.device.map fun device => (device.inlineSgCnt, device.rest))) =
      some (some ({ requestQueues := 4, sgPrealloc := 128 }, some (128, 4))) := by
    decide +kernel
  obtain ⟨s, hs, hstate⟩ := Option.map_eq_some_iff.mp hrun
  obtain ⟨file, hfile, hfields⟩ := Option.map_eq_some_iff.mp hstate
  obtain ⟨hresources, hdevice⟩ := Prod.mk.inj hfields
  obtain ⟨device, hdevice, -⟩ := Option.map_eq_some_iff.mp hdevice
  have hfrozen := (scsi_resources_frozen plainDriver_counts hs).2.2.1 file hfile
  obtain ⟨hbuilt, r, hr, hcounts, -⟩ := hfrozen.reported device hdevice
  obtain rfl := ScsiCopy.resources.inj (Option.some_inj.mp hr)
  rw [hresources] at hcounts
  obtain ⟨found, resources⟩ := file
  dsimp only at hresources hdevice
  rw [hresources, hdevice] at hfile
  exact ⟨s, device, hfile, hbuilt, hcounts⟩

end HyperIoVm
