import HyperIoVm.Backend

/-!
# Publication of a client's LUN (`service/block-target.c`)

A bound range becomes a dm-linear device and a vhost-scsi target. The symlink under the
LUN is made last: it is the only publication point. Every earlier failure is rolled back
in reverse order.
-/

namespace HyperIoVm

open Effects

def dmDevCreate (fd : Fd) (name : String) : Service (Option Dev) := sys (.dmDevCreate fd name)
def mkdir (path : String) : Service (Except Errno Unit) := sys (.mkdir path)
def rmdir (path : String) : Service Outcome := sys (.rmdir path)
def mknod (path : String) (device : Dev) : Service Outcome := sys (.mknod path device)
def unlink (path : String) : Service Outcome := sys (.unlink path)
def symlink (target path : String) : Service Outcome := sys (.symlink target path)
def write (fd : Fd) (value : String) : Service (Option Nat) := sys (.write fd value)

/-- Eight or more hexadecimal digits of `%09x`. -/
def hex9 (n : Nat) : String :=
  let digits := Nat.toDigits 16 n
  String.ofList (List.replicate (9 - digits.length) '0' ++ digits)

/-- `block_target_ready`: the client's LUN symlink is present. -/
def blockTargetReady : Service Bool := do
  let wwpn := (← get).wwpn
  if wwpn = "" then return false
  let found ← access s!"/sys/kernel/config/target/vhost/{wwpn}/tpgt_1/lun/lun_0/disk"
  return found == .ok

/-! ## Device mapper -/

/-- The table of a range: the range's sectors, converted to 512-byte units. -/
def mapperTable (device : Dev) (logical : UInt32) (range : BlockRange) : DmTable :=
  let multiplier := logical.toUInt64 / 512
  { device, start := range.first * multiplier, length := range.count * multiplier,
    readOnly := range.readOnly != 0 }

/-- `mapper_create`; on failure the new device is removed again, its node never unlinked. -/
def mapperCreate (control : Fd) (name : String) (device : Dev) (logical : UInt32)
    (range : BlockRange) : Service Outcome := do
  match ← dmDevCreate control name with
  | none => return .failed
  | some mapperDevice =>
    let result ← firstFailure
      [ioctl control (.dmTableLoad name (mapperTable device logical range)),
        ioctl control (.dmDevSuspend name (range.readOnly != 0)),
        mknod ("/dev/mapper/" ++ name) mapperDevice]
    if result = .ok then return .ok
    let _ ← ioctl control (.dmDevRemove name)
    return .failed

/-! ## The configfs target -/

/-- `write_attribute`. -/
def writeAttribute (path value : String) : Service Outcome := do
  match ← openNode (.attribute path) with
  | .error _ => return .failed
  | .ok fd =>
    let written ← write fd value
    let closed ← close fd
    return if written = some value.utf8ByteSize ∧ closed = .ok then .ok else .failed

def makeDirectory (path : String) : Service Outcome := do
  match ← mkdir path with
  | .ok _ => return .ok
  | .error _ => return .failed

/-- A parent directory that other clients share may already exist. -/
def makeSharedDirectory (path : String) : Service Outcome := do
  match ← mkdir path with
  | .ok _ => return .ok
  | .error errno => return if errno = .eexist then .ok else .failed

/-- The configfs objects of one client. -/
structure TargetPaths where
  core : String
  target : String
  group : String
  lun : String

def targetPaths (client : UInt32) (mapper : String) : TargetPaths :=
  let target := s!"/sys/kernel/config/target/vhost/naa.5001405{hex9 client.toNat}"
  { core := "/sys/kernel/config/target/core/iblock_0/" ++ mapper, target,
    group := target ++ "/tpgt_1", lun := target ++ "/tpgt_1/lun/lun_0" }

/-- The `failed` label of `target_create`: undo the first `made` stages. -/
def targetRollback (p : TargetPaths) (made : Nat) : Service Outcome := do
  let _ ← (if made ≥ 5 then writeAttribute (p.group ++ "/nexus") "NULL\n" else pure .ok)
  let _ ← (if made ≥ 4 then rmdir p.lun else pure .ok)
  let _ ← (if made ≥ 3 then rmdir p.group else pure .ok)
  let _ ← (if made ≥ 2 then rmdir p.target else pure .ok)
  let _ ← (if made ≥ 1 then rmdir p.core else pure .ok)
  return .failed

/-- `target_create`. -/
def targetCreate (client : UInt32) (mapper : String) (readOnly : UInt32) : Service Outcome := do
  let p := targetPaths client mapper
  if (← makeDirectory p.core) = .failed then return .failed
  let backstore ← firstFailure
    [writeAttribute (p.core ++ "/control")
        s!"udev_path=/dev/mapper/{mapper},readonly={readOnly.toNat}\n",
      writeAttribute (p.core ++ "/enable") "1\n",
      makeDirectory p.target]
  if backstore = .failed then return ← targetRollback p 1
  if (← makeDirectory p.group) = .failed then return ← targetRollback p 2
  if (← makeDirectory p.lun) = .failed then return ← targetRollback p 3
  if (← writeAttribute (p.group ++ "/nexus") "naa.5001405000000002\n") = .failed then
    return ← targetRollback p 4
  -- the only publication point
  if (← symlink p.core (p.lun ++ "/disk")) = .failed then
    return ← targetRollback p 5
  return .ok

/-- The mapper device `block_target_publish` made, exported or removed again. -/
def exportMapper (control : Fd) (client : UInt32) (mapper : String) (readOnly : UInt32) :
    Service Outcome := do
  if (← targetCreate client mapper readOnly) = .ok then return .ok
  if (← ioctl control (.dmDevRemove mapper)) = .failed then return .failed
  let _ ← unlink ("/dev/mapper/" ++ mapper)
  return .failed

/-- `block_target_publish`. -/
def blockTargetPublish (client : UInt32) (device : Dev) (logical : UInt32) (range : BlockRange) :
    Service Outcome := do
  let mapper := s!"hyper-client-{client.toNat}"
  let parents ← firstFailure
    [makeSharedDirectory "/dev/mapper",
      makeSharedDirectory "/sys/kernel/config/target/core/iblock_0",
      makeSharedDirectory "/sys/kernel/config/target/vhost"]
  if parents = .failed then return .failed
  match ← openNode .mapperControl with
  | .error _ => return .failed
  | .ok control =>
    let created ← mapperCreate control mapper device logical range
    let result ←
      (if created = .ok then exportMapper control client mapper range.readOnly else pure .failed)
    let _ ← close control
    return result

end HyperIoVm
