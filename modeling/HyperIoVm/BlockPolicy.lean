import HyperIoVm.Backend

/-!
# Range policy of the block owner (`include/hyper_block_policy.h`)

Ranges are counted in the disk's logical sectors. Subtraction proves both the range bounds
and overflow freedom.
-/

namespace HyperIoVm

/-- `hyper_block_range_valid`. -/
def hyperBlockRangeValid (bytes : UInt64) (sector diskReadOnly : UInt32) (range : BlockRange) :
    Bool :=
  if sector < 512 || sector > 65536 || sector &&& (sector - 1) != 0 || bytes == 0 ||
      bytes % sector.toUInt64 != 0 || range.disk == 0 || range.count == 0 ||
      range.readOnly > 1 || (diskReadOnly != 0 && range.readOnly == 0) then false
  else
    let sectors := bytes / sector.toUInt64
    range.first < sectors && range.count ≤ sectors - range.first

/-- `hyper_block_ranges_conflict`; called only for validated, non-wrapping ranges. -/
def hyperBlockRangesConflict (a b : BlockRange) : Bool :=
  if a.disk == 0 || a.disk != b.disk || (a.readOnly != 0 && b.readOnly != 0) then false
  else a.first < b.first + b.count && b.first < a.first + a.count

/-- `hyper_block_read_valid`. -/
def hyperBlockReadValid (bytes : UInt64) (sector : UInt32)
    (offset length memoryBytes memoryOffset : UInt64) : Bool :=
  sector != 0 && length != 0 && length ≤ 0x100000 && offset % sector.toUInt64 == 0 &&
    length % sector.toUInt64 == 0 && length ≤ bytes && offset ≤ bytes - length &&
    length ≤ memoryBytes && memoryOffset ≤ memoryBytes - length

end HyperIoVm
