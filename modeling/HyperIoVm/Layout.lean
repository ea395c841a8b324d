import Mathlib.Logic.Basic

/-!
# Extents and apertures (`include/hyper_io_layout.h`)

The checks the service and the guest-memory driver share: an extent of a scatter grant
continues the walk exactly where it stands, and a page's 2 MiB metadata granule lies
wholly inside the device's aperture. Both are written without an addition that can wrap.
-/

namespace HyperIoVm

/-- `hyper_io_extent_valid`. -/
def hyperIoExtentValid (cursor total aliasAddr offset length : UInt64) : Bool :=
  cursor ≤ total && offset == cursor && length != 0 && length &&& 4095 == 0 &&
    aliasAddr &&& 4095 == 0 && aliasAddr ≤ ~~~0 - length && length ≤ total - cursor

/-- `hyper_io_page_aperture`. -/
def hyperIoPageAperture (aliasAddr start stop : UInt64) : Bool :=
  let mask : UInt64 := 2 * 1024 * 1024 - 1
  let base := aliasAddr &&& ~~~mask
  aliasAddr &&& 4095 == 0 && base ≥ start && base ≤ stop && stop - base ≥ mask

end HyperIoVm
