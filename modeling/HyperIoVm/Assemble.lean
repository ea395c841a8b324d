import Mathlib.Data.List.Sort
import HyperIoVm.Data.FileTree
import HyperIoVm.Newc

/-!
# Assembly of the boot image (`scripts/assemble-io-vm.py`)

`assemble` verifies a base image, merges an overlay tree into its ramdisk and compresses the result.
Hashing, JSON and gzip are the libraries' own; an exception is `none`.
-/

namespace HyperIoVm

open Data

/-! ## The libraries -/

/-- An entry of the base manifest's `files`. -/
structure ExpectedFile where
  size : Option Int
  sha256 : Option String
  deriving DecidableEq

/-- What `assemble` reads of the base manifest. -/
structure BaseManifest where
  format : Int
  architecture : String
  platform : String
  clientTableVersion : Int
  files : String → Option ExpectedFile

/-- `boot-artifacts.json`. -/
structure BootArtifacts where
  architecture : String
  platform : String
  clientTableVersion : Int
  baseManifestSha256 : String
  kernel : String
  initramfs : String
  initramfsExpandedSize : Nat
  initramfsCompressedSize : Nat
  deriving DecidableEq

/-- The libraries: `gunzip` is the contents of exactly one complete gzip stream. -/
structure Libraries where
  sha256 : Bytes → String
  loads : Bytes → Option BaseManifest
  dumps : BootArtifacts → Bytes
  gzip : Bytes → Bytes
  gunzip : Bytes → Option Bytes
  gunzip_gzip : ∀ data, gunzip (gzip data) = some data

/-! ## Reading -/

def mib : Int := 1024 * 1024

/-- `bounded_read`; a file that is missing raises as well. -/
def boundedRead (file : Option Bytes) (limit : Int) : Option Bytes :=
  file.filter fun data => (data.length : Int) ≤ limit

/-- `inflate`. -/
def inflate (lib : Libraries) (data : Bytes) (limit : Int) : Option Bytes :=
  (lib.gunzip data).filter fun expanded => (expanded.length : Int) ≤ limit

/-- A path of the overlay: what `lstat` says of it, and the contents of a file or the target of a
symlink; `none` is an exception. -/
structure OverlayPath where
  mode : Option Int
  data : Option Bytes

/-- The overlay. Names of a directory are different and have no slash, and no symlink has an empty
target or one with a NUL. -/
structure OverlayTree where
  listable : Bool
  below : FileTree Bytes OverlayPath
  formed : below.Formed
  names : ∀ p ∈ below.paths [], ∀ name ∈ p.1, 0x2f ∉ name
  targets : ∀ p ∈ below.paths [], ∀ mode ∈ p.2.mode, sIfmt mode = some sIflnk →
    ∀ target ∈ p.2.data, target ≠ [] ∧ 0 ∉ target

namespace OverlayTree

/-- All that is in the overlay. -/
def paths (tree : OverlayTree) : List (List Bytes × OverlayPath) := tree.below.paths []

/-- `os.walk(root, followlinks=False)`: a directory that cannot be listed is left out. -/
def walk (tree : OverlayTree) : List (List Bytes × List (Bytes × OverlayPath)) :=
  if tree.listable then ([], tree.below.listing) :: tree.below.walk [] else []

/-- What the walk leaves out. -/
def hidden (tree : OverlayTree) : List (List Bytes × OverlayPath) :=
  if tree.listable then tree.below.hidden [] else tree.below.paths []

/-- The paths of the loops over the walk and over `sorted(directories + files)`. -/
def visited (tree : OverlayTree) : List (List Bytes × OverlayPath) :=
  tree.walk.flatMap fun p => FileTree.pathsIn p.1 (p.2.insertionSort fun a b => a.1 ≤ b.1)

end OverlayTree

/-- `path.relative_to(root).as_posix()`; it has no encoding when a name of it is not UTF-8. -/
def relativeName (path : List Bytes) : Option String := utf8Text ([0x2f].intercalate path)

/-- The contents of an overlay entry. The target of a symlink has to be UTF-8. -/
def overlayContents (kind : Nat) (path : OverlayPath) (remaining : Int) : Option Bytes :=
  if kind = sIfreg then boundedRead path.data remaining
  else if kind = sIflnk then path.data.filter fun target => (utf8Text target).isSome
  else if kind = sIfdir then some []
  else none

/-- The overlay entry of a path. -/
def overlayEntry (path : OverlayPath) (remaining : Int) : Option ArchiveEntry := do
  let mode ← path.mode
  let kind ← sIfmt mode
  let contents ← overlayContents kind path remaining
  some ⟨mode, 0, 0, 0, 0, contents⟩

/-- `entries[name] = entry`. -/
def setEntry (entries : Archive) (name : String) (entry : ArchiveEntry) : Archive :=
  if (entries.lookup name).isSome then
    entries.map fun p => if p.1 = name then (name, entry) else p
  else entries ++ [(name, entry)]

/-- `entries.update(overlay)`. -/
def updateEntries (entries overlay : Archive) : Archive :=
  overlay.foldl (fun entries p => setEntry entries p.1 p.2) entries

/-- The loop of `overlay_entries`. -/
def overlayRounds :
    (remaining : Int) → Archive → List (List Bytes × OverlayPath) → Option Archive
  | _, entries, [] => some entries
  | remaining, entries, (path, info) :: rest => do
    let name ← relativeName path
    if !archiveName name then none
    else do
      let entry ← overlayEntry info remaining
      let remaining := remaining - entry.contents.length
      if remaining < 0 ∨ entries.length ≥ maxEntries then none
      else overlayRounds remaining (setEntry entries name entry) rest

/-- `overlay_entries`; `none` is a root that is not a directory. -/
def overlayEntries (root : Option OverlayTree) (limit : Int) : Option Archive := do
  let tree ← root
  overlayRounds limit [] tree.visited

/-! ## Assembly -/

/-- The arguments. -/
structure AssembleArgs where
  manifestSha256 : String
  architecture : String
  kernelLimit : Int
  compressedLimit : Int
  expandedLimit : Int

/-- A verified artifact of the base. -/
def verifiedFile (lib : Libraries) (manifest : BaseManifest) (base : String → Option Bytes)
    (name : String) (limit : Int) : Option Bytes := do
  let data ← boundedRead (base name) limit
  let expected ← manifest.files name
  if expected.size ≠ some (data.length : Int) ∨ expected.sha256 ≠ some (lib.sha256 data) then none
  else some data

/-- The base that was verified. -/
structure VerifiedBase where
  manifest : BaseManifest
  image : Bytes
  entries : Archive

def verifiedBase (lib : Libraries) (args : AssembleArgs) (base : String → Option Bytes) :
    Option VerifiedBase := do
  let manifestBytes ← boundedRead (base "manifest.json") mib
  if lib.sha256 manifestBytes ≠ args.manifestSha256 then none
  else do
    let manifest ← lib.loads manifestBytes
    if manifest.format ≠ 1 ∨ manifest.architecture ≠ args.architecture then none
    else do
      let image ← verifiedFile lib manifest base "Image" args.kernelLimit
      let ramdisk ← verifiedFile lib manifest base "base.cpio.gz" args.compressedLimit
      if slice image 56 60 ≠ [0x41, 0x52, 0x4d, 0x64] then none
      else do
        let expanded ← inflate lib ramdisk args.expandedLimit
        let entries ← parseNewc expanded
        return { manifest, image, entries }

/-- The entries of the new ramdisk: the overlay's replace the base's. `/init` is the overlay's. -/
def mergedEntries (base overlay : Archive) : Option Archive := do
  let changed := overlay.any fun (name, entry) =>
    (base.lookup name).any fun replaced => sIsdir replaced.mode != sIsdir entry.mode
  if changed then none
  else do
    let merged := updateEntries base overlay
    let init ← merged.lookup "init"
    if sIfmt init.mode ≠ some sIfreg ∨ init.mode.toNat &&& 0o111 = 0 ∨
      (overlay.lookup "init").isNone then none
    else some merged

/-- What a run publishes. -/
structure Generation where
  imageName : String
  image : Bytes
  ramdiskName : String
  ramdisk : Bytes
  manifest : Bytes
  deriving DecidableEq

/-- `assemble`, up to the publication. -/
def assemble (lib : Libraries) (args : AssembleArgs) (base : String → Option Bytes)
    (root : Option OverlayTree) : Option Generation := do
  let verified ← verifiedBase lib args base
  let overlay ← overlayEntries root args.expandedLimit
  let merged ← mergedEntries verified.entries overlay
  let expanded ← encodeNewc merged args.expandedLimit
  let ramdisk := lib.gzip expanded
  if (ramdisk.length : Int) > args.compressedLimit then none
  else
    let imageName := "Image-" ++ lib.sha256 verified.image
    let ramdiskName := "initramfs-" ++ lib.sha256 ramdisk ++ ".cpio.gz"
    let result : BootArtifacts :=
      { architecture := args.architecture, platform := verified.manifest.platform,
        clientTableVersion := verified.manifest.clientTableVersion,
        baseManifestSha256 := args.manifestSha256, kernel := imageName, initramfs := ramdiskName,
        initramfsExpandedSize := expanded.length, initramfsCompressedSize := ramdisk.length }
    some { imageName, image := verified.image, ramdiskName, ramdisk,
           manifest := lib.dumps result }

/-! ## The publisher (`tools/publish.py`) -/

/-- What `prepare` reads the entries of a published ramdisk from. -/
def reparse (lib : Libraries) (ramdisk : Option Bytes) : Option Archive := do
  let data ← boundedRead ramdisk (8 * mib)
  let expanded ← inflate lib data (32 * mib)
  parseNewc expanded

end HyperIoVm
