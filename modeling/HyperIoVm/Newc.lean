import Mathlib.Algebra.Group.Int.Defs
import HyperIoVm.Data.Python
import HyperIoVm.Wire

/-!
# Archives of the I/O VM (`scripts/assemble-io-vm.py`)

`parse_newc` reads a newc archive into a dictionary of entries, and `encode_newc` writes such a
dictionary as an archive. An exception of either is `none`.
-/

namespace HyperIoVm

open Data

/-! ## Entries -/

def maxEntries : Nat := 16384

def sIfreg : Nat := 0o100000
def sIfdir : Nat := 0o040000
def sIflnk : Nat := 0o120000
def sIfchr : Nat := 0o020000
def sIfblk : Nat := 0o060000

/-- `KINDS`. -/
def kinds : List Nat := [sIfreg, sIfdir, sIflnk, sIfchr, sIfblk]

/-- `stat.S_IFMT`, which takes an unsigned `mode_t`. -/
def sIfmt (mode : Int) : Option Nat :=
  if mode < 0 ∨ mode ≥ 2 ^ 32 then none else some (mode.toNat &&& 0o170000)

/-- `stat.S_ISDIR`. -/
def sIsdir (mode : Int) : Bool := sIfmt mode == some sIfdir

/-- What an archive says of one path. -/
structure ArchiveEntry where
  mode : Int
  uid : Int
  gid : Int
  major : Int
  minor : Int
  contents : Bytes
  deriving DecidableEq, Repr

/-- A dictionary of entries by their paths, in the order of insertion. -/
abbrev Archive := List (String × ArchiveEntry)

/-- `archive_name` returns. -/
def archiveName (name : String) : Bool :=
  !(name.toList.isEmpty || name.toList.contains '\x00' || name.toList.head? == some '/') &&
    !(name.toList.splitOn '/').any (fun part =>
      part == [] || part == ['.'] || part == ['.', '.']) &&
    (utf8Bytes name).length ≤ 4095

/-- The parents of a path, when `pre` stands before the rest of it. -/
def parentsFrom (pre : List Char) : List Char → List String
  | [] => []
  | c :: cs =>
    if c = '/' then .ofList pre :: parentsFrom (pre ++ [c]) cs else parentsFrom (pre ++ [c]) cs

/-- `PurePosixPath(name).parents` of a canonical path, without `.`. -/
def parents (name : String) : List String := parentsFrom [] name.toList

/-- `validate_tree` returns: every parent is a directory of the archive. -/
def validateTree (entries : Archive) : Bool :=
  entries.all fun (name, _) => (parents name).all fun parent =>
    match entries.lookup parent with
    | some entry => sIsdir entry.mode
    | none => false

/-! ## Reading -/

def newcMagic : Bytes := asciiBytes "070701".toList

def trailerName : String := "TRAILER!!!"

/-- The fields of a header that are looked at. -/
structure NewcHeader where
  mode : Int
  uid : Int
  gid : Int
  links : Int
  size : Int
  major : Int
  minor : Int
  namesize : Int
  check : Int

def parseHeader (header : Bytes) : Option NewcHeader :=
  if header.take 6 ≠ newcMagic then none
  else do
    let fields ← (List.range 13).mapM fun i =>
      intBase16 (asciiText (slice header (6 + 8 * i : Nat) (6 + 8 * i + 8 : Nat)))
    match fields with
    | [_, mode, uid, gid, links, _, size, _, _, major, minor, namesize, check] =>
      some { mode, uid, gid, links, size, major, minor, namesize, check }
    | _ => none

/-- One entry at `offset`: its header, its name, its contents and the offset of the next one. -/
def parseRecord (data : Bytes) (offset : Int) : Option (NewcHeader × String × Bytes × Int) := do
  let header ← parseHeader (slice data offset (offset + 110))
  let start := offset + 110
  let stop := start + header.namesize
  let nameBytes := slice data start stop
  if header.namesize < 1 ∨ header.namesize > 4096 ∨ stop > data.length ∨
      nameBytes.getLast? ≠ some 0 ∨ 0 ∈ nameBytes.dropLast then none
  else do
    let name ← utf8Text nameBytes.dropLast
    let payload := alignUp stop
    let next := alignUp (payload + header.size)
    if next > data.length ∨ header.check ≠ 0 then none
    else some (header, name, slice data payload (payload + header.size), next)

/-- The checks of an entry on its own. -/
def parseEntry (header : NewcHeader) (name : String) (contents : Bytes) : Option ArchiveEntry :=
  if !archiveName name then none
  else do
    let kind ← sIfmt header.mode
    if kind ∉ kinds ∨ header.links < 1 ∨ kind = sIfreg ∧ header.links ≠ 1 ∨
        kind ∉ [sIfreg, sIflnk] ∧ header.size ≠ 0 ∨
        kind = sIflnk ∧ (contents = [] ∨ 0 ∈ contents) then none
    else some { mode := header.mode, uid := header.uid, gid := header.gid, major := header.major,
                minor := header.minor, contents }

/-- The loop of `parse_newc`. A round adds an entry or is the last one, so `maxEntries + 1` rounds
are enough. -/
def parseRounds (data : Bytes) : (rounds : Nat) → Int → Archive → Option Archive
  | 0, _, _ => none
  | rounds + 1, offset, entries =>
    if offset + 110 > data.length then none
    else do
      let (header, name, contents, next) ← parseRecord data offset
      if name = trailerName then
        if header.size ≠ 0 ∨ (sliceFrom data next).any (· ≠ 0) ∨ !validateTree entries then none
        else some entries
      else do
        let entry ← parseEntry header name contents
        if (entries.lookup name).isSome ∨ entries.length ≥ maxEntries then none
        else parseRounds data rounds next (entries ++ [(name, entry)])

/-- `parse_newc`. -/
def parseNewc (data : Bytes) : Option Archive := parseRounds data (maxEntries + 1) 0 []

/-! ## Writing -/

/-- The order of the entries: by the number of slashes, then by name. -/
def entryLe (a b : String × ArchiveEntry) : Bool :=
  let slashes (name : String) := name.toList.count '/'
  slashes a.1 < slashes b.1 || slashes a.1 == slashes b.1 && a.1 ≤ b.1

def trailerEntry : String × ArchiveEntry := (trailerName, ⟨0, 0, 0, 0, 0, []⟩)

/-- A name with its terminator. -/
def encodedName (name : String) : Bytes := utf8Bytes name ++ [0]

/-- The fields of an entry's header. -/
def newcValues (inode : Nat) (name : String) (entry : ArchiveEntry) : List Int :=
  [inode, entry.mode, entry.uid, entry.gid, 1, 0, entry.contents.length, 0, 0, entry.major,
    entry.minor, (encodedName name).length, 0]

/-- `f"{value:08x}".encode()`. -/
def newcField (value : Int) : Bytes := asciiBytes (hexPadded 8 value.toNat)

def newcHeader (values : List Int) : Bytes := newcMagic ++ values.flatMap newcField

/-- Append to the archive, then pad it. -/
def appendPadded (result bytes : Bytes) : Bytes :=
  result ++ bytes ++ List.replicate (padding (result ++ bytes).length) 0

/-- The loop of `encode_newc`. -/
def encodeRounds (limit : Int) : (inode : Nat) → (result : Bytes) → Archive → Option Bytes
  | _, result, [] => some result
  | inode, result, (name, entry) :: rest =>
    let values := newcValues inode name entry
    let required := alignUp (result.length + 110 + (encodedName name).length : Nat) +
      entry.contents.length
    if values.any (fun value => value < 0 || value > 0xFFFFFFFF) ∨ alignUp required > limit then
      none
    else
      let result := appendPadded result (newcHeader values ++ encodedName name)
      encodeRounds limit (inode + 1) (appendPadded result entry.contents) rest

/-- `encode_newc`. -/
def encodeNewc (entries : Archive) (limit : Int) : Option Bytes :=
  if validateTree entries then encodeRounds limit 1 [] (entries.mergeSort entryLe ++ [trailerEntry])
  else none

end HyperIoVm
