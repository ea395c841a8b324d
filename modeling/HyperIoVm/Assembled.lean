import HyperIoVm.Overlay

/-!
# What an assembled image holds

The publisher reads an assembled ramdisk as the base with the overlay in it, unless the overlay
hides something in a directory that cannot be listed or has a path that is named like the trailer of
an archive, or the two together are more than the publisher reads.
-/

namespace HyperIoVm

open Data

/-! ## What is written is read back -/

section Reading

variable {entries merged rest : Archive} {name : String} {entry : ArchiveEntry} {inode : Nat}
  {limit : Int} {pre r : Bytes}

/-- A row of records is not all zeros. -/
theorem any_newcRecords (p : String × ArchiveEntry) :
    (newcRecords inode (p :: rest)).any (· ≠ 0) = true := by
  have hmagic : (0x30 : UInt8) ∈ newcMagic := by decide +kernel
  refine List.any_eq_true.mpr ⟨0x30, ?_, by decide⟩
  rw [newcRecords, newcRecord, padded, newcHeader]
  simp only [List.append_assoc]
  exact List.mem_append_left _ hmagic

/-- What is read back of a row of records are its entries: a record that is named like the trailer
is not accepted as the end when there is another one behind it. -/
theorem eq_of_parseRounds_newcRecords {rounds : Nat} {result : Archive} (h : 4 ∣ pre.length)
    (hfits : HeadersFit inode (rest ++ [trailerEntry])) (hformed : ∀ p ∈ rest, EntryFormed p.1 p.2)
    (hparse : parseRounds (pre ++ newcRecords inode (rest ++ [trailerEntry])) rounds pre.length
      entries = some result) : result = entries ++ rest := by
  induction rest generalizing pre inode entries rounds with
  | nil =>
    cases rounds with
    | zero => cases hparse
    | succ rounds =>
      have hrecord := @parseRecord_newcRecord inode trailerName ⟨0, 0, 0, 0, 0, []⟩ pre [] h hfits.1
        (by decide +kernel)
      have hroom := @record_in_room inode trailerName ⟨0, 0, 0, 0, 0, []⟩ pre [] hfits.1
      rw [List.append_nil] at hrecord hroom
      rw [List.nil_append, trailerEntry, newcRecords, newcRecords, List.append_nil, parseRounds,
        if_neg hroom, hrecord, Option.bind_eq_bind, Option.bind_some] at hparse
      dsimp only at hparse
      rw [if_pos rfl] at hparse
      split at hparse
      next => cases hparse
      next =>
        rw [List.append_nil]
        exact (Option.some_inj.mp hparse).symm
  | cons p rest ih =>
    obtain ⟨name, entry⟩ := p
    cases rounds with
    | zero => cases hparse
    | succ rounds =>
      have hentry := hformed (name, entry) List.mem_cons_self
      have hrecord := @parseRecord_newcRecord inode name entry pre
        (newcRecords (inode + 1) (rest ++ [trailerEntry])) h hfits.1 hentry.canonical
      have hdvd : 4 ∣ (pre ++ newcRecord inode name entry).length := by
        rw [List.length_append]
        exact Nat.dvd_add h dvd_length_newcRecord
      have hdata : pre ++ newcRecords inode ((name, entry) :: rest ++ [trailerEntry]) =
          pre ++ newcRecord inode name entry ++
            newcRecords (inode + 1) (rest ++ [trailerEntry]) := by
        rw [List.cons_append, newcRecords, ← List.append_assoc]
      rw [hdata, parseRounds, if_neg (record_in_room hfits.1), hrecord, Option.bind_eq_bind,
        Option.bind_some] at hparse
      dsimp only at hparse
      split at hparse
      next =>
        -- there is a record behind this one
        have hmore : (newcRecords (inode + 1) (rest ++ [trailerEntry])).any (· ≠ 0) = true := by
          cases rest with
          | nil => exact any_newcRecords _
          | cons p rest => exact any_newcRecords _
        rw [sliceFrom_append, hmore] at hparse
        rw [if_pos (.inr (.inl rfl))] at hparse
        cases hparse
      next hname =>
        rw [parseEntry_writtenHeader ⟨hentry, hname⟩, Option.bind_eq_bind, Option.bind_some]
          at hparse
        split at hparse
        next => cases hparse
        next =>
          rw [ih hdvd hfits.2 (fun q hq => hformed q (List.mem_cons_of_mem _ hq)) hparse,
            List.append_assoc]
          rfl

/-- What is written was a tree. -/
theorem validateTree_of_encodeNewc (h : encodeNewc entries limit = some r) :
    validateTree entries = true := by
  rw [encodeNewc] at h
  split at h
  · assumption
  · cases h

/-- Well-formed entries that are a tree are readable, unless one of them has the trailer's name or
they are too many. -/
theorem FormedEntries.readable_iff (h : FormedEntries entries)
    (htree : validateTree entries = true) :
    ReadableArchive entries ↔ entries.lookup trailerName = none ∧ entries.length ≤ maxEntries := by
  constructor
  · intro hread
    refine ⟨List.lookup_eq_none_iff.mpr fun p hp => ?_, hread.bound⟩
    rw [bne_iff_ne]
    exact (hread.readable p hp).ne_trailer.symm
  · intro hcond
    refine ⟨⟨fun p hp => ⟨h.formed p hp, fun hname => ?_⟩, h.names, hcond.2⟩, htree⟩
    exact bne_iff_ne.mp (List.lookup_eq_none_iff.mp hcond.1 p hp) hname.symm

/-- What is written is read back exactly when no entry is named like the trailer and there are not
too many of them. -/
theorem parseNewc_encodeNewc_iff (h : FormedEntries merged) (hwritable : WritableArchive merged)
    (hencode : encodeNewc merged limit = some r) : parseNewc r = some entries ↔
      entries = merged.mergeSort entryLe ∧ merged.lookup trailerName = none ∧
        merged.length ≤ maxEntries := by
  rw [← h.readable_iff hwritable.tree]
  constructor
  · intro hparse
    obtain ⟨hnumbers, rfl, -⟩ := (encodeNewc_eq_some hwritable).mp hencode
    have hperm := List.mergeSort_perm merged entryLe
    have hstart : 4 ∣ ([] : Bytes).length := Nat.dvd_zero 4
    obtain rfl := eq_of_parseRounds_newcRecords hstart ((headersFit_sorted hwritable).mpr hnumbers)
      (fun p hp => h.formed p (hperm.mem_iff.mp hp)) hparse
    exact ⟨List.nil_append _, (parseNewc_readable hparse).perm (hperm.symm.trans (.refl _))⟩
  · intro hread
    rw [hread.1]
    exact parseNewc_encodeNewc hread.2 hencode

end Reading

/-! ## The image -/

/-- What a run that succeeds has done. -/
theorem assemble_eq_some {lib : Libraries} {args : AssembleArgs} {base : String → Option Bytes}
    {root : Option OverlayTree} {out : Generation} (h : assemble lib args base root = some out) :
    ∃ verified overlay expanded, verifiedBase lib args base = some verified ∧
      overlayEntries root args.expandedLimit = some overlay ∧
      encodeNewc (updateEntries verified.entries overlay) args.expandedLimit = some expanded ∧
      out.ramdisk = lib.gzip expanded := by
  obtain ⟨verified, hverified, h⟩ := Option.bind_eq_some_iff.mp h
  obtain ⟨overlay, hoverlay, h⟩ := Option.bind_eq_some_iff.mp h
  obtain ⟨merged, hmerged, h⟩ := Option.bind_eq_some_iff.mp h
  obtain ⟨expanded, hencode, h⟩ := Option.bind_eq_some_iff.mp h
  have hupdate : merged = updateEntries verified.entries overlay := by
    rw [mergedEntries] at hmerged
    split at hmerged
    · cases hmerged
    · obtain ⟨init, -, hmerged⟩ := Option.bind_eq_some_iff.mp hmerged
      split at hmerged
      · cases hmerged
      · exact (Option.some_inj.mp hmerged).symm
  rw [hupdate] at hencode
  refine ⟨verified, overlay, expanded, hverified, hoverlay, hencode, ?_⟩
  dsimp only at h
  split at h
  · cases h
  · rw [← Option.some_inj.mp h]

/-- The base that is verified is an archive. -/
theorem verifiedBase_readable {lib : Libraries} {args : AssembleArgs}
    {base : String → Option Bytes} {verified : VerifiedBase}
    (h : verifiedBase lib args base = some verified) : ReadableArchive verified.entries := by
  obtain ⟨manifestBytes, -, h⟩ := Option.bind_eq_some_iff.mp h
  split at h
  · cases h
  · obtain ⟨manifest, -, h⟩ := Option.bind_eq_some_iff.mp h
    split at h
    · cases h
    · obtain ⟨image, -, h⟩ := Option.bind_eq_some_iff.mp h
      obtain ⟨ramdisk, -, h⟩ := Option.bind_eq_some_iff.mp h
      split at h
      · cases h
      · obtain ⟨expanded, -, h⟩ := Option.bind_eq_some_iff.mp h
        obtain ⟨entries, hentries, h⟩ := Option.bind_eq_some_iff.mp h
        rw [← Option.some_inj.mp h]
        exact parseNewc_readable hentries

section Image

variable {lib : Libraries} {tree : OverlayTree} {base overlay entries : Archive} {limit : Int}
  {expanded : Bytes}

/-- The entries are those of the overlay, each at its path, and those of the base at all others. -/
structure Merged (tree : OverlayTree) (base entries : Archive) : Prop where
  overlay : ∀ p ∈ tree.paths, ∃ e, StoredAs p e ∧ entries.lookup e.1 = some e.2
  base : ∀ name, (∀ p ∈ tree.paths, relativeName p.1 ≠ some name) →
    entries.lookup name = base.lookup name

/-- The publisher reads the base of a ramdisk with the overlay in it. -/
def SeenAsMerged (lib : Libraries) (tree : OverlayTree) (base : Archive) (ramdisk : Bytes) : Prop :=
  ∃ entries, reparse lib (some ramdisk) = some entries ∧ Merged tree base entries

/-- What the walk leaves out is in the base as it is in the overlay. -/
def NothingHidden (tree : OverlayTree) (base : Archive) : Prop :=
  ∀ p ∈ tree.hidden, ∃ e, StoredAs p e ∧ base.lookup e.1 = some e.2

/-- The archive of the entries. -/
def newcArchive (entries : Archive) : Bytes :=
  newcRecords 1 (entries.mergeSort entryLe ++ [trailerEntry])

/-- What the publisher relies on: the walk sees all of the overlay that the base has not, no path is
named like the trailer, and there are not too many entries or bytes. -/
structure Publishable (lib : Libraries) (tree : OverlayTree) (base merged : Archive) : Prop where
  hidden : NothingHidden tree base
  trailer : ∀ p ∈ tree.paths, relativeName p.1 ≠ some trailerName
  bound : merged.length ≤ maxEntries
  expanded : (archiveLength merged : Int) ≤ 32 * mib
  compressed : ((lib.gzip (newcArchive merged)).length : Int) ≤ 8 * mib

theorem ReadableArchive.lookup_trailer (h : ReadableArchive base) :
    base.lookup trailerName = none := ((h.toFormed.readable_iff h.tree).mp h).1

/-- The entries that were merged have everything of the overlay when nothing of it was hidden. -/
theorem merged_iff (hoverlay : OverlayEntries tree overlay)
    (hentries : ∀ name, entries.lookup name = (overlay.lookup name).or (base.lookup name)) :
    Merged tree base entries ↔ NothingHidden tree base := by
  constructor
  · intro hmerged p hp
    obtain ⟨e, hstored, hlookup⟩ := hmerged.overlay p (OverlayTree.mem_paths.mpr (.inr hp))
    rw [hentries, hoverlay.lookup_hidden hp hstored, Option.none_or] at hlookup
    exact ⟨e, hstored, hlookup⟩
  · intro hhidden
    refine ⟨fun p hp => ?_, fun name hname => ?_⟩
    · obtain hp | hp := OverlayTree.mem_paths.mp hp
      · obtain ⟨e, he, hstored⟩ := hoverlay.stored p hp
        refine ⟨e, hstored, ?_⟩
        rw [hentries, (lookup_eq_some_iff_mem hoverlay.names).mpr he, Option.some_or]
      · obtain ⟨e, hstored, hlookup⟩ := hhidden p hp
        refine ⟨e, hstored, ?_⟩
        rw [hentries, hoverlay.lookup_hidden hp hstored, Option.none_or, hlookup]
    · have hnone : overlay.lookup name = none := by
        refine List.lookup_eq_none_iff.mpr fun e he => bne_iff_ne.mpr fun heq => ?_
        obtain ⟨p, hp, hstored⟩ := hoverlay.visited e he
        exact hname p (OverlayTree.mem_paths.mpr (.inl hp)) (heq ▸ hstored.name)
      rw [hentries, hnone, Option.none_or]

/-- The overlay brings an entry that is named like the trailer exactly when a path is named so. -/
theorem lookup_trailer_iff (hbase : ReadableArchive base) (hoverlay : OverlayEntries tree overlay)
    (hhidden : NothingHidden tree base) : overlay.lookup trailerName = none ↔
      ∀ p ∈ tree.paths, relativeName p.1 ≠ some trailerName := by
  constructor
  · intro hnone p hp hname
    obtain hp | hp := OverlayTree.mem_paths.mp hp
    · obtain ⟨e, he, hstored⟩ := hoverlay.stored p hp
      have heq := Option.some_inj.mp (hname.symm.trans hstored.name)
      exact bne_iff_ne.mp (List.lookup_eq_none_iff.mp hnone e he) heq
    · obtain ⟨e, hstored, hlookup⟩ := hhidden p hp
      have heq := Option.some_inj.mp (hname.symm.trans hstored.name)
      rw [← heq, hbase.lookup_trailer] at hlookup
      cases hlookup
  · intro hpaths
    refine List.lookup_eq_none_iff.mpr fun e he => bne_iff_ne.mpr fun heq => ?_
    obtain ⟨p, hp, hstored⟩ := hoverlay.visited e he
    exact hpaths p (OverlayTree.mem_paths.mpr (.inl hp)) (heq ▸ hstored.name)

/-- The publisher reads what it has room for. -/
theorem reparse_gzip : reparse lib (some (lib.gzip expanded)) = some entries ↔
    ((lib.gzip expanded).length : Int) ≤ 8 * mib ∧ (expanded.length : Int) ≤ 32 * mib ∧
      parseNewc expanded = some entries := by
  unfold reparse
  simp only [Option.bind_eq_bind, Option.bind_eq_some_iff, boundedRead_eq_some, inflate,
    Option.filter_eq_some_iff, decide_eq_true_iff]
  constructor
  · intro h
    obtain ⟨data, ⟨hdata, hlength⟩, expanded', ⟨hexpanded, hlimit⟩, hparse⟩ := h
    obtain rfl := Option.some_inj.mp hdata
    rw [lib.gunzip_gzip] at hexpanded
    obtain rfl := Option.some_inj.mp hexpanded
    exact ⟨hlength, hlimit, hparse⟩
  · intro h
    exact ⟨_, ⟨rfl, h.1⟩, expanded, ⟨lib.gunzip_gzip expanded, h.2.1⟩, h.2.2⟩

/-- What is compressed is seen as what was merged exactly when it can be published. -/
theorem seenAsMerged_iff (hbase : ReadableArchive base) (hoverlay : OverlayEntries tree overlay)
    (hencode : encodeNewc (updateEntries base overlay) limit = some expanded) :
    SeenAsMerged lib tree base (lib.gzip expanded) ↔
      Publishable lib tree base (updateEntries base overlay) := by
  have hformed := hbase.toFormed.update hoverlay.formed
  have hwritable : WritableArchive (updateEntries base overlay) := by
    refine ⟨fun p hp => (hformed.formed p hp).canonical, ?_, validateTree_of_encodeNewc hencode⟩
    have hlength : (updateEntries base overlay).length ≤ base.length + overlay.length :=
      length_updateEntries_le
    have hbound := Nat.add_le_add hbase.bound hoverlay.bound
    rw [Nat.two_mul]
    exact hlength.trans hbound
  obtain ⟨hnumbers, hexpanded, -⟩ := (encodeNewc_eq_some hwritable).mp hencode
  have hlength : expanded.length = archiveLength (updateEntries base overlay) := by
    rw [hexpanded, length_archive hwritable hnumbers]
  have hlookup (name : String) := lookup_updateEntries hbase.names hoverlay.names name
  have hsorted (name : String) :
      ((updateEntries base overlay).mergeSort entryLe).lookup name =
        (overlay.lookup name).or (base.lookup name) := by
    rw [lookup_of_perm hformed.names (List.mergeSort_perm _ _), hlookup]
  have htrailer : (updateEntries base overlay).lookup trailerName = none ↔
      overlay.lookup trailerName = none := by
    rw [hlookup, hbase.lookup_trailer, Option.or_none]
  have hmerged := merged_iff hoverlay hsorted
  constructor
  · intro h
    obtain ⟨entries, hreparse, hseen⟩ := h
    obtain ⟨hcompressed, hroom, hparse⟩ := reparse_gzip.mp hreparse
    obtain ⟨rfl, hnone, hbound⟩ := (parseNewc_encodeNewc_iff hformed hwritable hencode).mp hparse
    have hhidden := hmerged.mp hseen
    refine ⟨hhidden, ?_, hbound, hlength ▸ hroom, ?_⟩
    · exact (lookup_trailer_iff hbase hoverlay hhidden).mp (htrailer.mp hnone)
    · rw [newcArchive, ← hexpanded]
      exact hcompressed
  · intro h
    refine ⟨_, reparse_gzip.mpr ⟨?_, hlength ▸ h.expanded, ?_⟩, hmerged.mpr h.hidden⟩
    · rw [hexpanded]
      exact h.compressed
    · refine (parseNewc_encodeNewc_iff hformed hwritable hencode).mpr ⟨rfl, ?_, h.bound⟩
      exact htrailer.mpr ((lookup_trailer_iff hbase hoverlay h.hidden).mpr h.trailer)

/-- What is published and seen as what was merged can be published. -/
theorem publishable_of_seen {args : AssembleArgs} {files : String → Option Bytes}
    {verified : VerifiedBase} {out : Generation}
    (h : assemble lib args files (some tree) = some out)
    (hverified : verifiedBase lib args files = some verified)
    (hseen : SeenAsMerged lib tree verified.entries out.ramdisk) :
    ∃ merged, Publishable lib tree verified.entries merged := by
  obtain ⟨verified', overlay, expanded, hverified', hoverlay, hencode, hramdisk⟩ :=
    assemble_eq_some h
  obtain rfl := Option.some_inj.mp (hverified'.symm.trans hverified)
  obtain ⟨tree', htree, hentries⟩ := overlayEntries_eq_some hoverlay
  obtain rfl := Option.some_inj.mp htree
  rw [hramdisk, seenAsMerged_iff (verifiedBase_readable hverified) hentries hencode] at hseen
  exact ⟨_, hseen⟩

end Image

/-- Assembled images are what was merged, exactly when they can be published. Of every base and
overlay that are accepted, the publisher reads the published ramdisk as the base with the overlay in
it if and only if the walk has seen all that the base has not, no path of the overlay is named like
the trailer, and the publisher has room for the entries and the bytes. -/
theorem assembled_as_merged_iff {lib : Libraries} {args : AssembleArgs}
    {files : String → Option Bytes} {root : Option OverlayTree} {out : Generation}
    (h : assemble lib args files root = some out) :
    ∃ tree base overlay, root = some tree ∧ verifiedBase lib args files = some base ∧
      overlayEntries root args.expandedLimit = some overlay ∧
      (SeenAsMerged lib tree base.entries out.ramdisk ↔
        Publishable lib tree base.entries (updateEntries base.entries overlay)) := by
  obtain ⟨base, overlay, expanded, hbase, hoverlay, hencode, hramdisk⟩ := assemble_eq_some h
  obtain ⟨tree, hroot, hentries⟩ := overlayEntries_eq_some hoverlay
  refine ⟨tree, base, overlay, hroot, hbase, hoverlay, ?_⟩
  rw [hramdisk]
  exact seenAsMerged_iff (verifiedBase_readable hbase) hentries hencode

/-! ### A base without files -/

def plainImage : Bytes := List.replicate 56 0 ++ [0x41, 0x52, 0x4d, 0x64]

def plainManifest : BaseManifest where
  format := 1
  architecture := "aarch64"
  platform := "qemu"
  clientTableVersion := 5
  files name :=
    if name = "Image" then some ⟨some 60, some (.ofList (asciiText plainImage))⟩
    else some ⟨some 124, some (.ofList (asciiText (newcRecords 1 [trailerEntry])))⟩

/-- Libraries that name contents by themselves and do not compress. -/
def plainLibraries : Libraries where
  sha256 data := .ofList (asciiText data)
  loads _ := some plainManifest
  dumps result := utf8Bytes (result.kernel ++ result.initramfs)
  gzip data := data
  gunzip data := some data
  gunzip_gzip _ := rfl

def plainArgs : AssembleArgs := ⟨"manifest", "aarch64", 4096, 4096, 4096⟩

/-- A base whose ramdisk is empty. -/
def plainBase (name : String) : Option Bytes :=
  if name = "manifest.json" then some (asciiBytes "manifest".toList)
  else if name = "Image" then some plainImage
  else some (newcRecords 1 [trailerEntry])

theorem readable_nil : ReadableArchive [] :=
  ⟨⟨fun _ hp => absurd hp List.not_mem_nil, List.nodup_nil, Nat.zero_le _⟩, rfl⟩

theorem parseNewc_trailer : parseNewc (newcRecords 1 [trailerEntry]) = some [] := by
  have hsorted : ([] : Archive).mergeSort entryLe = [] := List.mergeSort_nil
  have hencode : encodeNewc [] 4096 = some (newcRecords 1 [trailerEntry]) := by
    apply (encodeNewc_eq_some readable_nil.writable).mpr
    rw [hsorted]
    exact ⟨fun _ hp => absurd hp List.not_mem_nil, rfl, by decide +kernel⟩
  rw [parseNewc_encodeNewc readable_nil hencode, hsorted]

theorem verifiedBase_plain : verifiedBase plainLibraries plainArgs plainBase =
    some ⟨plainManifest, plainImage, []⟩ := by
  have hmanifest : boundedRead (plainBase "manifest.json") mib =
      some (asciiBytes "manifest".toList) := by decide +kernel
  have hhash : plainLibraries.sha256 (asciiBytes "manifest".toList) = plainArgs.manifestSha256 := by
    decide +kernel
  have himage : verifiedFile plainLibraries plainManifest plainBase "Image"
      plainArgs.kernelLimit = some plainImage := by decide +kernel
  have hramdisk : verifiedFile plainLibraries plainManifest plainBase "base.cpio.gz"
      plainArgs.compressedLimit = some (newcRecords 1 [trailerEntry]) := by decide +kernel
  have hexpanded : inflate plainLibraries (newcRecords 1 [trailerEntry]) plainArgs.expandedLimit =
      some (newcRecords 1 [trailerEntry]) := by decide +kernel
  have hloads (data : Bytes) : plainLibraries.loads data = some plainManifest := rfl
  simp only [verifiedBase, Option.bind_eq_bind, hmanifest, Option.bind_some, hhash, hloads,
    himage, hramdisk, hexpanded, parseNewc_trailer]
  rfl

/-- What is published of an overlay on this base. -/
def plainGeneration (ramdisk : Bytes) : Generation :=
  let imageName := "Image-" ++ plainLibraries.sha256 plainImage
  let ramdiskName := "initramfs-" ++ plainLibraries.sha256 ramdisk ++ ".cpio.gz"
  { imageName, image := plainImage, ramdiskName, ramdisk,
    manifest := utf8Bytes (imageName ++ ramdiskName) }

/-- With an overlay that fits, a run on this base succeeds. -/
theorem assemble_plain {root : Option OverlayTree} {overlay : Archive}
    (hoverlay : overlayEntries root 4096 = some overlay)
    (hmerged : mergedEntries [] overlay = some overlay) (htree : validateTree overlay = true)
    (hnumbers : ∀ p ∈ overlay, p.2.NumbersFit) (hlength : archiveLength overlay ≤ 4096) :
    assemble plainLibraries plainArgs plainBase root =
        some (plainGeneration (newcArchive overlay)) ∧
      (newcArchive overlay).length = archiveLength overlay := by
  obtain ⟨tree, -, hentries⟩ := overlayEntries_eq_some hoverlay
  have hwritable : WritableArchive overlay :=
    ⟨fun p hp => (hentries.formed.formed p hp).canonical,
      hentries.bound.trans (Nat.le_mul_of_pos_left _ (by decide)), htree⟩
  have hencode : encodeNewc overlay 4096 = some (newcArchive overlay) :=
    (encodeNewc_eq_some hwritable).mpr ⟨hnumbers, rfl, Int.ofNat_le.mpr hlength⟩
  have hsize : (newcArchive overlay).length = archiveLength overlay :=
    length_archive hwritable hnumbers
  have hcompressed : ¬ ((plainLibraries.gzip (newcArchive overlay)).length : Int) >
      plainArgs.compressedLimit := by
    show ¬ ((newcArchive overlay).length : Int) > 4096
    omega
  have hexpanded : plainArgs.expandedLimit = 4096 := rfl
  refine ⟨?_, hsize⟩
  simp only [assemble, Option.bind_eq_bind, verifiedBase_plain, Option.bind_some, hexpanded,
    hoverlay, hmerged, hencode, if_neg hcompressed]
  rfl

/-- An overlay with an `/init` of one byte. -/
def initTree (text : UInt8) : OverlayTree where
  listable := true
  below := .file (utf8Bytes "init") ⟨some 0o100755, some [text]⟩ .nil
  formed := ⟨List.not_mem_nil, trivial⟩
  names p hp := by
    rw [List.mem_singleton.mp hp]
    show ∀ name ∈ [utf8Bytes "init"], 0x2f ∉ name
    decide +kernel
  targets p hp := by
    rw [List.mem_singleton.mp hp]
    intro mode hmode hkind
    obtain rfl := Option.some_inj.mp hmode
    cases hkind

theorem overlayEntries_initTree (text : UInt8) : overlayEntries (some (initTree text)) 4096 =
    some [("init", ⟨0o100755, 0, 0, 0, 0, [text]⟩)] := by
  have hname : relativeName [utf8Bytes "init"] = some "init" := by decide +kernel
  have hcanonical : archiveName "init" = true := by decide +kernel
  have hentry : overlayEntry ⟨some 0o100755, some [text]⟩ 4096 =
      some ⟨0o100755, 0, 0, 0, 0, [text]⟩ := rfl
  have hvisited : (initTree text).visited =
      [([utf8Bytes "init"], ⟨some 0o100755, some [text]⟩)] := rfl
  simp only [overlayEntries, hvisited, overlayRounds, Option.bind_eq_bind, hname, Option.bind_some,
    hcanonical, hentry]
  rfl

/-- An overlay with `/init` and a directory with a file, which can be listed or not. -/
def etcTree (listable : Bool) : OverlayTree where
  listable := true
  below := .file (utf8Bytes "init") ⟨some 0o100755, some [0x23]⟩
    (.directory (utf8Bytes "etc") ⟨some 0o040755, none⟩ listable
      (.file (utf8Bytes "hosts") ⟨some 0o100644, some [0x78]⟩ .nil) .nil)
  formed := by revert listable; decide +kernel
  names := by revert listable; decide +kernel
  targets := by revert listable; decide +kernel

/-- What a walk finds there when it can list the directory. -/
def etcEntries : Archive :=
  [("etc", ⟨0o040755, 0, 0, 0, 0, []⟩), ("init", ⟨0o100755, 0, 0, 0, 0, [0x23]⟩),
    ("etc/hosts", ⟨0o100644, 0, 0, 0, 0, [0x78]⟩)]

theorem overlayEntries_etcTree : overlayEntries (some (etcTree true)) 4096 = some etcEntries := by
  decide +kernel

/-- An overlay with `/init` and a file that is named like the trailer. -/
def trailerTree : OverlayTree where
  listable := true
  below := .file (utf8Bytes "TRAILER!!!") ⟨some 0o100644, some [0x78]⟩
    (.file (utf8Bytes "init") ⟨some 0o100755, some [0x23]⟩ .nil)
  formed := by decide +kernel
  names := by decide +kernel
  targets := by decide +kernel

/-- An image is assembled from the base and a directory with a file, and is seen with both. -/
theorem assembled_as_merged_iff_etc : ∃ out tree base,
    assemble plainLibraries plainArgs plainBase (some tree) = some out ∧
      verifiedBase plainLibraries plainArgs plainBase = some base ∧
        SeenAsMerged plainLibraries tree base.entries out.ramdisk := by
  have hmerged : updateEntries [] etcEntries = etcEntries := by decide +kernel
  obtain ⟨hout, hlength⟩ :=
    assemble_plain overlayEntries_etcTree (by decide +kernel) (by decide +kernel)
    (by decide +kernel) (by decide +kernel)
  obtain ⟨tree, base, overlay, htree, hbase, hoverlay', hiff⟩ := assembled_as_merged_iff hout
  refine ⟨_, tree, base, htree ▸ hout, hbase, hiff.mpr ?_⟩
  obtain rfl := Option.some_inj.mp htree
  obtain rfl := Option.some_inj.mp (hoverlay'.symm.trans overlayEntries_etcTree)
  obtain rfl := Option.some_inj.mp (hbase.symm.trans verifiedBase_plain)
  refine ⟨fun p hp => absurd hp List.not_mem_nil, by decide +kernel, by decide +kernel,
    by decide +kernel, ?_⟩
  show ((newcArchive (updateEntries [] etcEntries)).length : Int) ≤ 8 * mib
  rw [hmerged, hlength]
  decide +kernel

/-- An image is assembled with the file that is named like the trailer, and is not seen with it. -/
theorem trailer_file_lost : ∃ out base,
    assemble plainLibraries plainArgs plainBase (some trailerTree) = some out ∧
      verifiedBase plainLibraries plainArgs plainBase = some base ∧
        ¬ SeenAsMerged plainLibraries trailerTree base.entries out.ramdisk := by
  have hoverlay : overlayEntries (some trailerTree) 4096 =
      some [("TRAILER!!!", ⟨0o100644, 0, 0, 0, 0, [0x78]⟩),
        ("init", ⟨0o100755, 0, 0, 0, 0, [0x23]⟩)] := by decide +kernel
  obtain ⟨hout, -⟩ := assemble_plain hoverlay (by decide +kernel) (by decide +kernel)
    (by decide +kernel) (by decide +kernel)
  refine ⟨_, _, hout, verifiedBase_plain, fun hseen => ?_⟩
  obtain ⟨merged, hpublishable⟩ := publishable_of_seen hout verifiedBase_plain hseen
  exact absurd hpublishable.trailer (by decide +kernel)

/-- An image is assembled without the file in a directory that cannot be listed. -/
theorem hidden_file_lost : ∃ out base,
    assemble plainLibraries plainArgs plainBase (some (etcTree false)) = some out ∧
      verifiedBase plainLibraries plainArgs plainBase = some base ∧
        ¬ SeenAsMerged plainLibraries (etcTree false) base.entries out.ramdisk := by
  have hoverlay : overlayEntries (some (etcTree false)) 4096 =
      some [("etc", ⟨0o040755, 0, 0, 0, 0, []⟩), ("init", ⟨0o100755, 0, 0, 0, 0, [0x23]⟩)] := by
    decide +kernel
  obtain ⟨hout, -⟩ := assemble_plain hoverlay (by decide +kernel) (by decide +kernel)
    (by decide +kernel) (by decide +kernel)
  refine ⟨_, _, hout, verifiedBase_plain, fun hseen => ?_⟩
  obtain ⟨merged, hpublishable⟩ := publishable_of_seen hout verifiedBase_plain hseen
  obtain ⟨e, -, hlookup⟩ := hpublishable.hidden _ List.mem_cons_self
  cases hlookup

end HyperIoVm
