import HyperIoVm.Assembled

/-!
# Extracting an emitted archive

`encode_newc` writes the entries by the number of slashes in their paths, and only when each parent
is a directory among them. Whoever extracts the records in their order therefore finds the way to
each path made of directories alone: no symlink is followed, and nothing is written outside the
root.
-/

namespace HyperIoVm

open Data

/-! ## Paths -/

/-- The components of a path. -/
def components (name : String) : List (List Char) := name.toList.splitOn '/'

/-- A component that does not name an entry of a directory; an absolute path begins with one. -/
def strays (component : List Char) : Bool :=
  component == [] || component == ['.'] || component == ['.', '.']

/-- How the resolution of a path ends. -/
inductive Walk where
  /-- At a path below the root, through directories. -/
  | reaches (path : List Char)
  /-- At a symlink, which says where it goes on. -/
  | follows (target : Bytes)
  /-- Where it does not go down. -/
  | strays
  | fails
  deriving DecidableEq

/-- Resolve the components of a path, from `here` on, among what is extracted. -/
def walk (extracted : Archive) : (here : List Char) → List (List Char) → Walk
  | here, [] => .reaches here
  | here, [c] => if HyperIoVm.strays c then .strays else .reaches (here ++ c)
  | here, c :: c' :: rest =>
    if HyperIoVm.strays c then .strays
    else match extracted.lookup (.ofList (here ++ c)) with
      | none => .fails
      | some entry =>
        if sIsdir entry.mode then walk extracted (here ++ c ++ ['/']) (c' :: rest)
        else if sIfmt entry.mode = some sIflnk then .follows entry.contents
        else .fails

/-- A record and those before it: every proper ancestor of its path is a directory among them, its
path is not and is canonical, and an extractor that has extracted them comes to that very path. -/
structure SafeRecord (before : Archive) (name : String) : Prop where
  ancestors : ∀ ancestor rest, name.toList = ancestor ++ '/' :: rest →
    ∃ entry, (String.ofList ancestor, entry) ∈ before ∧ sIsdir entry.mode = true
  new : name ∉ before.map (·.1)
  relative : name.toList.head? ≠ some '/'
  canonical : ∀ c ∈ components name, c ≠ [] ∧ c ≠ ['.'] ∧ c ≠ ['.', '.']
  walks : walk before [] (components name) = .reaches name.toList

/-- Every record is safe after the ones before it. -/
def SafeRecords (records : Archive) : Prop :=
  ∀ before name entry after, records = before ++ (name, entry) :: after → SafeRecord before name

section Paths

variable {name : String} {before after records entries : Archive} {entry : ArchiveEntry}

theorem mem_parentsFrom (ancestor rest pre : List Char) :
    String.ofList (pre ++ ancestor) ∈ parentsFrom pre (ancestor ++ '/' :: rest) := by
  induction ancestor generalizing pre with
  | nil =>
    rw [List.append_nil, List.nil_append, parentsFrom, if_pos rfl]
    exact List.mem_cons_self
  | cons c ancestor ih =>
    have hrest := ih (pre ++ [c])
    rw [List.append_assoc] at hrest
    rw [List.cons_append, parentsFrom]
    split
    · exact List.mem_cons_of_mem _ hrest
    · exact hrest

/-- The proper ancestors of a path are its parents. -/
theorem mem_parents {ancestor rest : List Char} (h : name.toList = ancestor ++ '/' :: rest) :
    String.ofList ancestor ∈ parents name := by
  rw [parents, h]
  exact mem_parentsFrom ancestor rest []

/-- What `archive_name` checks of the components. -/
theorem components_canonical (h : archiveName name = true) {c : List Char}
    (hc : c ∈ components name) : strays c = false := by
  simp only [archiveName, Bool.and_eq_true, Bool.not_eq_true', List.any_eq_false] at h
  exact Bool.eq_false_iff.mpr (h.1.2 c hc)

theorem relative_of_archiveName (h : archiveName name = true) : name.toList.head? ≠ some '/' := by
  simp only [archiveName, Bool.and_eq_true, Bool.not_eq_true', Bool.or_eq_false_iff,
    beq_eq_false_iff_ne] at h
  exact h.1.1.2

/-- Through directories the walk comes to the path itself. -/
theorem walk_reaches {path here : List Char} {parts : List (List Char)}
    (hdirs : ∀ ancestor rest, path = ancestor ++ '/' :: rest →
      ∃ entry, before.lookup (String.ofList ancestor) = some entry ∧ sIsdir entry.mode = true)
    (hparts : ∀ c ∈ parts, strays c = false) (hne : parts ≠ [])
    (hpath : path = here ++ ['/'].intercalate parts) : walk before here parts = .reaches path := by
  induction parts generalizing here with
  | nil => exact absurd rfl hne
  | cons c parts ih =>
    have hc : ¬ strays c = true := Bool.eq_false_iff.mp (hparts c List.mem_cons_self)
    cases parts with
    | nil =>
      rw [walk, if_neg hc, hpath, List.intercalate_singleton]
    | cons c' rest =>
      rw [List.intercalate_cons_cons] at hpath
      obtain ⟨entry, hlookup, hdir⟩ :=
        hdirs (here ++ c) (['/'].intercalate (c' :: rest)) (by simpa using hpath)
      rw [walk, if_neg hc, hlookup]
      dsimp only
      rw [if_pos hdir]
      apply ih (fun d hd => hparts d (List.mem_cons_of_mem _ hd)) (List.cons_ne_nil _ _)
      simpa using hpath

/-- An ancestor has fewer slashes. -/
theorem entryLe_ancestor {ancestor rest : List Char} {dir : ArchiveEntry}
    (h : name.toList = ancestor ++ '/' :: rest) :
    entryLe (name, entry) (String.ofList ancestor, dir) = false := by
  have hcount : (String.ofList ancestor).toList.count '/' < name.toList.count '/' := by
    rw [String.toList_ofList, h, List.count_append, List.count_cons_self]
    omega
  rw [entryLe, Bool.or_eq_false_iff, Bool.and_eq_false_iff]
  exact ⟨decide_eq_false hcount.not_gt, .inl (beq_eq_false_iff_ne.mpr hcount.ne')⟩

/-- In the order of `encode_newc` each record of a tree is safe. -/
theorem safeRecords_of_sorted (hnames : ∀ p ∈ records, archiveName p.1 = true)
    (hdistinct : (records.map (·.1)).Nodup)
    (hsorted : records.Pairwise fun a b => entryLe a b = true)
    (htree : validateTree records = true) : SafeRecords records := by
  intro before name entry after hsplit
  have hmem : (name, entry) ∈ records := by
    rw [hsplit]
    exact List.mem_append_right _ List.mem_cons_self
  have hname := hnames _ hmem
  have hdirs := (validateTree_iff hdistinct).mp htree (name, entry) hmem
  rw [hsplit, List.map_append, List.map_cons, List.nodup_append] at hdistinct
  have hancestors (ancestor rest : List Char) (h : name.toList = ancestor ++ '/' :: rest) :
      ∃ dir, (String.ofList ancestor, dir) ∈ before ∧ sIsdir dir.mode = true := by
    obtain ⟨dir, hdir, hisdir⟩ := hdirs _ (mem_parents h)
    refine ⟨dir, ?_, hisdir⟩
    rw [hsplit] at hdir hsorted
    obtain hdir | hdir := List.mem_append.mp hdir
    · exact hdir
    -- neither the record itself nor one behind it has fewer slashes
    have hlater : entryLe (name, entry) (String.ofList ancestor, dir) = false :=
      entryLe_ancestor h
    obtain hself | hafter := List.mem_cons.mp hdir
    · rw [hself] at hlater
      have hrefl := entryLe_total (name, entry) (name, entry)
      rw [Bool.or_self, hlater] at hrefl
      cases hrefl
    · have hle := (List.pairwise_cons.mp (List.pairwise_append.mp hsorted).2.1).1 _ hafter
      rw [hlater] at hle
      cases hle
  refine ⟨hancestors, fun hnew => ?_, relative_of_archiveName hname, fun c hc => ?_, ?_⟩
  · exact hdistinct.2.2 name hnew name List.mem_cons_self rfl
  · have hstrays := components_canonical hname hc
    simp only [strays, Bool.or_eq_false_iff, beq_eq_false_iff_ne] at hstrays
    exact ⟨hstrays.1.1, hstrays.1.2, hstrays.2⟩
  · refine walk_reaches (fun ancestor rest h => ?_) (fun c hc => components_canonical hname hc)
      (List.splitOn_ne_nil _ _) (List.intercalate_splitOn _).symm
    obtain ⟨dir, hdir, hisdir⟩ := hancestors ancestor rest h
    exact ⟨dir, (lookup_eq_some_iff_mem hdistinct.1).mpr hdir, hisdir⟩

end Paths

/-! ## Emitted archives -/

/-- What `encode_newc` writes: a record for each entry, and the trailer. -/
theorem encodeNewc_records {entries : Archive} {limit : Int} {r : Bytes}
    (h : encodeNewc entries limit = some r) : validateTree entries = true ∧
      r = newcRecords 1 (entries.mergeSort entryLe ++ [trailerEntry]) := by
  have hstart : 4 ∣ ([] : Bytes).length := Nat.dvd_zero 4
  have htree := validateTree_of_encodeNewc h
  rw [encodeNewc, if_pos htree, encodeRounds_eq_some hstart, List.nil_append] at h
  exact ⟨htree, h.2.1⟩

theorem safeRecords_of_encodeNewc {entries : Archive} {limit : Int} {r : Bytes}
    (hnames : ∀ p ∈ entries, archiveName p.1 = true) (hdistinct : (entries.map (·.1)).Nodup)
    (h : encodeNewc entries limit = some r) : ∃ records : Archive, records.Perm entries ∧
      r = newcRecords 1 (records ++ [trailerEntry]) ∧ SafeRecords records := by
  obtain ⟨htree, hr⟩ := encodeNewc_records h
  have hperm := List.mergeSort_perm entries entryLe
  have hdistinct' : ((entries.mergeSort entryLe).map (·.1)).Nodup :=
    (hperm.map _).nodup_iff.mpr hdistinct
  exact ⟨entries.mergeSort entryLe, hperm, hr, safeRecords_of_sorted
    (fun p hp => hnames p (hperm.mem_iff.mp hp)) hdistinct' (sorted_mergeSort _)
      (validateTree_perm hdistinct hperm htree)⟩

/-- No path in an emitted archive resolves through a non-directory. Of every dictionary of canonical
names, `encode_newc` writes a record for each entry in an order in which every record is safe; and
so of every base with an overlay in it that `assemble` emits. -/
theorem emitted_archives_safe :
    (∀ (entries : Archive) (limit : Int) (r : Bytes), (∀ p ∈ entries, archiveName p.1 = true) →
      (entries.map (·.1)).Nodup → encodeNewc entries limit = some r →
        ∃ records : Archive, records.Perm entries ∧
          r = newcRecords 1 (records ++ [trailerEntry]) ∧ SafeRecords records) ∧
    ∀ (lib : Libraries) (args : AssembleArgs) (files : String → Option Bytes)
      (root : Option OverlayTree) (out : Generation), assemble lib args files root = some out →
        ∃ (base : VerifiedBase) (overlay records : Archive),
          verifiedBase lib args files = some base ∧
          overlayEntries root args.expandedLimit = some overlay ∧
          records.Perm (updateEntries base.entries overlay) ∧
          out.ramdisk = lib.gzip (newcRecords 1 (records ++ [trailerEntry])) ∧
          SafeRecords records := by
  constructor
  · intro entries limit r hnames hdistinct h
    exact safeRecords_of_encodeNewc hnames hdistinct h
  · intro lib args files root out h
    obtain ⟨base, overlay, expanded, hbase, hoverlay, hencode, hramdisk⟩ := assemble_eq_some h
    obtain ⟨tree, -, hentries⟩ := overlayEntries_eq_some hoverlay
    have hmerged := (verifiedBase_readable hbase).toFormed.update hentries.formed
    obtain ⟨records, hperm, rfl, hsafe⟩ := safeRecords_of_encodeNewc
      (fun p hp => (hmerged.formed p hp).canonical) hmerged.names hencode
    exact ⟨base, overlay, records, hbase, hoverlay, hperm, hramdisk, hsafe⟩

end HyperIoVm
