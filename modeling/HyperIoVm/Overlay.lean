import HyperIoVm.Assemble
import HyperIoVm.NewcForm

/-!
# The entries of an overlay (`scripts/assemble-io-vm.py`)

`overlay_entries` stores what `os.walk` finds, each path under its name and with what `lstat` and
its contents say of it. What lies below a directory that cannot be listed is not there.
-/

namespace HyperIoVm

open Data

/-! ## Dictionaries -/

section Dictionaries

variable {entries overlay : Archive} {name : String} {entry : ArchiveEntry}

theorem mem_setEntry {p : String × ArchiveEntry} : p ∈ setEntry entries name entry ↔
    p = (name, entry) ∨ p.1 ≠ name ∧ p ∈ entries := by
  rw [setEntry]
  split
  next hsome =>
    obtain ⟨e, he⟩ := Option.isSome_iff_exists.mp hsome
    obtain ⟨before, after, hsplit, -⟩ := List.lookup_eq_some_iff.mp he
    have hmem : (name, e) ∈ entries := by
      rw [hsplit]
      exact List.mem_append_right _ List.mem_cons_self
    rw [List.mem_map]
    constructor
    · intro hp
      obtain ⟨q, hq, rfl⟩ := hp
      by_cases hname : q.1 = name
      · rw [if_pos hname]
        exact .inl rfl
      · rw [if_neg hname]
        exact .inr ⟨hname, hq⟩
    · intro hp
      obtain rfl | ⟨hname, hp⟩ := hp
      · exact ⟨(name, e), hmem, if_pos rfl⟩
      · exact ⟨p, hp, if_neg hname⟩
  next hnone =>
    rw [Bool.not_eq_true, Option.isSome_eq_false_iff, Option.isNone_iff_eq_none] at hnone
    rw [List.mem_append, List.mem_singleton, or_comm]
    refine or_congr_right ⟨fun hp => ⟨fun hname => ?_, hp⟩, fun hp => hp.2⟩
    exact bne_iff_ne.mp (List.lookup_eq_none_iff.mp hnone p hp) hname.symm

theorem nodup_setEntry (h : (entries.map (·.1)).Nodup) :
    ((setEntry entries name entry).map (·.1)).Nodup := by
  rw [setEntry]
  split
  next =>
    have hsame : (entries.map fun p => if p.1 = name then (name, entry) else p).map (·.1) =
        entries.map (·.1) := by
      rw [List.map_map]
      refine List.map_congr_left fun p _ => ?_
      show (if p.1 = name then (name, entry) else p).1 = p.1
      split
      next hname =>
        exact hname.symm
      next => rfl
    rw [hsame]
    exact h
  next hnone =>
    rw [Bool.not_eq_true, Option.isSome_eq_false_iff, Option.isNone_iff_eq_none] at hnone
    rw [List.map_append, List.map_singleton, ← List.concat_eq_append, List.nodup_concat]
    refine ⟨fun hmem => ?_, h⟩
    obtain ⟨p, hp, hname⟩ := List.mem_map.mp hmem
    exact bne_iff_ne.mp (List.lookup_eq_none_iff.mp hnone p hp) hname.symm

theorem length_setEntry_le : (setEntry entries name entry).length ≤ entries.length + 1 := by
  rw [setEntry]
  split
  · rw [List.length_map]
    exact Nat.le_succ _
  · rw [List.length_append, List.length_singleton]

theorem nodup_updateEntries (h : (entries.map (·.1)).Nodup) :
    ((updateEntries entries overlay).map (·.1)).Nodup := by
  induction overlay generalizing entries with
  | nil => exact h
  | cons p overlay ih => exact ih (nodup_setEntry h)

theorem length_updateEntries_le :
    (updateEntries entries overlay).length ≤ entries.length + overlay.length := by
  induction overlay generalizing entries with
  | nil => exact Nat.le_refl _
  | cons p overlay ih =>
    have hset : (setEntry entries p.1 p.2).length ≤ entries.length + 1 := length_setEntry_le
    have hrest : (updateEntries (setEntry entries p.1 p.2) overlay).length ≤ _ := ih
    rw [List.length_cons]
    exact hrest.trans (by omega)

/-- An entry of the update is the overlay's, or the original one where the overlay has none. -/
theorem mem_updateEntries (h : (overlay.map (·.1)).Nodup) {p : String × ArchiveEntry} :
    p ∈ updateEntries entries overlay ↔
      p ∈ overlay ∨ p.1 ∉ overlay.map (·.1) ∧ p ∈ entries := by
  induction overlay generalizing entries with
  | nil => simp [updateEntries]
  | cons q overlay ih =>
    rw [List.map_cons, List.nodup_cons] at h
    show p ∈ updateEntries (setEntry entries q.1 q.2) overlay ↔ _
    rw [ih h.2, mem_setEntry, List.mem_cons, List.map_cons, List.mem_cons, not_or]
    constructor
    · intro hp
      obtain hp | ⟨hnew, rfl | ⟨hname, hp⟩⟩ := hp
      · exact .inl (.inr hp)
      · exact .inl (.inl rfl)
      · exact .inr ⟨⟨hname, hnew⟩, hp⟩
    · intro hp
      obtain (rfl | hp) | ⟨⟨hname, hnew⟩, hp⟩ := hp
      · exact .inr ⟨h.1, .inl rfl⟩
      · exact .inl hp
      · exact .inr ⟨hnew, .inr ⟨hname, hp⟩⟩

/-- Looking a name up in the update. -/
theorem lookup_updateEntries (hentries : (entries.map (·.1)).Nodup)
    (hoverlay : (overlay.map (·.1)).Nodup) (name : String) :
    (updateEntries entries overlay).lookup name =
      (overlay.lookup name).or (entries.lookup name) := by
  have hnames : ((updateEntries entries overlay).map (·.1)).Nodup := nodup_updateEntries hentries
  apply Option.ext
  intro entry
  rw [lookup_eq_some_iff_mem hnames, mem_updateEntries hoverlay]
  cases hlookup : overlay.lookup name with
  | none =>
    have hnew : name ∉ overlay.map (·.1) := by
      intro hmem
      obtain ⟨p, hp, hname⟩ := List.mem_map.mp hmem
      exact bne_iff_ne.mp (List.lookup_eq_none_iff.mp hlookup p hp) hname.symm
    rw [Option.none_or, lookup_eq_some_iff_mem hentries]
    constructor
    · intro hp
      obtain hp | hp := hp
      · exact absurd (List.mem_map_of_mem hp) hnew
      · exact hp.2
    · exact fun hp => .inr ⟨hnew, hp⟩
  | some e =>
    have hmem := (lookup_eq_some_iff_mem hoverlay).mp hlookup
    rw [Option.some_or, Option.some_inj]
    constructor
    · intro hp
      obtain hp | hp := hp
      · rw [← Option.some_inj, ← hlookup, (lookup_eq_some_iff_mem hoverlay).mpr hp]
      · exact absurd (List.mem_map_of_mem hmem) hp.1
    · intro he
      rw [← he]
      exact .inl hmem

/-- Entries in another order map the same names to the same entries. -/
theorem lookup_of_perm {entries' : Archive} (h : (entries.map (·.1)).Nodup)
    (hperm : entries'.Perm entries) (name : String) :
    entries'.lookup name = entries.lookup name := by
  have h' : (entries'.map (·.1)).Nodup := (hperm.map _).nodup_iff.mpr h
  apply Option.ext
  intro entry
  rw [lookup_eq_some_iff_mem h', lookup_eq_some_iff_mem h]
  exact hperm.mem_iff

end Dictionaries

/-- Entries with distinct names, each of which suits its kind. -/
structure FormedEntries (entries : Archive) : Prop where
  formed : ∀ p ∈ entries, EntryFormed p.1 p.2
  names : (entries.map (·.1)).Nodup

theorem ReadableEntries.toFormed {entries : Archive} (h : ReadableEntries entries) :
    FormedEntries entries := ⟨fun p hp => (h.readable p hp).toEntryFormed, h.names⟩

section Merging

variable {entries overlay base merged : Archive} {name : String} {entry : ArchiveEntry}
  {limit : Int}

theorem FormedEntries.update (hbase : FormedEntries base) (hoverlay : FormedEntries overlay) :
    FormedEntries (updateEntries base overlay) := by
  refine ⟨fun p hp => ?_, nodup_updateEntries hbase.names⟩
  obtain hp | ⟨-, hp⟩ := (mem_updateEntries hoverlay.names).mp hp
  · exact hoverlay.formed p hp
  · exact hbase.formed p hp

end Merging

/-! ## The paths -/

/-- The entry that a path of the overlay becomes when there is room for it. -/
def OverlayPath.Becomes (info : OverlayPath) (entry : ArchiveEntry) : Prop :=
  ∃ remaining, overlayEntry info remaining = some entry

/-- A path of the overlay, and the entry that stands for it. -/
structure StoredAs (p : List Bytes × OverlayPath) (e : String × ArchiveEntry) : Prop where
  name : relativeName p.1 = some e.1
  canonical : archiveName e.1 = true
  becomes : p.2.Becomes e.2

section Paths

variable {info : OverlayPath} {kind : Nat} {entry entry' : ArchiveEntry} {limit limit' : Int}
  {contents contents' : Bytes} {tree : OverlayTree} {p q : List Bytes × OverlayPath}
  {e e' : String × ArchiveEntry}

theorem boundedRead_eq_some {file : Option Bytes} : boundedRead file limit = some contents ↔
    file = some contents ∧ (contents.length : Int) ≤ limit := by
  rw [boundedRead, Option.filter_eq_some_iff, decide_eq_true_iff]

theorem overlayEntry_eq_some : overlayEntry info limit = some entry ↔
    ∃ mode kind contents, info.mode = some mode ∧ sIfmt mode = some kind ∧
      overlayContents kind info limit = some contents ∧ entry = ⟨mode, 0, 0, 0, 0, contents⟩ := by
  unfold overlayEntry
  simp only [Option.bind_eq_bind, Option.bind_eq_some_iff, Option.some_inj, eq_comm (a := entry)]
  tauto

/-- The contents suit the kind. -/
theorem StoredAs.formed (h : StoredAs p e) (htarget : ∀ mode ∈ p.2.mode,
    sIfmt mode = some sIflnk → ∀ target ∈ p.2.data, target ≠ [] ∧ 0 ∉ target) :
    EntryFormed e.1 e.2 := by
  obtain ⟨limit, hentry⟩ := h.becomes
  obtain ⟨mode, kind, contents, hmode, hkind, hcontents, heq⟩ := overlayEntry_eq_some.mp hentry
  refine ⟨h.canonical, kind, by rw [heq]; exact hkind, ?_⟩
  rw [heq]
  unfold overlayContents at hcontents
  split at hcontents
  next hreg =>
    subst hreg
    exact ⟨by decide, fun hother => absurd (by decide) hother, fun hlnk => absurd hlnk (by decide)⟩
  next =>
    split at hcontents
    next hlnk =>
      subst hlnk
      have hdata := (Option.filter_eq_some_iff.mp hcontents).1
      exact ⟨by decide, fun hother => absurd (by decide) hother,
        fun _ => htarget mode hmode hkind contents hdata⟩
    next =>
      split at hcontents
      next hdir =>
        subst hdir
        obtain rfl := Option.some_inj.mp hcontents
        exact ⟨by decide, fun _ => rfl, fun hlnk => absurd hlnk (by decide)⟩
      next => cases hcontents

/-- The names of the directories on the way are told apart by the slashes between them. -/
theorem relativeName_injective {path path' : List Bytes} {name : String}
    (hne : path ≠ []) (hne' : path' ≠ []) (hslash : ∀ part ∈ path, 0x2f ∉ part)
    (hslash' : ∀ part ∈ path', 0x2f ∉ part) (h : relativeName path = some name)
    (h' : relativeName path' = some name) : path = path' := by
  have hbytes := (utf8Bytes_of_utf8Text h).symm.trans (utf8Bytes_of_utf8Text h')
  rw [← List.splitOn_intercalate 0x2f hslash hne, hbytes,
    List.splitOn_intercalate 0x2f hslash' hne']

/-- What the walk comes to and what it leaves out is all there is. -/
theorem OverlayTree.perm_paths (tree : OverlayTree) :
    tree.paths.Perm (tree.visited ++ tree.hidden) := by
  unfold paths visited walk hidden
  cases tree.listable with
  | false => exact List.Perm.refl _
  | true =>
    have hsorted (names : List (Bytes × OverlayPath)) :
        names.Perm (names.insertionSort fun a b => a.1 ≤ b.1) :=
      (List.perm_insertionSort _ names).symm
    refine FileTree.perm_paths.trans (List.Perm.append_right _ ?_)
    exact ((hsorted _).map _).append (List.Perm.flatMap_left _ fun p _ => (hsorted p.2).map _)

theorem OverlayTree.mem_paths : p ∈ tree.paths ↔ p ∈ tree.visited ∨ p ∈ tree.hidden := by
  rw [tree.perm_paths.mem_iff, List.mem_append]

theorem OverlayTree.path_ne_nil (hp : p ∈ tree.paths) : p.1 ≠ [] := by
  obtain ⟨name, -, hprefixed⟩ := FileTree.exists_prefix_of_mem_paths hp
  intro hnil
  rw [hnil, List.prefix_nil] at hprefixed
  exact List.cons_ne_nil _ _ hprefixed

/-- Different paths have different names. -/
theorem OverlayTree.path_eq_of_name (hp : p ∈ tree.paths) (hq : q ∈ tree.paths)
    {name : String} (h : relativeName p.1 = some name) (h' : relativeName q.1 = some name) :
    p.1 = q.1 :=
  relativeName_injective (path_ne_nil hp) (path_ne_nil hq) (tree.names p hp) (tree.names q hq) h h'

theorem OverlayTree.nodup_paths (tree : OverlayTree) :
    ((tree.visited ++ tree.hidden).map (·.1)).Nodup :=
  (tree.perm_paths.map _).nodup_iff.mp (FileTree.nodup_paths tree.formed)

end Paths

/-! ## The loop -/

section Rounds

variable {remaining limit : Int} {entries stored overlay : Archive}
  {paths : List (List Bytes × OverlayPath)} {root : Option OverlayTree}

/-- A round stores an entry. -/
theorem overlayRounds_cons {path : List Bytes} {info : OverlayPath}
    (h : overlayRounds remaining entries ((path, info) :: paths) = some overlay) :
    ∃ e remaining', StoredAs (path, info) e ∧ entries.length < maxEntries ∧
      overlayRounds remaining' (setEntry entries e.1 e.2) paths = some overlay := by
  rw [overlayRounds] at h
  obtain ⟨name, hname, h⟩ := Option.bind_eq_some_iff.mp h
  split at h
  next => cases h
  next hcanonical =>
    rw [Bool.not_eq_true, Bool.not_eq_false'] at hcanonical
    obtain ⟨entry, hentry, h⟩ := Option.bind_eq_some_iff.mp h
    dsimp only at h
    split at h
    next => cases h
    next hroom =>
      rw [not_or, ge_iff_le, Nat.not_le] at hroom
      exact ⟨(name, entry), _, ⟨hname, hcanonical, remaining, hentry⟩, hroom.2, h⟩

/-- The loop stores the paths one after the other. -/
theorem overlayRounds_stored (hbound : entries.length ≤ maxEntries)
    (h : overlayRounds remaining entries paths = some overlay) :
    overlay.length ≤ maxEntries ∧
      ∃ stored, List.Forall₂ StoredAs paths stored ∧ overlay = updateEntries entries stored := by
  induction paths generalizing remaining entries with
  | nil =>
    obtain rfl := Option.some_inj.mp h
    exact ⟨hbound, [], .nil, rfl⟩
  | cons p paths ih =>
    obtain ⟨e, remaining', hstored, hroom, h⟩ := overlayRounds_cons h
    obtain ⟨hlength, stored, hall, heq⟩ := ih (length_setEntry_le.trans hroom) h
    exact ⟨hlength, e :: stored, .cons hstored hall, heq⟩

theorem exists_stored (h : List.Forall₂ StoredAs paths stored) {p : List Bytes × OverlayPath}
    (hp : p ∈ paths) : ∃ e ∈ stored, StoredAs p e := by
  induction h with
  | nil => cases hp
  | cons hstored hall ih =>
    obtain rfl | hp := List.mem_cons.mp hp
    · exact ⟨_, List.mem_cons_self, hstored⟩
    · obtain ⟨e, he, hstored⟩ := ih hp
      exact ⟨e, List.mem_cons_of_mem _ he, hstored⟩

theorem exists_path (h : List.Forall₂ StoredAs paths stored) {e : String × ArchiveEntry}
    (he : e ∈ stored) : ∃ p ∈ paths, StoredAs p e := by
  induction h with
  | nil => cases he
  | cons hstored hall ih =>
    obtain rfl | he := List.mem_cons.mp he
    · exact ⟨_, List.mem_cons_self, hstored⟩
    · obtain ⟨p, hp, hstored⟩ := ih he
      exact ⟨p, List.mem_cons_of_mem _ hp, hstored⟩

/-- Different paths are stored under different names. -/
theorem nodup_stored {tree : OverlayTree} (hpaths : ∀ p ∈ paths, p ∈ tree.paths)
    (hnodup : (paths.map (·.1)).Nodup) (h : List.Forall₂ StoredAs paths stored) :
    (stored.map (·.1)).Nodup := by
  induction h with
  | nil => exact List.nodup_nil
  | @cons p e paths stored hstored hall ih =>
    rw [List.map_cons, List.nodup_cons] at hnodup ⊢
    refine ⟨fun hmem => ?_, ih (fun q hq => hpaths q (List.mem_cons_of_mem _ hq)) hnodup.2⟩
    obtain ⟨e', he', hname⟩ := List.mem_map.mp hmem
    obtain ⟨q, hq, hstored'⟩ := exists_path hall he'
    refine hnodup.1 (List.mem_map.mpr ⟨q, hq, ?_⟩)
    exact OverlayTree.path_eq_of_name (hpaths q (List.mem_cons_of_mem _ hq))
      (hpaths p List.mem_cons_self) hstored'.name (hname ▸ hstored.name)

/-- The entries of an overlay: one for each path that the walk comes to, and no other. -/
structure OverlayEntries (tree : OverlayTree) (overlay : Archive) : Prop where
  bound : overlay.length ≤ maxEntries
  names : (overlay.map (·.1)).Nodup
  stored : ∀ p ∈ tree.visited, ∃ e ∈ overlay, StoredAs p e
  visited : ∀ e ∈ overlay, ∃ p ∈ tree.visited, StoredAs p e

theorem overlayEntries_eq_some (h : overlayEntries root limit = some overlay) :
    ∃ tree, root = some tree ∧ OverlayEntries tree overlay := by
  obtain ⟨tree, rfl, h⟩ := Option.bind_eq_some_iff.mp h
  obtain ⟨hbound, stored, hall, rfl⟩ := overlayRounds_stored (Nat.zero_le _) h
  have hpaths := tree.nodup_paths
  rw [List.map_append, List.nodup_append] at hpaths
  have hnames := nodup_stored (fun p hp => OverlayTree.mem_paths.mpr (.inl hp)) hpaths.1 hall
  have hmem (e : String × ArchiveEntry) : e ∈ updateEntries [] stored ↔ e ∈ stored := by
    rw [mem_updateEntries hnames]
    exact or_iff_left fun he => absurd he.2 List.not_mem_nil
  refine ⟨tree, rfl, hbound, nodup_updateEntries List.nodup_nil, fun p hp => ?_, fun e he => ?_⟩
  · obtain ⟨e, he, hstored⟩ := exists_stored hall hp
    exact ⟨e, (hmem e).mpr he, hstored⟩
  · exact exists_path hall ((hmem e).mp he)

/-- The entries of an overlay suit their kinds. -/
theorem OverlayEntries.formed {tree : OverlayTree} (h : OverlayEntries tree overlay) :
    FormedEntries overlay := by
  refine ⟨fun e he => ?_, h.names⟩
  obtain ⟨p, hp, hstored⟩ := h.visited e he
  exact hstored.formed (tree.targets p (OverlayTree.mem_paths.mpr (.inl hp)))

/-- What the walk leaves out has no entry. -/
theorem OverlayEntries.lookup_hidden {tree : OverlayTree} (h : OverlayEntries tree overlay)
    {p : List Bytes × OverlayPath} {e : String × ArchiveEntry} (hp : p ∈ tree.hidden)
    (hstored : StoredAs p e) : overlay.lookup e.1 = none := by
  refine List.lookup_eq_none_iff.mpr fun e' he' => bne_iff_ne.mpr fun hname => ?_
  obtain ⟨q, hq, hstored'⟩ := h.visited e' he'
  have hpath := OverlayTree.path_eq_of_name (OverlayTree.mem_paths.mpr (.inl hq))
    (OverlayTree.mem_paths.mpr (.inr hp)) hstored'.name (hname ▸ hstored.name)
  have hpaths := tree.nodup_paths
  rw [List.map_append, List.nodup_append] at hpaths
  exact hpaths.2.2 q.1 (List.mem_map_of_mem hq) p.1 (List.mem_map_of_mem hp) hpath

end Rounds

end HyperIoVm
