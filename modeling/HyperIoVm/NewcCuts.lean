import HyperIoVm.NewcFormat

/-!
# Where an archive ends

An archive that `encode_newc` writes says where it ends. A cut through any of its records leaves the
loop of `parse_newc` with a record that is not complete, and behind the trailer there may only be
zeros.
-/

namespace HyperIoVm

open Data

/-! ## Cuts -/

section Cuts

variable {inode cut rounds : Nat} {name : String} {entry : ArchiveEntry} {entries rest : Archive}
  {pre : Bytes}

/-- A record that is not complete is not read: the room for its header is missing, or the next
offset lies behind the end. -/
theorem parseRounds_cutRecord (h : 4 ∣ pre.length)
    (hfits : ∀ value ∈ newcValues inode name entry, Fits32 value)
    (hcut : cut < (pre ++ newcRecord inode name entry).length) :
    parseRounds ((pre ++ newcRecord inode name entry).take cut) rounds pre.length
      entries = none := by
  obtain rounds | rounds := rounds
  · rfl
  rw [parseRounds_succ]
  split
  · -- not even a header is left
    rfl
  rename_i hroom
  have hlength : ((pre ++ newcRecord inode name entry).take cut).length = cut := by
    rw [List.length_take, Nat.min_eq_left hcut.le]
  rw [hlength] at hroom
  -- the header is whole, and says how long the record is
  have hlist : (newcHeader (newcValues inode name entry)).length = 110 := length_newcHeader hfits
  have hheader : slice ((pre ++ newcRecord inode name entry).take cut) pre.length
      (pre.length + 110) = newcHeader (newcValues inode name entry) := by
    have hstart : newcRecord inode name entry = newcHeader (newcValues inode name entry) ++
        (encodedName name ++ (List.replicate (padding (newcHeader (newcValues inode name entry) ++
          encodedName name).length) 0 ++ padded entry.contents)) := by
      rw [newcRecord, padded, List.append_assoc, List.append_assoc]
    rw [slice_header, List.drop_take, List.take_take, List.drop_left, hstart, ← hlist,
      Nat.min_eq_left (by omega), List.take_left]
  have hnext : alignUp (alignUp (pre.length + 110 + (writtenHeader name entry).namesize) +
      (writtenHeader name entry).size) = ((pre ++ newcRecord inode name entry).length : Int) :=
    alignUp_newcRecord h hfits
  have hrecord : parseRecord ((pre ++ newcRecord inode name entry).take cut) pre.length = none := by
    rw [parseRecord, hheader, parseHeader_newcHeader hfits, Option.bind_eq_bind, Option.bind_some]
    dsimp only
    split
    · -- the name is cut
      rfl
    rw [hnext, hlength, Option.bind_eq_bind]
    cases utf8Text _ with
    | none => rfl
    | some name' =>
      -- the contents are cut
      have hbehind : ((pre ++ newcRecord inode name entry).length : Int) > cut :=
        Int.ofNat_lt.mpr hcut
      rw [Option.bind_some, if_pos (.inl hbehind)]
  rw [parseRound, hrecord]
  rfl

/-- A cut through a row of records, the last of which is the trailer. -/
theorem parseRounds_cut (h : 4 ∣ pre.length) (hfits : HeadersFit inode (rest ++ [trailerEntry]))
    (hnames : ∀ p ∈ rest, archiveName p.1 = true ∧ p.1 ≠ trailerName)
    (hcut : cut < (pre ++ newcRecords inode (rest ++ [trailerEntry])).length) :
    parseRounds ((pre ++ newcRecords inode (rest ++ [trailerEntry])).take cut) rounds pre.length
      entries = none := by
  induction rest generalizing pre inode entries rounds with
  | nil =>
    rw [List.nil_append, trailerEntry, newcRecords, newcRecords, List.append_nil] at hcut ⊢
    exact parseRounds_cutRecord h hfits.1 hcut
  | cons p rest ih =>
    obtain ⟨name, entry⟩ := p
    obtain ⟨hname, htrailer⟩ := hnames (name, entry) List.mem_cons_self
    rw [List.cons_append, newcRecords, ← List.append_assoc] at hcut ⊢
    obtain hinside | hbehind := Nat.lt_or_ge cut (pre ++ newcRecord inode name entry).length
    · rw [List.take_append_of_le_length hinside.le]
      exact parseRounds_cutRecord h hfits.1 hinside
    -- the record is complete, so the cut goes through the rest
    obtain rounds | rounds := rounds
    · -- no round is left
      rfl
    have hdvd : 4 ∣ (pre ++ newcRecord inode name entry).length := by
      rw [List.length_append]
      exact Nat.dvd_add h dvd_length_newcRecord
    have hrest (rounds : Nat) (entries : Archive) :=
      @ih (inode + 1) rounds entries (pre ++ newcRecord inode name entry) hdvd hfits.2
        (fun p hp => hnames p (List.mem_cons_of_mem _ hp)) hcut
    rw [List.take_append, List.take_of_length_le hbehind] at hrest ⊢
    rw [parseRounds_succ]
    split
    · -- there is no room for the record
      rfl
    cases hround : parseRound _ (pre.length : Int) entries with
    | none => rfl
    | some round =>
      cases round with
      -- a name that is not the trailer's does not end the archive
      | returns result =>
        obtain ⟨header, contents, next, hrecord, -⟩ := parseRound_returns hround
        rw [parseRecord_newcRecord h hfits.1 hname] at hrecord
        exact absurd (Prod.mk.inj (Prod.mk.inj (Option.some_inj.mp hrecord)).2).1 htrailer
      -- it goes on behind the record
      | goesOn next entries' =>
        obtain ⟨header, name', contents, entry', hrecord, -⟩ := parseRound_goesOn hround
        rw [parseRecord_newcRecord h hfits.1 hname] at hrecord
        simp only [Option.some_inj, Prod.mk.injEq] at hrecord
        obtain ⟨-, -, -, rfl⟩ := hrecord
        exact hrest rounds entries'

end Cuts

/-! ## The end of an archive -/

/-- Archives are self-delimiting. What `encode_newc` writes of the entries that were read is
accepted with exactly the bytes behind it that are all zero, and then read as these entries; none of
its strict prefixes is accepted. -/
theorem archives_self_delimiting {x y : Bytes} {entries : Archive} {limit : Int}
    (hx : parseNewc x = some entries) (hy : encodeNewc entries limit = some y) :
    (∀ cut < y.length, parseNewc (y.take cut) = none) ∧
    ∀ z, (parseNewc (y ++ z) ≠ none ↔ ∀ b ∈ z, b = 0) ∧
      ∀ entries', parseNewc (y ++ z) = some entries' → entries'.Perm entries := by
  have hread := parseNewc_readable hx
  have hstart : 4 ∣ ([] : Bytes).length := Nat.dvd_zero 4
  constructor
  · intro cut hcut
    obtain ⟨hnumbers, rfl, -⟩ := (encodeNewc_eq_some hread.writable).mp hy
    refine @parseRounds_cut 1 cut _ [] (entries.mergeSort entryLe) [] hstart
      ((headersFit_sorted hread.writable).mpr hnumbers) (fun p hp => ?_) hcut
    have hentry := hread.readable p ((List.mergeSort_perm entries entryLe).mem_iff.mp hp)
    exact ⟨hentry.canonical, hentry.ne_trailer⟩
  · intro z
    rw [parseNewc_append hread hy]
    split
    next hz =>
      obtain ⟨b, hb, hzero⟩ := List.any_eq_true.mp hz
      refine ⟨iff_of_false (fun h => h rfl) fun hall => ?_, fun entries' h => ?_⟩
      · exact of_decide_eq_true hzero (hall b hb)
      · cases h
    next hz =>
      rw [Bool.not_eq_true, List.any_eq_false] at hz
      refine ⟨iff_of_true (Option.some_ne_none _) fun b hb => ?_, fun entries' h => ?_⟩
      · exact Decidable.not_not.mp fun hne => hz b hb (decide_eq_true hne)
      · obtain rfl := Option.some_inj.mp h
        exact List.mergeSort_perm entries entryLe

theorem archives_self_delimiting_hosts :
    parseNewc (hostsArchive.take 363) = none ∧
      (parseNewc (hostsArchive ++ [0, 0]) ≠ none ↔ ∀ b ∈ ([0, 0] : Bytes), b = 0) := by
  have hread : parseNewc hostsArchive = some hostsEntries := by decide +kernel
  have hwrite : encodeNewc hostsEntries 364 = some hostsArchive := by
    have hsorted : hostsEntries.mergeSort entryLe = hostsEntries :=
      List.mergeSort_of_pairwise (by decide +kernel)
    rw [encodeNewc, hsorted]
    decide +kernel
  obtain ⟨hcuts, hbehind⟩ := archives_self_delimiting hread hwrite
  exact ⟨hcuts 363 (by decide +kernel), (hbehind [0, 0]).1⟩

end HyperIoVm
