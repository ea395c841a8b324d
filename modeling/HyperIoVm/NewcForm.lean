import Mathlib.Data.List.Nodup
import HyperIoVm.Newc

/-!
# The canonical form of an archive

What `encode_newc` writes of a dictionary is a row of records, each padded to a multiple of four on
its own, in an order that only depends on the names. `parse_newc` reads such a row back, so writing
what was read gives a canonical form.
-/

namespace HyperIoVm

open Data

/-! ## Records -/

def padded (bytes : Bytes) : Bytes := bytes ++ List.replicate (padding bytes.length) 0

/-- The bytes of one entry. -/
def newcRecord (inode : Nat) (name : String) (entry : ArchiveEntry) : Bytes :=
  padded (newcHeader (newcValues inode name entry) ++ encodedName name) ++ padded entry.contents

/-- The bytes of the entries, numbered from `inode`. -/
def newcRecords : (inode : Nat) → Archive → Bytes
  | _, [] => []
  | inode, (name, entry) :: rest => newcRecord inode name entry ++ newcRecords (inode + 1) rest

def Fits32 (value : Int) : Prop := 0 ≤ value ∧ value ≤ 0xFFFFFFFF

instance (value : Int) : Decidable (Fits32 value) :=
  inferInstanceAs (Decidable (0 ≤ value ∧ value ≤ 0xFFFFFFFF))

/-- The fields of the headers fit. -/
def HeadersFit : (inode : Nat) → Archive → Prop
  | _, [] => True
  | inode, (name, entry) :: rest =>
    (∀ value ∈ newcValues inode name entry, Fits32 value) ∧ HeadersFit (inode + 1) rest

section Records

variable {inode : Nat} {name : String} {entry : ArchiveEntry} {values : List Int}

theorem length_padded (bytes : Bytes) :
    (padded bytes).length = bytes.length + padding bytes.length := by
  rw [padded, List.length_append, List.length_replicate]

theorem dvd_length_padded (bytes : Bytes) : 4 ∣ (padded bytes).length := by
  rw [length_padded]
  exact dvd_add_padding _

/-- Behind an aligned part, bytes are padded as they are on their own. -/
theorem appendPadded_eq {result : Bytes} (h : 4 ∣ result.length) (bytes : Bytes) :
    appendPadded result bytes = result ++ padded bytes := by
  rw [appendPadded, padded, List.length_append, padding_add h, List.append_assoc]

theorem dvd_length_newcRecord : 4 ∣ (newcRecord inode name entry).length := by
  rw [newcRecord, List.length_append]
  exact Nat.dvd_add (dvd_length_padded _) (dvd_length_padded _)

theorem length_newcMagic : newcMagic.length = 6 := by decide +kernel

theorem length_asciiBytes (text : List Char) : (asciiBytes text).length = text.length :=
  List.length_map _

/-- A field that fits is written with eight digits. -/
theorem length_field {value : Int} (h : Fits32 value) :
    (newcField value).length = 8 := by
  have hvalue : value.toNat < 16 ^ 8 := by
    have hle := h.2
    omega
  rw [newcField, length_asciiBytes, length_hexPadded (by decide) hvalue]

theorem length_fields (h : ∀ value ∈ values, Fits32 value) :
    (values.flatMap newcField).length = 8 * values.length := by
  induction values with
  | nil => rfl
  | cons value values ih =>
    rw [List.flatMap_cons, List.length_append, length_field (h value List.mem_cons_self),
      ih fun v hv => h v (List.mem_cons_of_mem _ hv), List.length_cons]
    omega

theorem length_newcHeader (h : ∀ value ∈ values, Fits32 value) :
    (newcHeader values).length = 6 + 8 * values.length := by
  rw [newcHeader, List.length_append, length_newcMagic, length_fields h]

/-- A field is read back from its place. -/
theorem intBase16_field (h : ∀ value ∈ values, Fits32 value) {i : Nat} (hi : i < values.length) :
    intBase16 (asciiText (slice (newcHeader values) (6 + 8 * i : Nat) (6 + 8 * i + 8 : Nat))) =
      some values[i] := by
  have hvalue := h _ (List.getElem_mem hi)
  have hsplit : newcHeader values = (newcMagic ++ (values.take i).flatMap newcField) ++
      (newcField values[i] ++ (values.drop (i + 1)).flatMap newcField) := by
    rw [newcHeader, List.append_assoc, ← List.flatMap_cons, ← List.drop_eq_getElem_cons hi,
      ← List.flatMap_append, List.take_append_drop]
  have hlength : (newcMagic ++ (values.take i).flatMap newcField).length = 6 + 8 * i := by
    rw [List.length_append, length_newcMagic,
      length_fields fun v hv => h v (List.mem_of_mem_take hv), List.length_take,
      Nat.min_eq_left hi.le]
  rw [hsplit, slice_append _ _ _ (by rw [hlength]) (by rw [hlength, length_field hvalue]),
    newcField, asciiText_asciiBytes, intBase16_hexPadded, Int.toNat_of_nonneg hvalue.1]
  intro c hc
  obtain ⟨d, hd, rfl⟩ := mem_hexPadded hc
  exact (digitChar_spec hd).2.2.2.1

theorem mapM_eq_some_map {α β : Type} {f : α → Option β} {g : α → β} {xs : List α}
    (h : ∀ x ∈ xs, f x = some (g x)) : xs.mapM f = some (xs.map g) := by
  induction xs with
  | nil => rfl
  | cons x xs ih =>
    rw [List.mapM_cons, h x List.mem_cons_self, ih fun y hy => h y (List.mem_cons_of_mem _ hy)]
    rfl

/-- The header of an entry, as it is read. -/
def writtenHeader (name : String) (entry : ArchiveEntry) : NewcHeader where
  mode := entry.mode
  uid := entry.uid
  gid := entry.gid
  links := 1
  size := entry.contents.length
  major := entry.major
  minor := entry.minor
  namesize := (encodedName name).length
  check := 0

/-- A header is read back. -/
theorem parseHeader_newcHeader (h : ∀ value ∈ newcValues inode name entry, Fits32 value) :
    parseHeader (newcHeader (newcValues inode name entry)) = some (writtenHeader name entry) := by
  have hmagic : (newcHeader (newcValues inode name entry)).take 6 = newcMagic := by
    rw [newcHeader, ← length_newcMagic, List.take_left]
  have hfields : (List.range 13).mapM (fun i =>
      intBase16 (asciiText (slice (newcHeader (newcValues inode name entry))
        (6 + 8 * i : Nat) (6 + 8 * i + 8 : Nat)))) = some (newcValues inode name entry) := by
    rw [mapM_eq_some_map (g := fun i => (newcValues inode name entry).getD i 0)]
    · rfl
    · intro i hi
      have hi : i < (newcValues inode name entry).length := List.mem_range.mp hi
      rw [intBase16_field h hi, List.getD_eq_getElem?_getD, List.getElem?_eq_getElem hi]
      rfl
  rw [parseHeader, if_neg (not_not.mpr hmagic), hfields]
  rfl

/-- The bytes an entry takes. -/
def recordLength (name : String) (entry : ArchiveEntry) : Nat :=
  let header := 110 + (encodedName name).length
  header + padding header + (entry.contents.length + padding entry.contents.length)

theorem length_newcRecord (h : ∀ value ∈ newcValues inode name entry, Fits32 value) :
    (newcRecord inode name entry).length = recordLength name entry := by
  have hheader : (newcHeader (newcValues inode name entry) ++ encodedName name).length =
      110 + (encodedName name).length := by
    rw [List.length_append, length_newcHeader h]
    rfl
  rw [newcRecord, List.length_append, length_padded, length_padded, hheader, recordLength]

end Records

/-! ## Writing -/

section Writing

variable {limit : Int} {inode : Nat} {result r : Bytes} {entries : Archive}

/-- Where the record behind an aligned part ends. -/
theorem alignUp_newcRecord (h : 4 ∣ result.length) {name : String} {entry : ArchiveEntry}
    (hfits : ∀ value ∈ newcValues inode name entry, Fits32 value) :
    alignUp (alignUp (result.length + 110 + (encodedName name).length : Nat) +
      entry.contents.length) = ((result ++ newcRecord inode name entry).length : Int) := by
  have hdvd : 4 ∣ result.length + (110 + (encodedName name).length +
      padding (110 + (encodedName name).length)) := Nat.dvd_add h (dvd_add_padding _)
  rw [List.length_append, length_newcRecord hfits, recordLength, Nat.add_assoc, alignUp_add h,
    ← Int.natCast_add, alignUp_add hdvd, Nat.add_assoc]

/-- A round writes a record when its fields fit and the archive with it is within the limit. -/
theorem encodeRounds_cons (h : 4 ∣ result.length) {name : String} {entry : ArchiveEntry} :
    encodeRounds limit inode result ((name, entry) :: entries) = some r ↔
      (∀ value ∈ newcValues inode name entry, Fits32 value) ∧
      ((result ++ newcRecord inode name entry).length : Int) ≤ limit ∧
      encodeRounds limit (inode + 1) (result ++ newcRecord inode name entry) entries = some r := by
  -- padding twice, as the loop does it, is one record
  have hresult : appendPadded (appendPadded result (newcHeader (newcValues inode name entry) ++
      encodedName name)) entry.contents = result ++ newcRecord inode name entry := by
    have hdvd : 4 ∣ (result ++ padded (newcHeader (newcValues inode name entry) ++
        encodedName name)).length := by
      rw [List.length_append]
      exact Nat.dvd_add h (dvd_length_padded _)
    rw [appendPadded_eq h, appendPadded_eq hdvd, newcRecord, List.append_assoc]
  -- no field is negative, and none exceeds 32 bits
  have hfits : (newcValues inode name entry).any (fun value => value < 0 || value > 0xFFFFFFFF) =
      false ↔ ∀ value ∈ newcValues inode name entry, Fits32 value := by
    rw [List.any_eq_false]
    refine forall₂_congr fun value _ => ?_
    simp only [Bool.or_eq_true, decide_eq_true_eq, not_or, Fits32]
    omega
  rw [encodeRounds]
  dsimp only
  rw [hresult]
  constructor
  · intro hencode
    split at hencode
    next => cases hencode
    next hok =>
      rw [not_or, Bool.not_eq_true, hfits] at hok
      rw [alignUp_newcRecord h hok.1] at hok
      exact ⟨hok.1, Int.not_lt.mp hok.2, hencode⟩
  · intro hencode
    obtain ⟨hvalues, hlimit, hencode⟩ := hencode
    rw [if_neg]
    · exact hencode
    · rw [not_or, Bool.not_eq_true, hfits, alignUp_newcRecord h hvalues]
      exact ⟨hvalues, Int.not_lt.mpr hlimit⟩

/-- What is written is the row of the records, when it is within the limit. -/
theorem encodeRounds_eq_some (h : 4 ∣ result.length) :
    encodeRounds limit inode result entries = some r ↔
      HeadersFit inode entries ∧ r = result ++ newcRecords inode entries ∧
        (entries = [] ∨ (r.length : Int) ≤ limit) := by
  induction entries generalizing inode result with
  | nil =>
    rw [encodeRounds, Option.some_inj, newcRecords, List.append_nil]
    exact ⟨fun hr => ⟨trivial, hr.symm, .inl rfl⟩, fun hr => hr.2.1.symm⟩
  | cons p entries ih =>
    obtain ⟨name, entry⟩ := p
    have hdvd : 4 ∣ (result ++ newcRecord inode name entry).length := by
      rw [List.length_append]
      exact Nat.dvd_add h dvd_length_newcRecord
    rw [encodeRounds_cons h, ih hdvd, newcRecords, ← List.append_assoc, HeadersFit, and_assoc]
    refine and_congr_right fun _ => ?_
    constructor
    · intro hr
      obtain ⟨hlimit, hfit, hr, hend⟩ := hr
      refine ⟨hfit, hr, .inr ?_⟩
      obtain rfl | hend := hend
      · rw [hr, newcRecords, List.append_nil]
        exact hlimit
      · exact hend
    · intro hr
      obtain ⟨hfit, hr, hend⟩ := hr
      have hend := hend.resolve_left (List.cons_ne_nil _ _)
      refine ⟨?_, hfit, hr, .inr hend⟩
      refine Int.le_trans ?_ hend
      have hlength := congrArg List.length hr
      rw [List.length_append] at hlength
      omega

end Writing

/-! ## Reading -/

/-- A canonical path, and contents that suit the kind of the entry. -/
structure EntryFormed (name : String) (entry : ArchiveEntry) : Prop where
  canonical : archiveName name = true
  kind : ∃ kind, sIfmt entry.mode = some kind ∧ kind ∈ kinds ∧
    (kind ∉ [sIfreg, sIflnk] → entry.contents = []) ∧
      (kind = sIflnk → entry.contents ≠ [] ∧ 0 ∉ entry.contents)

/-- What `parse_newc` demands of an entry. -/
structure EntryReadable (name : String) (entry : ArchiveEntry) : Prop extends
    EntryFormed name entry where
  ne_trailer : name ≠ trailerName

/-- What `parse_newc` demands of the entries it has read. -/
structure ReadableEntries (entries : Archive) : Prop where
  readable : ∀ p ∈ entries, EntryReadable p.1 p.2
  names : (entries.map (·.1)).Nodup
  bound : entries.length ≤ maxEntries

/-- What `parse_newc` demands of an archive. -/
structure ReadableArchive (entries : Archive) : Prop extends ReadableEntries entries where
  tree : validateTree entries = true

section Reading

variable {inode : Nat} {name : String} {entry : ArchiveEntry} {entries rest : Archive}
  {pre post : Bytes}

/-- A canonical path has a place in a header. -/
theorem encodedName_of_archiveName (h : archiveName name = true) :
    (encodedName name).length ≤ 4096 ∧ (encodedName name).getLast? = some 0 ∧
      (encodedName name).dropLast = utf8Bytes name ∧ 0 ∉ utf8Bytes name := by
  simp only [archiveName, Bool.and_eq_true, Bool.not_eq_true', Bool.or_eq_false_iff,
    decide_eq_true_eq] at h
  obtain ⟨⟨⟨⟨-, hnul⟩, -⟩, -⟩, hlength⟩ := h
  refine ⟨?_, List.getLast?_concat, List.dropLast_concat, fun hzero => ?_⟩
  · rw [encodedName, List.length_append, List.length_singleton]
    omega
  · rw [List.contains_eq_mem, decide_eq_false_iff_not] at hnul
    exact hnul (nul_mem_of_zero_mem hzero)

/-- A record is read back. -/
theorem parseRecord_newcRecord (h : 4 ∣ pre.length)
    (hfits : ∀ value ∈ newcValues inode name entry, Fits32 value)
    (hname : archiveName name = true) :
    parseRecord (pre ++ newcRecord inode name entry ++ post) pre.length =
      some (writtenHeader name entry, name, entry.contents,
        ((pre ++ newcRecord inode name entry).length : Int)) := by
  obtain ⟨hsize, hlast, hinit, hzero⟩ := encodedName_of_archiveName hname
  have hparse := parseHeader_newcHeader hfits
  have hlength := length_newcRecord hfits
  have hheader : (newcHeader (newcValues inode name entry)).length = 110 := length_newcHeader hfits
  rw [newcRecord] at *
  generalize newcHeader (newcValues inode name entry) = header at hparse hlength hheader ⊢
  -- the record is header, name, padding, contents, padding
  have hfront : (padded (header ++ encodedName name)).length = 110 + (encodedName name).length +
      padding (110 + (encodedName name).length) := by
    rw [length_padded, List.length_append, hheader]
  rw [List.length_append, length_padded entry.contents] at hlength
  have hdata : pre ++ (padded (header ++ encodedName name) ++ padded entry.contents) ++ post =
      pre ++ (header ++ (encodedName name ++ (List.replicate (padding (header ++
        encodedName name).length) 0 ++ (padded entry.contents ++ post)))) := by
    simp only [padded, List.append_assoc]
  have hslice : slice (pre ++ (padded (header ++ encodedName name) ++ padded entry.contents) ++
      post) pre.length (pre.length + 110) = header := by
    rw [hdata, slice_append _ _ _ rfl (by rw [hheader]; rfl)]
  have hnameSlice : slice (pre ++ (padded (header ++ encodedName name) ++ padded entry.contents) ++
      post) (pre.length + 110) (pre.length + 110 + (encodedName name).length) =
        encodedName name := by
    rw [hdata, ← List.append_assoc pre, slice_append _ _ _ (by simp [hheader]) (by simp [hheader])]
  -- the payload begins behind the padded name
  have hpayload : alignUp (pre.length + 110 + (encodedName name).length) =
      ((pre ++ padded (header ++ encodedName name)).length : Nat) := by
    have hstop := alignUp_add h (110 + (encodedName name).length)
    rw [List.length_append, hfront, ← hstop]
    congr 1
    omega
  have hcontents : slice (pre ++ (padded (header ++ encodedName name) ++ padded entry.contents) ++
      post) ((pre ++ padded (header ++ encodedName name)).length : Nat)
        (((pre ++ padded (header ++ encodedName name)).length : Nat) + entry.contents.length) =
          entry.contents := by
    have hsplit : pre ++ (padded (header ++ encodedName name) ++ padded entry.contents) ++ post =
        (pre ++ padded (header ++ encodedName name)) ++ (entry.contents ++
          (List.replicate (padding entry.contents.length) 0 ++ post)) := by
      simp only [padded, List.append_assoc]
    rw [hsplit, slice_append _ _ _ rfl (Int.natCast_add _ _).symm]
  -- the next record begins behind the padded contents
  have hnext : alignUp (((pre ++ padded (header ++ encodedName name)).length : Nat) +
      entry.contents.length) = ((pre ++ (padded (header ++ encodedName name) ++
        padded entry.contents)).length : Nat) := by
    have hdvd : 4 ∣ (pre ++ padded (header ++ encodedName name)).length := by
      rw [List.length_append]
      exact Nat.dvd_add h (dvd_length_padded _)
    rw [← Int.natCast_add, alignUp_add hdvd, ← length_padded, ← List.append_assoc,
      ← List.length_append]
  have hfields : (writtenHeader name entry).namesize = (encodedName name).length ∧
      (writtenHeader name entry).size = entry.contents.length ∧
        (writtenHeader name entry).check = 0 := ⟨rfl, rfl, rfl⟩
  simp only [parseRecord, Option.bind_eq_bind, hslice, hparse, Option.bind_some, hfields,
    hnameSlice, hinit, utf8Text_utf8Bytes, hpayload, hcontents, hnext]
  -- the size of the name, its terminator, and room for all of it
  rw [if_neg, if_neg]
  · simp only [List.length_append, not_or, ne_eq, not_true, not_false_iff, and_true]
    omega
  · have hne : 1 ≤ (encodedName name).length := by simp [encodedName]
    simp only [hlast, not_or, hzero, not_true, not_false_iff, ne_eq, and_true]
    refine ⟨by omega, by omega, ?_⟩
    simp only [List.length_append, length_padded, hheader]
    omega

/-- An entry passes the checks it passed when it was read. -/
theorem parseEntry_writtenHeader (h : EntryReadable name entry) :
    parseEntry (writtenHeader name entry) name entry.contents = some entry := by
  obtain ⟨kind, hkind, hmem, hempty, hlink⟩ := h.kind
  have hmode : sIfmt (writtenHeader name entry).mode = some kind := hkind
  rw [parseEntry, h.canonical, hmode, Option.bind_eq_bind, Option.bind_some, if_neg (by decide),
    if_neg]
  · rfl
  · simp only [not_or, not_and, Decidable.not_not]
    refine ⟨hmem, Int.lt_irrefl 1, fun _ => rfl, fun hother => ?_, fun hlnk => hlink hlnk⟩
    show (entry.contents.length : Int) = 0
    rw [hempty hother]
    rfl

/-- What was read is readable. -/
theorem parseEntry_readable {data : Bytes} {offset next : Int} {header : NewcHeader}
    {contents : Bytes} (hrecord : parseRecord data offset = some (header, name, contents, next))
    (hname : name ≠ trailerName) (h : parseEntry header name contents = some entry) :
    EntryReadable name entry := by
  -- without a payload the slice is empty
  have hcontents : header.size = 0 → contents = [] := by
    simp only [parseRecord, Option.bind_eq_bind, Option.bind_eq_some_iff] at hrecord
    obtain ⟨header', -, hrecord⟩ := hrecord
    split at hrecord
    · cases hrecord
    · obtain ⟨name', -, hrecord⟩ := Option.bind_eq_some_iff.mp hrecord
      split at hrecord
      · cases hrecord
      · obtain ⟨rfl, hrest⟩ := Prod.mk.inj (Option.some_inj.mp hrecord)
        obtain ⟨-, hrest⟩ := Prod.mk.inj hrest
        obtain ⟨rfl, -⟩ := Prod.mk.inj hrest
        intro hsize
        rw [hsize, Int.add_zero, slice_self]
  rw [parseEntry] at h
  split at h
  next => cases h
  next hcanonical =>
    obtain ⟨kind, hkind, h⟩ := Option.bind_eq_some_iff.mp h
    split at h
    next => cases h
    next hok =>
      obtain rfl := Option.some_inj.mp h
      simp only [not_or, not_and, Decidable.not_not] at hok
      obtain ⟨hmem, -, -, hsize, hlink⟩ := hok
      exact ⟨⟨by simpa using hcanonical, kind, hkind, hmem,
        fun hother => hcontents (hsize hother), hlink⟩, hname⟩

theorem record_in_room (hfits : ∀ value ∈ newcValues inode name entry, Fits32 value) :
    ¬ (pre.length : Int) + 110 > (pre ++ newcRecord inode name entry ++ post).length := by
  rw [List.length_append, List.length_append, length_newcRecord hfits, recordLength]
  omega

/-- A row of records is read back, up to the trailer, if there are only zeros behind it. -/
theorem parseRounds_newcRecords (h : 4 ∣ pre.length)
    (hfits : HeadersFit inode (rest ++ [trailerEntry])) (hread : ReadableArchive (entries ++ rest))
    {rounds : Nat} (hrounds : rest.length < rounds) :
    parseRounds (pre ++ newcRecords inode (rest ++ [trailerEntry]) ++ post) rounds pre.length
      entries = if post.any (· ≠ 0) then none else some (entries ++ rest) := by
  induction rest generalizing pre inode entries rounds with
  | nil =>
    -- the trailer ends the archive
    obtain ⟨rounds, rfl⟩ := Nat.exists_eq_add_one_of_ne_zero (Nat.ne_of_gt hrounds)
    have hrecord := @parseRecord_newcRecord inode trailerName ⟨0, 0, 0, 0, 0, []⟩ pre post h hfits.1
      (by decide +kernel)
    have hroom := @record_in_room inode trailerName ⟨0, 0, 0, 0, 0, []⟩ pre post hfits.1
    have htree : validateTree entries = true := by
      rw [← List.append_nil entries]
      exact hread.tree
    rw [List.append_nil, List.nil_append, trailerEntry, newcRecords, newcRecords, List.append_nil,
      parseRounds, if_neg hroom, hrecord, Option.bind_eq_bind, Option.bind_some]
    dsimp only
    rw [if_pos rfl, sliceFrom_append, htree]
    have hsize : (writtenHeader trailerName ⟨0, 0, 0, 0, 0, []⟩).size = 0 := rfl
    simp only [hsize, ne_eq, not_true_eq_false, false_or, Bool.not_true, Bool.false_eq_true,
      or_false]
  | cons p rest ih =>
    obtain ⟨name, entry⟩ := p
    obtain ⟨rounds, rfl⟩ := Nat.exists_eq_add_one_of_ne_zero (Nat.ne_zero_of_lt hrounds)
    have hentry := hread.readable (name, entry) (by simp)
    have hrecord := @parseRecord_newcRecord inode name entry pre
      (newcRecords (inode + 1) (rest ++ [trailerEntry]) ++ post) h hfits.1 hentry.canonical
    have hdvd : 4 ∣ (pre ++ newcRecord inode name entry).length := by
      rw [List.length_append]
      exact Nat.dvd_add h dvd_length_newcRecord
    have hread' : ReadableArchive (entries ++ [(name, entry)] ++ rest) := by
      rw [List.append_assoc]
      exact hread
    have hnext := ih hdvd hfits.2 hread' (Nat.lt_of_succ_lt_succ hrounds)
    -- the name is new: names of an archive are different
    have hlookup : entries.lookup name = none := by
      apply List.lookup_eq_none_iff.mpr
      intro p hp
      rw [bne_iff_ne]
      intro heq
      have hnames := hread.names
      rw [List.map_append, List.nodup_append] at hnames
      exact hnames.2.2 _ (List.mem_map_of_mem hp) name (by simp) heq.symm
    -- there is room for one more entry
    have hbound : ¬ ((entries.lookup name).isSome ∨ entries.length ≥ maxEntries) := by
      have hlength := hread.bound
      rw [List.length_append, List.length_cons] at hlength
      rw [hlookup]
      simp only [Option.isSome_none, Bool.false_eq_true, false_or]
      omega
    have hdata : pre ++ newcRecords inode ((name, entry) :: rest ++ [trailerEntry]) ++ post =
        pre ++ newcRecord inode name entry ++
          (newcRecords (inode + 1) (rest ++ [trailerEntry]) ++ post) := by
      rw [List.cons_append, newcRecords, ← List.append_assoc, List.append_assoc _ _ post]
    rw [hdata, parseRounds, if_neg (record_in_room hfits.1), hrecord, Option.bind_eq_bind,
      Option.bind_some]
    dsimp only
    rw [if_neg hentry.ne_trailer, parseEntry_writtenHeader hentry, Option.bind_eq_bind,
      Option.bind_some, if_neg hbound, ← List.append_assoc, hnext, List.append_assoc]
    rfl

/-- An entry with a new name. -/
theorem ReadableEntries.concat (h : ReadableEntries entries) (hentry : EntryReadable name entry)
    (hlookup : entries.lookup name = none) (hbound : entries.length < maxEntries) :
    ReadableEntries (entries ++ [(name, entry)]) where
  readable p hp := by
    obtain hp | hp := List.mem_append.mp hp
    · exact h.readable p hp
    · rw [List.mem_singleton.mp hp]
      exact hentry
  names := by
    rw [List.map_append, List.map_singleton, ← List.concat_eq_append, List.nodup_concat]
    refine ⟨fun hmem => ?_, h.names⟩
    obtain ⟨p, hp, hname⟩ := List.mem_map.mp hmem
    exact bne_iff_ne.mp (List.lookup_eq_none_iff.mp hlookup p hp) hname.symm
  bound := by
    rw [List.length_append, List.length_singleton]
    exact hbound

theorem parseRounds_readable {data : Bytes} {rounds : Nat} {offset : Int} {result : Archive}
    (hentries : ReadableEntries entries)
    (h : parseRounds data rounds offset entries = some result) : ReadableArchive result := by
  induction rounds generalizing offset entries with
  | zero => cases h
  | succ rounds ih =>
    rw [parseRounds] at h
    split at h
    · cases h
    · obtain ⟨⟨header, name, contents, next⟩, hrecord, h⟩ := Option.bind_eq_some_iff.mp h
      dsimp only at h
      split at h
      next =>
        split at h
        next => cases h
        next hend =>
          obtain rfl := Option.some_inj.mp h
          simp only [not_or, Bool.not_eq_true, Bool.not_eq_false'] at hend
          exact ⟨hentries, hend.2.2⟩
      next hname =>
        obtain ⟨entry, hentry, h⟩ := Option.bind_eq_some_iff.mp h
        split at h
        next => cases h
        next hnew =>
          rw [not_or, Bool.not_eq_true, Option.isSome_eq_false_iff, Option.isNone_iff_eq_none,
            ge_iff_le, Nat.not_le] at hnew
          exact ih (hentries.concat (parseEntry_readable hrecord hname hentry) hnew.1 hnew.2) h

/-- What `parse_newc` accepts is readable. -/
theorem parseNewc_readable {data : Bytes} (h : parseNewc data = some entries) :
    ReadableArchive entries := by
  apply parseRounds_readable _ h
  exact ⟨fun _ hp => absurd hp List.not_mem_nil, List.nodup_nil, Nat.zero_le _⟩

/-- The bound on the rounds is no restriction: further ones are never reached. -/
theorem parseRounds_enough {data : Bytes} {rounds more : Nat} {offset : Int}
    (hbound : entries.length ≤ maxEntries) (h : maxEntries < rounds + entries.length) :
    parseRounds data (rounds + more) offset entries = parseRounds data rounds offset entries := by
  induction rounds generalizing offset entries with
  | zero => omega
  | succ rounds ih =>
    rw [Nat.add_right_comm, parseRounds, parseRounds]
    refine ite_congr rfl (fun _ => rfl) fun _ => ?_
    congr 1
    funext record
    obtain ⟨header, name, contents, next⟩ := record
    refine ite_congr rfl (fun _ => rfl) fun _ => ?_
    congr 1
    funext entry
    refine ite_congr rfl (fun _ => rfl) fun hnew => ?_
    rw [not_or, ge_iff_le, Nat.not_le] at hnew
    apply ih
    · rw [List.length_append, List.length_singleton]
      exact hnew.2
    · rw [List.length_append, List.length_singleton]
      omega

end Reading

/-! ## The order -/

section Order

variable {entries entries' : Archive} {a b c : String × ArchiveEntry}

theorem entryLe_trans (hab : entryLe a b = true) (hbc : entryLe b c = true) :
    entryLe a c = true := by
  simp only [entryLe, Bool.or_eq_true, Bool.and_eq_true, decide_eq_true_eq, beq_iff_eq] at *
  obtain hab | ⟨hab, hab'⟩ := hab
  · obtain hbc | ⟨hbc, -⟩ := hbc
    · exact .inl (hab.trans hbc)
    · exact .inl (hbc ▸ hab)
  · obtain hbc | ⟨hbc, hbc'⟩ := hbc
    · exact .inl (hab ▸ hbc)
    · exact .inr ⟨hab.trans hbc, String.le_trans hab' hbc'⟩

theorem entryLe_total (a b : String × ArchiveEntry) : (entryLe a b || entryLe b a) = true := by
  simp only [entryLe, Bool.or_eq_true, Bool.and_eq_true, decide_eq_true_eq, beq_iff_eq]
  obtain h | h | h := Nat.lt_trichotomy (a.1.toList.count '/') (b.1.toList.count '/')
  · exact .inl (.inl h)
  · obtain hle | hle := String.le_total a.1 b.1
    · exact .inl (.inr ⟨h, hle⟩)
    · exact .inr (.inr ⟨h.symm, hle⟩)
  · exact .inr (.inl h)

theorem entryLe_antisymm (hab : entryLe a b = true) (hba : entryLe b a = true) : a.1 = b.1 := by
  simp only [entryLe, Bool.or_eq_true, Bool.and_eq_true, decide_eq_true_eq, beq_iff_eq] at hab hba
  obtain hab | ⟨hab, hab'⟩ := hab
  · obtain hba | ⟨hba, -⟩ := hba <;> omega
  · obtain hba | ⟨-, hba'⟩ := hba
    · omega
    · exact String.le_antisymm hab' hba'

theorem sorted_mergeSort (entries : Archive) :
    (entries.mergeSort entryLe).Pairwise fun a b => entryLe a b = true := by
  apply List.pairwise_mergeSort
  · intro a b c hab hbc
    exact entryLe_trans hab hbc
  · exact entryLe_total

/-- With distinct names, the order of the entries does not depend on their insertion. -/
theorem mergeSort_eq_of_perm (hnames : (entries.map (·.1)).Nodup) (hperm : entries'.Perm entries) :
    entries'.mergeSort entryLe = entries.mergeSort entryLe := by
  have hperm' : (entries'.mergeSort entryLe).Perm (entries.mergeSort entryLe) :=
    (List.mergeSort_perm _ _).trans (hperm.trans (List.mergeSort_perm _ _).symm)
  apply List.Perm.eq_of_pairwise _ (sorted_mergeSort _) (sorted_mergeSort _) hperm'
  intro a b ha hb hab hba
  have ha := hperm.mem_iff.mp ((List.mergeSort_perm _ _).mem_iff.mp ha)
  have hb := (List.mergeSort_perm _ _).mem_iff.mp hb
  exact List.inj_on_of_nodup_map hnames ha hb (entryLe_antisymm hab hba)

/-- A dictionary maps a name to what is stored under it. -/
theorem lookup_eq_some_iff_mem (hnames : (entries.map (·.1)).Nodup) {name : String}
    {entry : ArchiveEntry} : entries.lookup name = some entry ↔ (name, entry) ∈ entries := by
  induction entries with
  | nil => simp
  | cons p entries ih =>
    rw [List.map_cons, List.nodup_cons] at hnames
    obtain ⟨name', entry'⟩ := p
    rw [List.lookup_cons, List.mem_cons, Prod.mk.injEq]
    by_cases hname : name = name'
    · subst hname
      rw [beq_self_eq_true]
      dsimp only
      constructor
      · intro h
        exact .inl ⟨rfl, (Option.some_inj.mp h).symm⟩
      · intro h
        obtain h | h := h
        · rw [h.2]
        · exact absurd (List.mem_map_of_mem (f := (·.1)) h) hnames.1
    · rw [beq_eq_false_iff_ne.mpr hname]
      dsimp only
      rw [ih hnames.2]
      simp [hname]

/-- Every parent of an entry is a directory of the archive. -/
theorem validateTree_iff (hnames : (entries.map (·.1)).Nodup) : validateTree entries = true ↔
    ∀ p ∈ entries, ∀ parent ∈ parents p.1, ∃ entry, (parent, entry) ∈ entries ∧
      sIsdir entry.mode = true := by
  simp only [validateTree, List.all_eq_true]
  refine forall₂_congr fun p _ => forall₂_congr fun parent _ => ?_
  simp only [← lookup_eq_some_iff_mem hnames]
  cases entries.lookup parent with
  | none => simp
  | some entry => simp

/-- A tree is one in any order. -/
theorem validateTree_perm (hnames : (entries.map (·.1)).Nodup) (hperm : entries'.Perm entries)
    (h : validateTree entries = true) : validateTree entries' = true := by
  apply (validateTree_iff ((hperm.map _).nodup_iff.mpr hnames)).mpr
  intro p hp parent hparent
  obtain ⟨entry, hentry, hdir⟩ :=
    (validateTree_iff hnames).mp h p (hperm.mem_iff.mp hp) parent hparent
  exact ⟨entry, hperm.mem_iff.mpr hentry, hdir⟩

/-- A readable archive stays one in any order. -/
theorem ReadableArchive.perm (h : ReadableArchive entries) (hperm : entries'.Perm entries) :
    ReadableArchive entries' := by
  have hnames : (entries'.map (·.1)).Nodup := (hperm.map _).nodup_iff.mpr h.names
  refine ⟨⟨fun p hp => h.readable p (hperm.mem_iff.mp hp), hnames, ?_⟩,
    validateTree_perm h.names hperm h.tree⟩
  rw [hperm.length_eq]
  exact h.bound

end Order

/-! ## The canonical form -/

/-- The numbers of an entry fit the fields of a header. -/
def ArchiveEntry.NumbersFit (entry : ArchiveEntry) : Prop :=
  ∀ value ∈ [entry.mode, entry.uid, entry.gid, (entry.contents.length : Int), entry.major,
    entry.minor], Fits32 value

instance (entry : ArchiveEntry) : Decidable entry.NumbersFit :=
  inferInstanceAs (Decidable (∀ value ∈ [entry.mode, entry.uid, entry.gid,
    (entry.contents.length : Int), entry.major, entry.minor], Fits32 value))

/-- The bytes of the complete archive, with its padding and its trailer. -/
def archiveLength (entries : Archive) : Nat :=
  ((entries ++ [trailerEntry]).map fun p => recordLength p.1 p.2).sum

/-- What writing relies on: canonical paths, few enough of them, and a directory for each parent. -/
structure WritableArchive (entries : Archive) : Prop where
  canonical : ∀ p ∈ entries, archiveName p.1 = true
  bound : entries.length ≤ 2 * maxEntries
  tree : validateTree entries = true

theorem ReadableArchive.writable {entries : Archive} (h : ReadableArchive entries) :
    WritableArchive entries where
  canonical p hp := (h.readable p hp).canonical
  bound := h.bound.trans (Nat.le_mul_of_pos_left _ (by decide))
  tree := h.tree

section Form

variable {limit : Int} {entries entries' : Archive} {r : Bytes}

/-- The headers fit when the numbers of the entries do: the numbers of the entries, and the lengths
of their names, are small. -/
theorem headersFit_iff {inode : Nat} (hinode : inode + entries.length ≤ 0xFFFFFFFF)
    (hnames : ∀ p ∈ entries, (encodedName p.1).length ≤ 4096) :
    HeadersFit inode entries ↔ ∀ p ∈ entries, p.2.NumbersFit := by
  induction entries generalizing inode with
  | nil => exact iff_of_true trivial fun _ hp => absurd hp List.not_mem_nil
  | cons p entries ih =>
    obtain ⟨name, entry⟩ := p
    rw [List.length_cons] at hinode
    rw [HeadersFit, List.forall_mem_cons,
      ih (by omega) fun p hp => hnames p (List.mem_cons_of_mem _ hp)]
    refine and_congr_left fun _ => ?_
    have hname : (encodedName name).length ≤ 4096 := hnames _ List.mem_cons_self
    simp only [newcValues, ArchiveEntry.NumbersFit, List.mem_cons, List.not_mem_nil, or_false,
      forall_eq_or_imp, forall_eq]
    have hsmall : Fits32 inode ∧ Fits32 1 ∧ Fits32 0 ∧ Fits32 (encodedName name).length := by
      simp only [Fits32]
      omega
    tauto

/-- The entries in their order, with the trailer, as they are written. -/
theorem headersFit_sorted (h : WritableArchive entries) :
    HeadersFit 1 (entries.mergeSort entryLe ++ [trailerEntry]) ↔
      ∀ p ∈ entries, p.2.NumbersFit := by
  have hmem (p : String × ArchiveEntry) : p ∈ entries.mergeSort entryLe ↔ p ∈ entries :=
    (List.mergeSort_perm _ _).mem_iff
  rw [headersFit_iff]
  · constructor
    · intro hfit p hp
      exact hfit p (List.mem_append_left _ ((hmem p).mpr hp))
    · intro hfit p hp
      obtain hp | hp := List.mem_append.mp hp
      · exact hfit p ((hmem p).mp hp)
      · rw [List.mem_singleton.mp hp]
        intro value hvalue
        simp only [trailerEntry, List.mem_cons, List.not_mem_nil, or_false] at hvalue
        obtain rfl | rfl | rfl | rfl | rfl | rfl := hvalue <;> exact ⟨by decide, by decide⟩
  · have hbound := h.bound
    rw [List.length_append, List.length_mergeSort, List.length_singleton]
    unfold maxEntries at hbound
    omega
  · intro p hp
    obtain hp | hp := List.mem_append.mp hp
    · exact (encodedName_of_archiveName (h.canonical p ((hmem p).mp hp))).1
    · rw [List.mem_singleton.mp hp]
      decide +kernel

theorem length_newcRecords {inode : Nat} (h : HeadersFit inode entries) :
    (newcRecords inode entries).length = (entries.map fun p => recordLength p.1 p.2).sum := by
  induction entries generalizing inode with
  | nil => rfl
  | cons p entries ih =>
    obtain ⟨name, entry⟩ := p
    rw [newcRecords, List.length_append, length_newcRecord h.1, ih h.2, List.map_cons,
      List.sum_cons]

theorem dvd_length_newcRecords (inode : Nat) (entries : Archive) :
    4 ∣ (newcRecords inode entries).length := by
  induction entries generalizing inode with
  | nil => exact Nat.dvd_zero 4
  | cons p entries ih =>
    obtain ⟨name, entry⟩ := p
    rw [newcRecords, List.length_append]
    exact Nat.dvd_add dvd_length_newcRecord (ih _)

/-- The complete archive has its length in any order. -/
theorem length_archive (h : WritableArchive entries) (hnumbers : ∀ p ∈ entries, p.2.NumbersFit) :
    (newcRecords 1 (entries.mergeSort entryLe ++ [trailerEntry])).length =
      archiveLength entries := by
  have hperm := (List.mergeSort_perm entries entryLe).append_right [trailerEntry]
  rw [length_newcRecords ((headersFit_sorted h).mpr hnumbers), archiveLength]
  exact (hperm.map _).sum_nat

/-- An archive is written exactly when its numbers fit and it is within the limit. -/
theorem encodeNewc_eq_some (h : WritableArchive entries) : encodeNewc entries limit = some r ↔
    (∀ p ∈ entries, p.2.NumbersFit) ∧
      r = newcRecords 1 (entries.mergeSort entryLe ++ [trailerEntry]) ∧
        (archiveLength entries : Int) ≤ limit := by
  have hstart : 4 ∣ ([] : Bytes).length := Nat.dvd_zero 4
  rw [encodeNewc, if_pos h.tree, encodeRounds_eq_some hstart, List.nil_append, headersFit_sorted h]
  refine and_congr_right fun hnumbers => and_congr_right fun hr => ?_
  rw [hr, length_archive h hnumbers]
  exact or_iff_right (List.append_ne_nil_of_right_ne_nil _ (List.cons_ne_nil _ _))

/-- What is written is read back, if there are only zeros behind it. -/
theorem parseNewc_append (h : ReadableArchive entries) (hencode : encodeNewc entries limit = some r)
    (z : Bytes) : parseNewc (r ++ z) =
      if z.any (· ≠ 0) then none else some (entries.mergeSort entryLe) := by
  obtain ⟨hnumbers, rfl, -⟩ := (encodeNewc_eq_some h.writable).mp hencode
  have hsorted := h.perm (List.mergeSort_perm entries entryLe)
  have hrounds : (entries.mergeSort entryLe).length < maxEntries + 1 :=
    Nat.lt_succ_of_le hsorted.bound
  have hstart : 4 ∣ ([] : Bytes).length := Nat.dvd_zero 4
  exact parseRounds_newcRecords hstart ((headersFit_sorted h.writable).mpr hnumbers) hsorted hrounds

/-- What is written is read back. -/
theorem parseNewc_encodeNewc (h : ReadableArchive entries)
    (hencode : encodeNewc entries limit = some r) :
    parseNewc r = some (entries.mergeSort entryLe) := by
  rw [← List.append_nil r]
  exact parseNewc_append h hencode []

/-- In any order, the entries are written as the same bytes. -/
theorem encodeNewc_perm (h : ReadableArchive entries) (hperm : entries'.Perm entries) :
    encodeNewc entries' limit = encodeNewc entries limit := by
  rw [encodeNewc, encodeNewc, if_pos h.tree, if_pos (h.perm hperm).tree,
    mergeSort_eq_of_perm h.names hperm]

end Form

/-- Writing an archive that was read gives a faithful canonical form. What is written is within the
limit and aligned, is read back as the same dictionary, and is the same whatever the order of
insertion, so that writing it again changes nothing; and when the numbers of the entries fit their
fields, writing fails exactly when the complete archive exceeds the limit. -/
theorem newc_canonical_form :
    (∀ x entries, parseNewc x = some entries → (entries.map (·.1)).Nodup ∧
      ∀ limit r, encodeNewc entries limit = some r →
        (r.length : Int) ≤ limit ∧ 4 ∣ r.length ∧
        (∃ entries', parseNewc r = some entries' ∧ entries'.Perm entries ∧
          encodeNewc entries' limit = some r) ∧
        ∀ entries', entries'.Perm entries → encodeNewc entries' limit = some r) ∧
    ∀ x entries limit, parseNewc x = some entries → (∀ p ∈ entries, p.2.NumbersFit) →
      (encodeNewc entries limit = none ↔ limit < archiveLength entries) := by
  constructor
  · intro x entries hparse
    have hread := parseNewc_readable hparse
    refine ⟨hread.names, fun limit r hencode => ?_⟩
    have hperm := List.mergeSort_perm entries entryLe
    obtain ⟨hnumbers, hr, hlimit⟩ := (encodeNewc_eq_some hread.writable).mp hencode
    have hany (entries' : Archive) (hperm : entries'.Perm entries) :
        encodeNewc entries' limit = some r := by
      rw [encodeNewc_perm hread hperm]
      exact hencode
    -- what is written is no longer than the limit, and is read back
    refine ⟨?_, ?_, ⟨_, parseNewc_encodeNewc hread hencode, hperm, hany _ hperm⟩, hany⟩
    · rw [hr, length_archive hread.writable hnumbers]
      exact hlimit
    · rw [hr]
      exact dvd_length_newcRecords _ _
  · intro x entries limit hparse hnumbers
    have hread := parseNewc_readable hparse
    constructor
    · -- an archive that fits is written
      intro hnone
      by_contra hlimit
      have hsome := (encodeNewc_eq_some hread.writable).mpr ⟨hnumbers, rfl, Int.not_lt.mp hlimit⟩
      rw [hnone] at hsome
      cases hsome
    · -- what is written fits
      intro hlimit
      cases hencode : encodeNewc entries limit with
      | none => rfl
      | some r =>
        obtain ⟨-, -, hle⟩ := (encodeNewc_eq_some hread.writable).mp hencode
        omega

end HyperIoVm
