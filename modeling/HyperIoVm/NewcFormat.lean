import HyperIoVm.NewcRounds

/-!
# The newc format, and what `parse_newc` accepts

What any reader of newc archives extracts: records that follow one another, with headers of thirteen
fields of eight hexadecimal digits. `parse_newc` extracts the same, except that it decodes a field
with `int(field, 16)`, which also allows spaces, a sign, a prefix and underscores.
-/

namespace HyperIoVm

open Data

/-! ## The format -/

section Format

variable (data : Bytes) (offset : Nat)

/-- A field of the header at `offset`. -/
def fieldText (i : Nat) : List Char := asciiText ((data.drop (offset + (6 + 8 * i))).take 8)

/-- The thirteen fields of the header at `offset` are eight hexadecimal digits each. -/
def DigitsAt : Prop :=
  ∀ i < 13, (fieldText data offset i).length = 8 ∧
    ∀ c ∈ fieldText data offset i, isHexDigit c = true

def fieldValue (i : Nat) : Nat := hexValue ((fieldText data offset i).map Char.toLower)

/-- The bytes of the name, with its terminator. -/
def nameAt : Bytes := (data.drop (offset + 110)).take (fieldValue data offset 11)

def nameEnd : Nat := offset + 110 + fieldValue data offset 11

def payloadAt : Nat := nameEnd data offset + padding (nameEnd data offset)

def payloadEnd : Nat := payloadAt data offset + fieldValue data offset 6

/-- The aligned end of the record at `offset`. -/
def nextRecord : Nat := payloadEnd data offset + padding (payloadEnd data offset)

def contentsAt : Bytes := (data.drop (payloadAt data offset)).take (fieldValue data offset 6)

/-- The entry that the record at `offset` describes. -/
def entryAt : ArchiveEntry where
  mode := fieldValue data offset 1
  uid := fieldValue data offset 2
  gid := fieldValue data offset 3
  major := fieldValue data offset 9
  minor := fieldValue data offset 10
  contents := contentsAt data offset

/-- A record of the given name: a header, the name and as many bytes as the header says, within the
input. -/
structure RecordAt (name : String) : Prop where
  magic : (data.drop offset).take 6 = newcMagic
  digits : DigitsAt data offset
  unchecked : fieldValue data offset 12 = 0
  name : nameAt data offset = encodedName name
  extent : offset < nameEnd data offset ∧ nameEnd data offset ≤ payloadAt data offset ∧
    payloadEnd data offset ≤ nextRecord data offset ∧ nextRecord data offset ≤ data.length
  whole : (contentsAt data offset).length = fieldValue data offset 6

end Format

/-- What a reader extracts from `offset` on: an entry for each record before the trailer, behind
which everything is zero. -/
inductive Extracts (data : Bytes) : (offset : Nat) → Archive → Prop where
  | trailer {offset : Nat} : RecordAt data offset trailerName → fieldValue data offset 6 = 0 →
    (∀ b ∈ data.drop (nextRecord data offset), b = 0) → Extracts data offset []
  | entry {offset : Nat} {name : String} {rest : Archive} : RecordAt data offset name →
    name ≠ trailerName → Extracts data (nextRecord data offset) rest →
      Extracts data offset ((name, entryAt data offset) :: rest)

/-- The input is an archive, and the entries are what any reader extracts. -/
def ExtractsOnly (data : Bytes) (entries : Archive) : Prop :=
  ∀ entries', Extracts data 0 entries' ↔ entries' = entries

/-- The offsets of the headers, as far as the headers before them consist of digits. -/
inductive HeaderAt (data : Bytes) : (offset : Nat) → Prop where
  | first : HeaderAt data 0
  | next {offset : Nat} : HeaderAt data offset → DigitsAt data offset →
    nameAt data offset ≠ encodedName trailerName → HeaderAt data (nextRecord data offset)

section Reader

variable {data : Bytes} {offset : Nat} {name : String} {entries entries' : Archive}

theorem encodedName_injective {name name' : String} (h : encodedName name = encodedName name') :
    name = name' := by
  have htext := congrArg utf8Text (List.append_cancel_right h)
  rw [utf8Text_utf8Bytes, utf8Text_utf8Bytes] at htext
  exact Option.some_inj.mp htext

/-- There is only one way to read an archive. -/
theorem Extracts.unique (h : Extracts data offset entries) (h' : Extracts data offset entries') :
    entries = entries' := by
  induction h generalizing entries' with
  | trailer hrecord =>
    cases h' with
    | trailer => rfl
    | entry hrecord' hname =>
      exact absurd (encodedName_injective (hrecord'.name.symm.trans hrecord.name)) hname
  | entry hrecord hname _ ih =>
    cases h' with
    | trailer hrecord' =>
      exact absurd (encodedName_injective (hrecord.name.symm.trans hrecord'.name)) hname
    | entry hrecord' _ hrest =>
      rw [encodedName_injective (hrecord.name.symm.trans hrecord'.name), ih hrest]

theorem extractsOnly_iff : ExtractsOnly data entries ↔ Extracts data 0 entries :=
  ⟨fun h => (h entries).mpr rfl, fun h _ => ⟨fun h' => h'.unique h, fun heq => heq ▸ h⟩⟩

theorem Extracts.digits (h : Extracts data offset entries) : DigitsAt data offset := by
  cases h with
  | trailer hrecord => exact hrecord.digits
  | entry hrecord => exact hrecord.digits

/-- A reader comes to every header. -/
theorem Extracts.at_header (h : Extracts data 0 entries) (hheader : HeaderAt data offset) :
    ∃ rest, Extracts data offset rest := by
  induction hheader with
  | first => exact ⟨entries, h⟩
  | next _ _ hname ih =>
    obtain ⟨rest, hrest⟩ := ih
    cases hrest with
    | trailer hrecord => exact absurd hrecord.name hname
    | entry _ _ hrest => exact ⟨_, hrest⟩

end Reader

/-! ## What `parse_newc` reads -/

section Parsing

variable {data : Bytes} {offset rounds : Nat} {name : String} {contents : Bytes} {next : Int}
  {header : NewcHeader} {entry : ArchiveEntry} {entries result : Archive}

/-- The header that the digits at `offset` stand for. -/
def headerAt (data : Bytes) (offset : Nat) : NewcHeader where
  mode := fieldValue data offset 1
  uid := fieldValue data offset 2
  gid := fieldValue data offset 3
  links := fieldValue data offset 4
  size := fieldValue data offset 6
  major := fieldValue data offset 9
  minor := fieldValue data offset 10
  namesize := fieldValue data offset 11
  check := fieldValue data offset 12

theorem slice_header (data : Bytes) (offset : Nat) :
    slice data offset (offset + 110) = (data.drop offset).take 110 := by
  show slice data offset (offset + 110 : Nat) = _
  rw [slice_ofNat, Nat.add_sub_cancel_left]

/-- A field of digits is decoded as its value. -/
theorem intBase16_fieldText (h : DigitsAt data offset) {i : Nat} (hi : i < 13) :
    intBase16 (asciiText (slice ((data.drop offset).take 110) (6 + 8 * i : Nat)
      (6 + 8 * i + 8 : Nat))) = some (fieldValue data offset i : Int) := by
  obtain ⟨hlength, hdigits⟩ := h i hi
  have htext : slice ((data.drop offset).take 110) (6 + 8 * i : Nat) (6 + 8 * i + 8 : Nat) =
      (data.drop (offset + (6 + 8 * i))).take 8 := by
    rw [slice_ofNat, Nat.add_sub_cancel_left, List.drop_take, List.drop_drop, List.take_take,
      Nat.min_eq_left (by omega)]
  rw [htext]
  refine intBase16_digits (fun hnil => ?_) hdigits
  have hzero := congrArg List.length hnil
  rw [← fieldText, hlength] at hzero
  exact absurd hzero (by decide)

theorem parseHeader_digits (h : DigitsAt data offset)
    (hparse : parseHeader ((data.drop offset).take 110) = some header) :
    (data.drop offset).take 6 = newcMagic ∧ header = headerAt data offset := by
  have hfields : (List.range 13).mapM (fun i => intBase16 (asciiText
      (slice ((data.drop offset).take 110) (6 + 8 * i : Nat) (6 + 8 * i + 8 : Nat)))) =
        some ((List.range 13).map fun i => (fieldValue data offset i : Int)) :=
    mapM_eq_some_map fun i hi => intBase16_fieldText h (List.mem_range.mp hi)
  rw [parseHeader] at hparse
  split at hparse
  next => cases hparse
  next hmagic =>
    rw [Decidable.not_not, List.take_take] at hmagic
    rw [hfields] at hparse
    exact ⟨hmagic, (Option.some_inj.mp hparse).symm⟩

/-- A record whose header consists of digits is one of the format. -/
theorem parseRecord_digits (h : DigitsAt data offset)
    (hparse : parseRecord data offset = some (header, name, contents, next)) :
    header = headerAt data offset ∧ RecordAt data offset name ∧
      contents = contentsAt data offset ∧ next = nextRecord data offset := by
  rw [parseRecord, slice_header, Option.bind_eq_bind, Option.bind_eq_some_iff] at hparse
  obtain ⟨header', hheader, hparse⟩ := hparse
  obtain ⟨hmagic, rfl⟩ := parseHeader_digits h hheader
  have hstop : (offset : Int) + 110 + (headerAt data offset).namesize = nameEnd data offset := rfl
  have hnameAt : slice data (offset + 110) (nameEnd data offset) = nameAt data offset := by
    show slice data (offset + 110 : Nat) _ = _
    rw [slice_ofNat, nameEnd, Nat.add_sub_cancel_left, nameAt]
  have hpayload : alignUp (nameEnd data offset) = payloadAt data offset := alignUp_ofNat _
  have hend : (payloadAt data offset : Int) + (headerAt data offset).size =
      payloadEnd data offset := rfl
  have hnext : alignUp (payloadEnd data offset) = nextRecord data offset := alignUp_ofNat _
  have hcontents : slice data (payloadAt data offset) (payloadEnd data offset) =
      contentsAt data offset := by
    rw [slice_ofNat, payloadEnd, Nat.add_sub_cancel_left, contentsAt]
  dsimp only at hparse
  rw [hstop, hnameAt, hpayload, hend, hnext, hcontents] at hparse
  split at hparse
  · cases hparse
  rename_i hok
  simp only [not_or, Decidable.not_not, ne_eq] at hok
  obtain ⟨hpositive, -, -, hlast, hzero⟩ := hok
  obtain ⟨name', hname, hparse⟩ := Option.bind_eq_some_iff.mp hparse
  split at hparse
  · cases hparse
  rename_i hfit
  simp only [not_or, Decidable.not_not, ne_eq, gt_iff_lt, Int.not_lt] at hfit
  simp only [Option.some_inj, Prod.mk.injEq] at hparse
  obtain ⟨rfl, rfl, rfl, rfl⟩ := hparse
  have hinside : nextRecord data offset ≤ data.length := Int.ofNat_le.mp hfit.1
  have hterminated : nameAt data offset = encodedName name' := by
    rw [encodedName, utf8Bytes_of_utf8Text hname]
    exact (List.dropLast_append_getLast? _ hlast).symm
  have hextent : payloadEnd data offset ≤ nextRecord data offset := Nat.le_add_right _ _
  refine ⟨rfl, ⟨hmagic, h, Int.ofNat_inj.mp hfit.2, hterminated, ⟨?_, Nat.le_add_right _ _,
    hextent, hinside⟩, ?_⟩, rfl, rfl⟩
  · rw [nameEnd]
    omega
  · rw [contentsAt, List.length_take, List.length_drop]
    rw [payloadEnd] at hextent
    omega

/-- The entry of a record is what its header says, and its contents. -/
theorem parseEntry_eq (h : parseEntry header name contents = some entry) :
    entry = ⟨header.mode, header.uid, header.gid, header.major, header.minor, contents⟩ := by
  rw [parseEntry] at h
  split at h
  · cases h
  · obtain ⟨kind, -, h⟩ := Option.bind_eq_some_iff.mp h
    split at h
    · cases h
    · exact (Option.some_inj.mp h).symm

/-- While the headers consist of digits, `parse_newc` reads what any reader extracts. -/
theorem parseRounds_extracts (hdigits : ∀ o, HeaderAt data o → DigitsAt data o)
    (hat : HeaderAt data offset) (h : parseRounds data rounds offset entries = some result) :
    ∃ rest, result = entries ++ rest ∧ Extracts data offset rest := by
  induction rounds generalizing offset entries with
  | zero => cases h
  | succ rounds ih =>
    rw [parseRounds_succ] at h
    split at h
    · cases h
    obtain ⟨round, hround, h⟩ := Option.bind_eq_some_iff.mp h
    have hhere := hdigits offset hat
    cases round with
    | returns result' =>
      obtain rfl := Option.some_inj.mp h
      obtain ⟨header, contents, next, hrecord, hsize, hzero, rfl⟩ := parseRound_returns hround
      obtain ⟨rfl, hformed, -, rfl⟩ := parseRecord_digits hhere hrecord
      rw [sliceFrom_ofNat] at hzero
      exact ⟨[], (List.append_nil _).symm, .trailer hformed (Int.ofNat_inj.mp hsize) hzero⟩
    | goesOn next entries' =>
      obtain ⟨header, name, contents, entry, hrecord, hname, hentry, -, -, rfl⟩ :=
        parseRound_goesOn hround
      obtain ⟨rfl, hformed, rfl, rfl⟩ := parseRecord_digits hhere hrecord
      obtain rfl := parseEntry_eq hentry
      have hnext : HeaderAt data (nextRecord data offset) :=
        hat.next hhere fun heq => hname (encodedName_injective (hformed.name.symm.trans heq))
      obtain ⟨rest, rfl, hrest⟩ := ih hnext h
      exact ⟨_, List.append_assoc _ _ _, .entry hformed hname hrest⟩

end Parsing

/-! ## What `parse_newc` accepts -/

/-- What `parse_newc` accepts is a well-formed archive, and what it returns is what any reader
extracts, exactly when every header of the input has thirteen fields of eight hexadecimal digits. -/
theorem parseNewc_extracts_iff {data : Bytes} {entries : Archive}
    (h : parseNewc data = some entries) :
    ExtractsOnly data entries ↔ ∀ offset, HeaderAt data offset → DigitsAt data offset := by
  rw [extractsOnly_iff]
  constructor
  · intro hextracts offset hheader
    obtain ⟨rest, hrest⟩ := hextracts.at_header hheader
    exact hrest.digits
  · intro hdigits
    obtain ⟨rest, rfl, hrest⟩ := parseRounds_extracts hdigits .first h
    exact hrest

/-- A directory with a file. -/
def hostsEntries : Archive :=
  [("etc", ⟨0o040755, 0, 0, 0, 0, []⟩), ("etc/hosts", ⟨0o100644, 0, 0, 0, 0, [0x78]⟩)]

def hostsArchive : Bytes := newcRecords 1 (hostsEntries ++ [trailerEntry])

theorem parseNewc_extracts_hosts : ExtractsOnly hostsArchive hostsEntries := by
  have hdigits (offset : Nat) (hmem : offset ∈ [0, 116, 240]) : DigitsAt hostsArchive offset := by
    have hall : ([0, 116, 240].all fun offset => (List.range 13).all fun i =>
        (fieldText hostsArchive offset i).length == 8 &&
          (fieldText hostsArchive offset i).all isHexDigit) = true := by decide +kernel
    intro i hi
    have hfield := List.all_eq_true.mp (List.all_eq_true.mp hall offset hmem) i
      (List.mem_range.mpr hi)
    rw [Bool.and_eq_true, beq_iff_eq, List.all_eq_true] at hfield
    exact hfield
  -- the headers of the directory, of the file and of the trailer
  have hheaders (offset : Nat) (h : HeaderAt hostsArchive offset) : offset ∈ [0, 116, 240] := by
    induction h with
    | first => exact List.mem_cons_self
    | next _ _ hother ih =>
      simp only [List.mem_cons, List.not_mem_nil, or_false] at ih
      rcases ih with rfl | rfl | rfl
      · have hnext : nextRecord hostsArchive 0 = 116 := by decide +kernel
        rw [hnext]
        decide
      · have hnext : nextRecord hostsArchive 116 = 240 := by decide +kernel
        rw [hnext]
        decide
      · exact absurd (by decide +kernel) hother
  exact (parseNewc_extracts_iff (by decide +kernel)).mpr fun offset h =>
    hdigits offset (hheaders offset h)

/-- A regular file of −1 bytes. -/
def negativeSize : Bytes := sizedRecord "-0000001" ++ newcRecords 1 [trailerEntry]

/-- `parse_newc` accepts a sign in a header, where no reader finds a number. -/
theorem negative_size_accepted :
    parseNewc negativeSize = some [("a", ⟨0o100644, 0, 0, 0, 0, []⟩)] ∧
      ¬ ∃ entries, Extracts negativeSize 0 entries := by
  refine ⟨by decide +kernel, fun hextracts => ?_⟩
  obtain ⟨entries, hextracts⟩ := hextracts
  have hsign : '-' ∈ fieldText negativeSize 0 6 := by decide +kernel
  exact Bool.noConfusion ((hextracts.digits 6 (by decide)).2 '-' hsign)

end HyperIoVm
