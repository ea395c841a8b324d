import HyperIoVm.NetworkTable

/-!
# How configuration lines are split

Both parsers read a line with `sscanf` and field widths, then look for one character more. This
catches a word that is too many, not a word that is too long: such a word is cut at the width of its
field, and the rest of it is the next field. A file is split into the words of its lines exactly
when no word is longer than its field.
-/

namespace HyperIoVm

open Data

/-- A line was split into its words: there is one for each field, they are what the parser scanned,
and the entry is parsed from them. -/
structure SplitLine {β : Type} (widths : List Nat) (parse : List (List Char) → Option β)
    (line : List Char) (entry : β) : Prop where
  count : (words isSpace line).length = widths.length
  scanned : scan isSpace widths line = some (words isSpace line)
  parsed : parse (words isSpace line) = some entry

/-- Each line of a table was split into its words, which gave its entry. -/
def SplitTable {β : Type} (widths : List Nat) (parse : List (List Char) → Option β)
    (rest : List (List Char)) (entries : List β) : Prop :=
  List.Forall₂ (SplitLine widths parse) rest entries

section Lines

variable {β : Type} {widths : List Nat} {parse : List (List Char) → Option β}
  {rest : List (List Char)} {entries : List β}

/-- A line that was scanned and parsed was split into its words exactly when these fit. -/
theorem splitLine_iff {line : List Char} {entry : β} {fields : List (List Char)}
    (hscan : scan isSpace widths line = some fields) (hparse : parse fields = some entry) :
    SplitLine widths parse line entry ↔ Fits widths (words isSpace line) := by
  constructor
  · intro h
    apply (scan_words_iff h.scanned).mp
    rfl
  · intro hfits
    obtain rfl := (scan_words_iff hscan).mpr hfits
    exact ⟨(scan_fits hscan).1, hscan, hparse⟩

/-- A table was split into words exactly when every word fits its field. -/
theorem splitTable_iff {entry : List β → List Char → Option β}
    (hentry : ∀ before line e, cString line = line → entry before line = some e →
      ∃ fields, scan isSpace widths line = some fields ∧ parse fields = some e)
    (hstrings : ∀ line ∈ rest, cString line = line)
    (hread : readEntries entry [] rest = some entries) :
    SplitTable widths parse rest entries ↔ ∀ line ∈ rest, Fits widths (words isSpace line) := by
  obtain ⟨added, hadded, heach⟩ := readEntries_each hread
  rw [List.nil_append] at hadded
  subst hadded
  clear hread
  induction heach with
  | nil => exact iff_of_true .nil fun _ h => absurd h List.not_mem_nil
  | @cons line e rest entries hline _ ih =>
    obtain ⟨before, hbefore⟩ := hline
    obtain ⟨fields, hscan, hparse⟩ :=
      hentry before line e (hstrings line List.mem_cons_self) hbefore
    rw [SplitTable, List.forall₂_cons, List.forall_mem_cons, splitLine_iff hscan hparse]
    apply and_congr_right
    intro _
    exact ih fun line hline => hstrings line (List.mem_cons_of_mem _ hline)

end Lines

theorem readClient_fields_of_eq_some {version : ClientsVersion} {clients : List HyperClient}
    {line : List Char} {client : HyperClient} (hline : cString line = line)
    (h : readClient version clients line = some client) :
    ∃ fields, scan isSpace version.widths line = some fields ∧
      parseClient version fields = some client := by
  simp only [readClient, Option.bind_eq_bind, Option.bind_eq_some_iff, hline] at h
  obtain ⟨fields, hfields, client', hclient, h⟩ := h
  split at h
  · cases h
  · obtain rfl := Option.some_inj.mp h
    exact ⟨fields, hfields, hclient⟩

theorem readNetwork_fields_of_eq_some {networks : List HyperNetwork} {line : List Char}
    {n : HyperNetwork} (hline : cString line = line) (h : readNetwork networks line = some n) :
    ∃ fields, scan isSpace networkWidths line = some fields ∧ parseNetwork fields = some n := by
  simp only [readNetwork, Option.bind_eq_bind, Option.bind_eq_some_iff, hline] at h
  obtain ⟨fields, hfields, n', hn, h⟩ := h
  split at h
  · cases h
  · obtain rfl := Option.some_inj.mp h
    exact ⟨fields, hfields, hn⟩

/-- The header names its version. -/
theorem ClientsVersion.header_injective {version version' : ClientsVersion}
    (h : version.header = version'.header) : version = version' := by
  cases version <;> cases version' <;> first | rfl | exact absurd h (by decide)

/-- Configuration lines are split at whitespace exactly when no word is longer than its field. Of a
file that is accepted, each line after the header has as many words as its format has fields, and
they are the fields that are checked and stored, if and only if every word of these lines fits the
width of its field. -/
theorem lines_split_iff_fit (file : Stream) :
    (∀ clients version rest, hyperClientsRead (some file) = some clients →
      lines file.contents = (ClientsVersion.header version ++ ['\n']) :: rest →
      (SplitTable version.widths (parseClient version) rest clients ↔
        ∀ line ∈ rest, Fits version.widths (words isSpace line))) ∧
    ∀ networks rest, hyperNetworksRead (some file) = some networks →
      lines file.contents = (networksHeader ++ ['\n']) :: rest →
      (SplitTable networkWidths parseNetwork rest networks ↔
        ∀ line ∈ rest, Fits networkWidths (words isSpace line)) := by
  constructor
  · intro clients version rest hread hlines
    obtain ⟨-, -, version', rest', hlines', hstrings, hentries⟩ := readClientsFile_lines hread
    obtain ⟨hheader, rfl⟩ := List.cons.inj (hlines.symm.trans hlines')
    obtain rfl := ClientsVersion.header_injective (List.append_cancel_right hheader)
    exact splitTable_iff (fun _ _ _ hline h => readClient_fields_of_eq_some hline h) hstrings
      hentries
  · intro networks rest hread hlines
    obtain ⟨-, rest', hlines', hstrings, hentries⟩ := readNetworksFile_lines hread
    obtain ⟨-, rfl⟩ := List.cons.inj (hlines.symm.trans hlines')
    exact splitTable_iff (fun _ _ _ hline h => readNetwork_fields_of_eq_some hline h) hstrings
      hentries

/-! ## Words that are too long -/

/-- Two words for three fields: an identifier of seven digits that the network follows at once. -/
def gluedClients : List Char := "hyper.clients.v3\n0 - -\n0000001- -\n".toList

/-- Two words for three fields: a name of 31 letters that the bridge follows at once. -/
def gluedNetworks : List Char :=
  "hyper.networks.v1\nabcdefghijklmnopqrstuvwxyzabcdebr0 eth0\n".toList

/-- Lines with too few words are accepted, by both parsers. -/
theorem glued_lines_accepted :
    hyperClientsRead (some ⟨gluedClients, false⟩) =
        some [⟨0, 4, 128, ⟨1000, 0⟩, ['-'], ['-']⟩, ⟨1, 4, 128, ⟨1000, 0⟩, ['-'], ['-']⟩] ∧
      hyperNetworksRead (some ⟨gluedNetworks, false⟩) =
        some [⟨"abcdefghijklmnopqrstuvwxyzabcde".toList, "br0".toList, "eth0".toList⟩] ∧
      ¬ (∀ file clients version rest, hyperClientsRead (some file) = some clients →
        lines file.contents = (ClientsVersion.header version ++ ['\n']) :: rest →
        SplitTable version.widths (parseClient version) rest clients) ∧
      ¬ ∀ file networks rest, hyperNetworksRead (some file) = some networks →
        lines file.contents = (networksHeader ++ ['\n']) :: rest →
        SplitTable networkWidths parseNetwork rest networks := by
  have hclients : hyperClientsRead (some ⟨gluedClients, false⟩) =
      some [⟨0, 4, 128, ⟨1000, 0⟩, ['-'], ['-']⟩, ⟨1, 4, 128, ⟨1000, 0⟩, ['-'], ['-']⟩] := by
    decide +kernel
  have hnetworks : hyperNetworksRead (some ⟨gluedNetworks, false⟩) =
      some [⟨"abcdefghijklmnopqrstuvwxyzabcde".toList, "br0".toList, "eth0".toList⟩] := by
    decide +kernel
  refine ⟨hclients, hnetworks, fun h => ?_, fun h => ?_⟩
  · have hsplit := h _ _ .v3 ["0 - -\n".toList, "0000001- -\n".toList] hclients (by decide +kernel)
    obtain ⟨-, htail⟩ := List.forall₂_cons.mp hsplit
    obtain ⟨hline, -⟩ := List.forall₂_cons.mp htail
    exact absurd hline.count (by decide +kernel)
  · have hsplit := h _ _ ["abcdefghijklmnopqrstuvwxyzabcdebr0 eth0\n".toList] hnetworks
      (by decide +kernel)
    obtain ⟨hline, -⟩ := List.forall₂_cons.mp hsplit
    exact absurd hline.count (by decide +kernel)

end HyperIoVm
