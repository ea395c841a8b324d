import HyperIoVm.ClientTable
import HyperIoVm.NetworkConfig

/-!
# What a network inventory says

The inventories that `hyper_networks_read` accepts use no name and no interface twice; every such
inventory, written one network a line, is read back; and a name selects the bridge of its network.
-/

namespace HyperIoVm

open Data

/-! ## Inventories -/

/-- The name of an interface: `[A-Za-z0-9_-]`, of 15 characters at most, so that it ends inside its
field of 16 bytes. -/
structure IsInterfaceName (name : List Char) : Prop where
  ne_nil : name ≠ []
  chars : ∀ c ∈ name, c.isLower = true ∨ c.isUpper = true ∨ c.isDigit = true ∨ c = '_' ∨ c = '-'
  length : name.length ≤ 15

/-- The interfaces of an inventory: bridges and uplinks. -/
def interfaces (networks : List HyperNetwork) : List (List Char) :=
  networks.flatMap fun n => [n.bridge, n.uplink]

/-- A network inventory. -/
structure NetworkInventory (networks : List HyperNetwork) : Prop where
  bound : networks.length ≤ 8
  names : (networks.map (·.name)).Nodup
  interfaces : (interfaces networks).Nodup
  valid : ∀ n ∈ networks, IsNetworkName n.name ∧ IsInterfaceName n.bridge ∧ IsInterfaceName n.uplink

/-- An interface name ends inside its field, and a network name inside its own. -/
theorem IsInterfaceName.not_nul {name : List Char} (h : IsInterfaceName name) : '\x00' ∉ name := by
  intro hc
  have hchar := h.chars _ hc
  revert hchar
  decide

/-! ## Reading -/

section Reading

variable {networks : List HyperNetwork} {n : HyperNetwork}

theorem nameValid_iff {name : List Char} (h : name.length ≤ 31) :
    nameValid name false = true ↔ IsNetworkName name := by
  rw [← networkName_iff h]
  cases name with
  | nil => decide
  | cons c name => simp [nameValid, networkName]

theorem nameValid_interface_iff {name : List Char} (h : name.length ≤ 15) :
    nameValid name true = true ↔ IsInterfaceName name := by
  have hvalid : nameValid name true = true ↔ name ≠ [] ∧
      ∀ c ∈ name, c.isLower = true ∨ c.isUpper = true ∨ c.isDigit = true ∨ c = '_' ∨ c = '-' := by
    rw [nameValid, Bool.true_or, Bool.and_true, Bool.and_eq_true, List.all_eq_true]
    simp only [Bool.not_eq_true', List.isEmpty_eq_false_iff, Bool.or_eq_true, Bool.true_and,
      beq_iff_eq, ne_eq]
    refine and_congr_right fun _ => forall₂_congr fun c _ => ?_
    tauto
  rw [hvalid]
  exact ⟨fun hname => ⟨hname.1, hname.2, h⟩, fun hname => ⟨hname.ne_nil, hname.chars⟩⟩

/-- A network clashes with an earlier one exactly when they share a name or an interface. -/
theorem not_clashes_iff {earlier : HyperNetwork} : n.clashes earlier = false ↔
    n.name ≠ earlier.name ∧ ∀ i ∈ [n.bridge, n.uplink], i ∉ [earlier.bridge, earlier.uplink] := by
  simp only [HyperNetwork.clashes, Bool.or_eq_false_iff, beq_eq_false_iff_ne, List.mem_cons,
    List.not_mem_nil, or_false, forall_eq_or_imp, forall_eq, not_or]
  tauto

/-- One network more keeps an inventory when its own interfaces differ and it does not clash. -/
theorem networkInventory_concat : NetworkInventory (networks ++ [n]) ↔
    NetworkInventory networks ∧ networks.length ≠ 8 ∧ n.bridge ≠ n.uplink ∧
      (IsNetworkName n.name ∧ IsInterfaceName n.bridge ∧ IsInterfaceName n.uplink) ∧
      ∀ earlier ∈ networks, n.clashes earlier = false := by
  -- the interfaces of the new network are new, and are two
  have hinterfaces : (interfaces (networks ++ [n])).Nodup ↔ (interfaces networks).Nodup ∧
      n.bridge ≠ n.uplink ∧ ∀ earlier ∈ networks, ∀ i ∈ [n.bridge, n.uplink],
        i ∉ [earlier.bridge, earlier.uplink] := by
    rw [interfaces, List.flatMap_append, List.nodup_append, List.flatMap_singleton]
    simp only [List.nodup_cons, List.mem_singleton, List.not_mem_nil, not_false_iff, List.nodup_nil,
      and_true, List.mem_flatMap]
    refine and_congr_right fun _ => and_congr_right fun _ =>
      ⟨fun h earlier hearlier i hi hmem => ?_,
      fun h i hi j hj heq => ?_⟩
    · exact h i ⟨earlier, hearlier, hmem⟩ i hi rfl
    · obtain ⟨earlier, hearlier, hmem⟩ := hi
      exact h earlier hearlier j hj (heq ▸ hmem)
  -- its name is new
  have hnames : ((networks ++ [n]).map (·.name)).Nodup ↔ (networks.map (·.name)).Nodup ∧
      ∀ earlier ∈ networks, n.name ≠ earlier.name := by
    rw [List.map_append, List.map_singleton, ← List.concat_eq_append, List.nodup_concat, and_comm]
    refine and_congr_right fun _ => ⟨fun h earlier hearlier heq => ?_, fun h hmem => ?_⟩
    · exact h (List.mem_map.mpr ⟨earlier, hearlier, heq.symm⟩)
    · obtain ⟨earlier, hearlier, heq⟩ := List.mem_map.mp hmem
      exact h earlier hearlier heq.symm
  constructor
  · intro h
    obtain ⟨hnames', hnew⟩ := hnames.mp h.names
    obtain ⟨hinterfaces', hself, hnew'⟩ := hinterfaces.mp h.interfaces
    have hbound := h.bound
    rw [List.length_append, List.length_singleton] at hbound
    exact ⟨⟨by omega, hnames', hinterfaces', fun m hm => h.valid m (List.mem_append_left _ hm)⟩,
      by omega, hself, h.valid n (by simp), fun earlier hearlier =>
        not_clashes_iff.mpr ⟨hnew earlier hearlier, hnew' earlier hearlier⟩⟩
  · intro h
    obtain ⟨h, hroom, hself, hvalid, hnew⟩ := h
    refine ⟨?_, hnames.mpr ⟨h.names, fun earlier hearlier =>
      (not_clashes_iff.mp (hnew earlier hearlier)).1⟩, hinterfaces.mpr ⟨h.interfaces, hself,
        fun earlier hearlier => (not_clashes_iff.mp (hnew earlier hearlier)).2⟩, fun m hm => ?_⟩
    · have hbound := h.bound
      rw [List.length_append, List.length_singleton]
      omega
    · obtain hm | hm := List.mem_append.mp hm
      · exact h.valid m hm
      · rw [List.mem_singleton.mp hm]
        exact hvalid

/-- The checks of a line, for fields that fit their widths. -/
theorem parseNetwork_eq_some {fields : List (List Char)} (h : Fits networkWidths fields) :
    parseNetwork fields = some n ↔
      n = ⟨fields.getD 0 [], fields.getD 1 [], fields.getD 2 []⟩ ∧ n.bridge ≠ n.uplink ∧
        IsNetworkName n.name ∧ IsInterfaceName n.bridge ∧ IsInterfaceName n.uplink := by
  rw [parseNetwork]
  dsimp only
  have hname := nameValid_iff (h.length_getD (i := 0) rfl)
  have hbridge := nameValid_interface_iff (h.length_getD (i := 1) rfl)
  have huplink := nameValid_interface_iff (h.length_getD (i := 2) rfl)
  constructor
  · intro hparse
    split at hparse
    next hvalid =>
      obtain rfl := Option.some_inj.mp hparse
      simp only [Bool.and_eq_true, bne_iff_ne, hname, hbridge, huplink] at hvalid
      obtain ⟨⟨⟨hname, hbridge⟩, huplink⟩, hself⟩ := hvalid
      exact ⟨rfl, hself, hname, hbridge, huplink⟩
    next => cases hparse
  · intro hn
    obtain ⟨rfl, hself, hvalid⟩ := hn
    rw [if_pos]
    simp only [Bool.and_eq_true, bne_iff_ne, hname, hbridge, huplink]
    exact ⟨⟨⟨hvalid.1, hvalid.2.1⟩, hvalid.2.2⟩, hself⟩

/-- A line that is read ends in its newline. -/
theorem readNetwork_newline {line : List Char} (h : readNetwork networks line = some n) :
    '\n' ∈ cString line := by
  simp only [readNetwork, Option.bind_eq_bind, Option.bind_eq_some_iff] at h
  obtain ⟨fields, -, n', -, h⟩ := h
  split at h
  next => cases h
  next hvalid =>
    simp only [not_or, Decidable.not_not] at hvalid
    exact hvalid.2.1

/-- The next network is read exactly when the inventory with it is one. -/
theorem readNetwork_eq_some {line : List Char} (h : NetworkInventory networks) :
    readNetwork networks line = some n ↔
      (∃ fields, scan isSpace networkWidths (cString line) = some fields ∧
        n = ⟨fields.getD 0 [], fields.getD 1 [], fields.getD 2 []⟩) ∧
      '\n' ∈ cString line ∧ NetworkInventory (networks ++ [n]) := by
  simp only [readNetwork, Option.bind_eq_bind, Option.bind_eq_some_iff]
  rw [networkInventory_concat]
  constructor
  · intro hread
    obtain ⟨fields, hfields, n', hn', hread⟩ := hread
    split at hread
    next => cases hread
    next hvalid =>
      obtain rfl := Option.some_inj.mp hread
      simp only [not_or, Decidable.not_not, Bool.not_eq_true, List.any_eq_false] at hvalid
      obtain ⟨rfl, hself, hn⟩ := (parseNetwork_eq_some (scan_fits hfields).2.1).mp hn'
      exact ⟨⟨fields, hfields, rfl⟩, hvalid.2.1, h, hvalid.1, hself, hn, hvalid.2.2⟩
  · intro hread
    obtain ⟨⟨fields, hfields, hn⟩, hnewline, -, hroom, hself, hvalid, hnew⟩ := hread
    refine ⟨fields, hfields, n, (parseNetwork_eq_some (scan_fits hfields).2.1).mpr
      ⟨hn, hself, hvalid⟩, if_neg ?_⟩
    simp only [not_or, Decidable.not_not, Bool.not_eq_true, List.any_eq_false]
    exact ⟨hroom, hnewline, hnew⟩

/-- What a file that is read says: the header, then a line for each network. -/
theorem readNetworksFile_lines {file : Stream} (h : readNetworksFile file = some networks) :
    file.fails = false ∧ ∃ rest, lines file.contents = (networksHeader ++ ['\n']) :: rest ∧
      (∀ line ∈ rest, cString line = line) ∧ readEntries readNetwork [] rest = some networks := by
  rw [readNetworksFile] at h
  split at h
  next => cases h
  next buffer buffers hfgets =>
    split at h
    next hheader =>
      simp only [Option.bind_eq_bind, Option.bind_eq_some_iff] at h
      obtain ⟨networks', hnetworks, h⟩ := h
      split at h
      next => cases h
      next hfails =>
        obtain rfl := Option.some_inj.mp h
        rw [Bool.not_eq_true] at hfails
        obtain ⟨hlines, hcstring⟩ := Stream.lines_of_table hfails hfgets hheader
          (fun _ _ _ hn => readNetwork_newline hn) hnetworks
        exact ⟨hfails, buffers, hlines, hcstring, hnetworks⟩
    next => cases h

/-- What is read is an inventory. -/
theorem readNetworks_inventory {rest : List (List Char)}
    (hread : readEntries readNetwork [] rest = some networks) : NetworkInventory networks := by
  have hempty : NetworkInventory [] :=
    ⟨Nat.zero_le _, List.nodup_nil, List.nodup_nil, fun _ h => absurd h List.not_mem_nil⟩
  exact readEntries_keeps (fun _ _ _ h hn => ((readNetwork_eq_some h).mp hn).2.2) hempty hread

end Reading

/-! ## Writing -/

/-- The fields of a network's line. -/
def HyperNetwork.fields (n : HyperNetwork) : List (List Char) := [n.name, n.bridge, n.uplink]

/-- An inventory as text: the header, then the fields of each network with spaces between them. -/
def networksText (networks : List HyperNetwork) : List Char :=
  (networksHeader ++ ['\n']) ++ networks.flatMap fun n => joined ' ' '\n' n.fields

section Writing

variable {networks : List HyperNetwork} {n : HyperNetwork}

theorem IsInterfaceName.isPlain {name : List Char} (h : IsInterfaceName name) : IsPlain name := by
  refine ⟨h.ne_nil, fun c hc => ?_⟩
  obtain hc | hc | hc | rfl | rfl := h.chars c hc
  · exact (toNat_of_isLower hc).1.trans_lt' (by decide)
  · exact (toNat_of_isUpper hc).1.trans_lt' (by decide)
  · exact (toNat_of_isDigit hc).1.trans_lt' (by decide)
  · decide
  · decide

/-- The fields are plain words that fit the widths of the format. -/
theorem NetworkInventory.fields (h : NetworkInventory networks) (hn : n ∈ networks) :
    n.fields.length = networkWidths.length ∧ Fits networkWidths n.fields ∧
      ∀ w ∈ n.fields, IsPlain w := by
  obtain ⟨hname, hbridge, huplink⟩ := h.valid n hn
  refine ⟨rfl, ⟨hname.length, hbridge.length, huplink.length, trivial⟩, ?_⟩
  simp only [HyperNetwork.fields, List.mem_cons, List.not_mem_nil, or_false, forall_eq_or_imp,
    forall_eq]
  exact ⟨hname.isPlain, hbridge.isPlain, huplink.isPlain⟩

/-- The networks before a point are an inventory too. -/
theorem NetworkInventory.sublist {networks' : List HyperNetwork} (h : NetworkInventory networks')
    (hsub : networks.Sublist networks') : NetworkInventory networks where
  bound := hsub.length_le.trans h.bound
  names := h.names.sublist (hsub.map _)
  interfaces := h.interfaces.sublist (hsub.flatMap _)
  valid n hn := h.valid n (hsub.subset hn)

/-- The lines of an inventory are read back. -/
theorem readNetworks_text (h : NetworkInventory networks) :
    readEntries readNetwork [] (networks.map fun n => joined ' ' '\n' n.fields) =
      some networks := by
  have hread : readEntries readNetwork [] (networks.map fun n => joined ' ' '\n' n.fields) =
      some ([] ++ networks) := by
    refine readEntries_text fun pre n post heq => ?_
    rw [List.nil_append] at heq
    subst heq
    have hfirst : NetworkInventory (pre ++ [n]) := h.sublist (by simp)
    obtain ⟨hlength, hfits, hplain⟩ := h.fields (n := n) (by simp)
    have hwords : words isSpace (joined ' ' '\n' n.fields) = n.fields :=
      words_joined (by decide) (by decide) fun w hw => (hplain w hw).isWord
    refine (readNetwork_eq_some (h.sublist (by simp))).mpr ⟨⟨n.fields, ?_, rfl⟩, ?_, hfirst⟩
    · rw [(spaced_line hplain).2, scan_eq_words (by rw [hwords]; exact hfits), hwords,
        if_pos hlength]
    · rw [(spaced_line hplain).2]
      exact List.mem_append_right _ (List.mem_singleton_self _)
  exact hread

theorem fgets_networksText (h : NetworkInventory networks) :
    (Stream.mk (networksText networks) false).fgets 128 =
      (networksHeader ++ ['\n']) :: networks.map fun n => joined ' ' '\n' n.fields := by
  have htable := @Stream.fgets_table 128 networksHeader (networks.map (·.fields)) (by decide)
    fun ws hws => ?_
  · rwa [List.flatMap_map, List.map_map] at htable
  · obtain ⟨n, hn, rfl⟩ := List.mem_map.mp hws
    obtain ⟨hlength, hfits, hplain⟩ := h.fields hn
    have hbound : ([' '].intercalate n.fields).length ≤ _ := length_joined_le hlength hfits
    have hwidths : networkWidths.sum + networkWidths.length = 64 := rfl
    exact ⟨hplain, by omega⟩

/-- An inventory is read back from its text. -/
theorem hyperNetworksRead_text (h : NetworkInventory networks) :
    hyperNetworksRead (some ⟨networksText networks, false⟩) = some networks := by
  have hheader : cString (networksHeader ++ ['\n']) = networksHeader ++ ['\n'] := by decide
  rw [hyperNetworksRead, Option.bind_some, readNetworksFile, fgets_networksText h]
  dsimp only
  rw [if_pos hheader, readNetworks_text h]
  rfl

end Writing

/-! ## Looking up -/

/-- A name selects the bridge of its network, and nothing when no network has it. -/
theorem networkBridge_eq_some {file : Option Stream} {networks : List HyperNetwork}
    (hread : hyperNetworksRead file = some networks) (h : NetworkInventory networks)
    {name bridge : List Char} : networkBridge file name = some bridge ↔
      ∃ n ∈ networks, n.name = name ∧ n.bridge = bridge := by
  rw [networkBridge, hread, Option.bind_eq_bind, Option.bind_some, Option.map_eq_some_iff]
  constructor
  · intro hfind
    obtain ⟨n, hn, hbridge⟩ := hfind
    have hname := List.find?_some hn
    exact ⟨n, List.mem_of_find?_eq_some hn, (beq_iff_eq.mp hname).symm, hbridge⟩
  · intro hn
    obtain ⟨n, hn, rfl, rfl⟩ := hn
    cases hfind : networks.find? fun m => n.name == m.name with
    | none => exact absurd (List.find?_eq_none.mp hfind n hn) (by simp)
    | some m =>
      have hname : n.name = m.name := by simpa using List.find?_some hfind
      have heq := List.inj_on_of_nodup_map h.names (List.mem_of_find?_eq_some hfind) hn hname.symm
      exact ⟨m, rfl, congrArg _ heq⟩

/-! ## The inventory -/

/-- Network inventories are free of conflicts. The names of an inventory that is accepted are
distinct, and so are its interfaces, bridges and uplinks together, each of which ends inside its
field; every inventory is read back from its text; and a name selects the bridge of the one network
that has it. -/
theorem network_inventory_conflict_free :
    (∀ file networks, hyperNetworksRead (some file) = some networks →
      NetworkInventory networks ∧ ∀ i ∈ interfaces networks, i.length < 16 ∧ '\x00' ∉ i) ∧
    (∀ networks, NetworkInventory networks →
      hyperNetworksRead (some ⟨networksText networks, false⟩) = some networks) ∧
    ∀ file networks, hyperNetworksRead file = some networks → ∀ name,
      (∀ n ∈ networks, n.name = name →
        networkBridge file name = some n.bridge ∧ ∀ m ∈ networks, m.name = name → m = n) ∧
      (networkBridge file name = none ↔ ∀ n ∈ networks, n.name ≠ name) := by
  have hsound (file : Stream) (networks : List HyperNetwork)
      (h : hyperNetworksRead (some file) = some networks) : NetworkInventory networks := by
    obtain ⟨-, rest, -, -, hread⟩ := readNetworksFile_lines h
    exact readNetworks_inventory hread
  refine ⟨fun file networks h => ⟨hsound file networks h, fun i hi => ?_⟩,
    fun networks h => hyperNetworksRead_text h, fun file networks h name => ?_⟩
  · -- every name of an interface has its bound
    obtain ⟨n, hn, hi⟩ := List.mem_flatMap.mp hi
    obtain ⟨-, hbridge, huplink⟩ := (hsound file networks h).valid n hn
    have hname : IsInterfaceName i := by
      simp only [List.mem_cons, List.not_mem_nil, or_false] at hi
      obtain rfl | rfl := hi
      · exact hbridge
      · exact huplink
    exact ⟨Nat.lt_succ_of_le hname.length, hname.not_nul⟩
  · -- the table is looked up by name
    obtain ⟨file, rfl⟩ : ∃ f, file = some f := by
      cases file with
      | none => cases h
      | some f => exact ⟨f, rfl⟩
    have hinv := hsound file networks h
    refine ⟨fun n hn hname => ⟨(networkBridge_eq_some h hinv).mpr ⟨n, hn, hname, rfl⟩,
      fun m hm hm' => List.inj_on_of_nodup_map hinv.names hm hn (hm'.trans hname.symm)⟩, ?_⟩
    constructor
    · intro hnone n hn hname
      have hsome := (networkBridge_eq_some h hinv).mpr ⟨n, hn, hname, rfl⟩
      rw [hnone] at hsome
      cases hsome
    · intro hno
      cases hbridge : networkBridge (some file) name with
      | none => rfl
      | some bridge =>
        obtain ⟨n, hn, hname, -⟩ := (networkBridge_eq_some h hinv).mp hbridge
        exact absurd hname (hno n hn)

end HyperIoVm
