import HyperIoVm.ClientConfig

/-!
# What a client table says

The tables that `hyper_clients_read` accepts, under any of the three headers, are those of
`ClientTable`; and every such table, written one client a line, is read back.
-/

namespace HyperIoVm

open Data

/-! ## Entries -/

/-- A name that matches `[a-z][a-z0-9-]*`, of 31 characters at most. -/
structure IsNetworkName (name : List Char) : Prop where
  first : ∃ c rest, name = c :: rest ∧ c.isLower = true
  rest : ∀ c ∈ name, c.isLower = true ∨ c.isDigit = true ∨ c = '-'
  length : name.length ≤ 31

/-- The entry has a network, with the address `mac`. -/
structure HyperClient.HasMac (client : HyperClient) (mac : Bytes) : Prop where
  networked : client.networked = true
  unicast : IsUnicastMac mac
  text : client.mac = macText mac

/-- An entry of a client table. -/
structure HyperClient.Valid (client : HyperClient) : Prop where
  id : client.id.toNat < 128
  queues : 1 ≤ client.requestQueues.toNat ∧ client.requestQueues.toNat ≤ 4
  sg : 2 ≤ client.sgPrealloc.toNat ∧ client.sgPrealloc.toNat ≤ 2048
  resources : client.netResources.Valid
  network : client.network = ['-'] ∧ client.mac = ['-'] ∨
    client.id ≠ 0 ∧ IsNetworkName client.network ∧ ∃ mac, client.HasMac mac

/-- The entry has the defaults for what a version lacks. -/
structure HyperClient.Defaults (version : ClientsVersion) (client : HyperClient) : Prop where
  scsi : version.resources = false → client.requestQueues = 4 ∧ client.sgPrealloc = 128
  network : version.netResources = false → client.netResources = ⟨1000, 0⟩

/-- Entries with identifiers and addresses of their own. -/
structure DistinctClients (clients : List HyperClient) : Prop where
  bound : clients.length ≤ 128
  ids : (clients.map (·.id)).Nodup
  macs : clients.Pairwise fun a b => ∀ mac, a.HasMac mac → ¬ b.HasMac mac
  valid : ∀ client ∈ clients, client.Valid

/-- A client table: one entry is the owner's. -/
structure ClientTable (clients : List HyperClient) : Prop extends DistinctClients clients where
  owner : clients.countP (·.id == 0) = 1

/-- The owner's entry has no network. -/
theorem HyperClient.Valid.owner {client : HyperClient} (h : client.Valid) (hid : client.id = 0) :
    client.network = ['-'] := by
  obtain h | h := h.network
  · exact h.1
  · exact absurd hid h.1

/-! ## Reading -/

section Reading

variable {version : ClientsVersion} {fields : List (List Char)} {client : HyperClient}

theorem networkName_iff {name : List Char} (h : name.length ≤ 31) :
    networkName name = true ↔ IsNetworkName name := by
  rw [networkName, Bool.and_eq_true, List.all_eq_true]
  simp only [Bool.or_eq_true, beq_iff_eq, or_assoc]
  constructor
  · intro hname
    refine ⟨?_, hname.2, h⟩
    cases name with
    | nil => cases hname.1
    | cons c rest => exact ⟨c, rest, rfl, hname.1⟩
  · intro hname
    refine ⟨?_, hname.rest⟩
    obtain ⟨c, rest, rfl, hc⟩ := hname.first
    exact hc

theorem clientNetworkValid_iff {id : UInt32} {network mac : List Char} (h : network.length ≤ 31) :
    clientNetworkValid id network mac = true ↔ network = ['-'] ∧ mac = ['-'] ∨
      id ≠ 0 ∧ network ≠ ['-'] ∧ IsNetworkName network ∧
        ∃ bytes, IsUnicastMac bytes ∧ mac = macText bytes := by
  rw [clientNetworkValid]
  by_cases hdash : network = ['-']
  · simp [hdash]
  · rw [if_neg (by simpa using hdash)]
    simp only [Bool.and_eq_true, bne_iff_ne, networkName_iff h, Option.isSome_iff_exists,
      hyperMacParse_eq_some, hdash, false_and, false_or, not_false_iff, true_and, and_assoc, ne_eq]

theorem clientNetResources_valid {rx tx : List Char} {r : NetworkResources}
    (h : clientNetResources version rx tx = some r) :
    r.Valid ∧ (version.netResources = false → r = ⟨1000, 0⟩) := by
  rw [clientNetResources] at h
  split at h
  next hversion =>
    exact ⟨(hyperNetworkResourcesParse_eq_some.mp h).2.2,
      fun hfalse => by simp [hversion] at hfalse⟩
  next =>
    obtain rfl := Option.some_inj.mp h
    exact ⟨⟨by decide, .inl rfl⟩, fun _ => rfl⟩

theorem clientScsi_valid {queues sg : List Char} {scsi : ScsiResources}
    (h : clientScsi version queues sg = some scsi) :
    hyperScsiResourcesValid scsi.requestQueues scsi.sgPrealloc = true ∧
      (version.resources = false → scsi.requestQueues = 4 ∧ scsi.sgPrealloc = 128) := by
  rw [clientScsi] at h
  split at h
  next hversion =>
    dsimp only at h
    split at h
    next hvalid =>
      obtain rfl := Option.some_inj.mp h
      exact ⟨(Bool.and_eq_true _ _ ▸ hvalid).2, fun hfalse => by simp [hversion] at hfalse⟩
    next => cases h
  next =>
    obtain rfl := Option.some_inj.mp h
    exact ⟨by decide, fun _ => ⟨rfl, rfl⟩⟩

theorem clientId_lt {text : List Char} {id : UInt32} (h : clientId text = some id) :
    id.toNat < 128 := by
  rw [clientId] at h
  split at h
  next hvalid =>
    obtain rfl := Option.some_inj.mp h
    have hlt : (strtoul text).1.toNat < 128 := by
      simp only [Bool.and_eq_true, decide_eq_true_eq] at hvalid
      exact hvalid.2
    rw [UInt64.toNat_toUInt32]
    omega
  next => cases h

/-- A line that passes the checks is a valid entry. -/
theorem parseClient_valid (hnetwork : (fields.getD 1 []).length ≤ 31)
    (h : parseClient version fields = some client) : client.Valid ∧ client.Defaults version := by
  simp only [parseClient, Option.bind_eq_bind, Option.bind_eq_some_iff] at h
  obtain ⟨netResources, hnet, scsi, hscsi, id, hid, h⟩ := h
  obtain ⟨hresources, hdefault⟩ := clientNetResources_valid hnet
  obtain ⟨hvalid, hdefault'⟩ := clientScsi_valid hscsi
  obtain ⟨hqueues, hsg⟩ := hyperScsiResourcesValid_iff.mp hvalid
  split at h
  next hnetworkValid =>
    obtain rfl := Option.some_inj.mp h
    refine ⟨⟨clientId_lt hid, hqueues, hsg, hresources, ?_⟩, hdefault', hdefault⟩
    refine ((clientNetworkValid_iff hnetwork).mp hnetworkValid).imp_right fun h => ?_
    obtain ⟨hid, hdash, hname, mac, hmac, htext⟩ := h
    exact ⟨hid, hname, mac, bne_iff_ne.mpr hdash, hmac, htext⟩
  next => cases h

/-- A line that is read is a valid entry, which shares nothing with the earlier ones. -/
theorem readClient_valid {clients : List HyperClient} {buffer : List Char}
    (h : readClient version clients buffer = some client) :
    (client.Valid ∧ client.Defaults version) ∧ clients.length ≠ 128 ∧
      '\n' ∈ cString buffer ∧ ∀ earlier ∈ clients, client.clashes earlier = false := by
  simp only [readClient, Option.bind_eq_bind, Option.bind_eq_some_iff] at h
  obtain ⟨fields, hfields, client', hclient, h⟩ := h
  split at h
  next => cases h
  next hvalid =>
    obtain rfl := Option.some_inj.mp h
    simp only [not_or, Decidable.not_not] at hvalid
    obtain ⟨hlength, hnewline, hclash⟩ := hvalid
    refine ⟨parseClient_valid ?_ hclient, hlength, hnewline, fun earlier hearlier => ?_⟩
    · exact (scan_fits hfields).2.1.length_getD (by cases version <;> rfl)
    · simpa using fun h => hclash (List.any_eq_true.mpr ⟨earlier, hearlier, h⟩)

/-- The entries read so far, with one more. -/
theorem DistinctClients.concat {clients : List HyperClient} (h : DistinctClients clients)
    (hclient : client.Valid) (hroom : clients.length ≠ 128)
    (hnew : ∀ earlier ∈ clients, client.clashes earlier = false) :
    DistinctClients (clients ++ [client]) where
  bound := by
    have hbound := h.bound
    rw [List.length_append, List.length_singleton]
    omega
  ids := by
    rw [List.map_append, List.map_singleton, ← List.concat_eq_append, List.nodup_concat]
    refine ⟨fun hmem => ?_, h.ids⟩
    obtain ⟨earlier, hearlier, hid⟩ := List.mem_map.mp hmem
    have hclash := hnew earlier hearlier
    simp [HyperClient.clashes, hid] at hclash
  macs := by
    refine List.pairwise_append.mpr ⟨h.macs, List.pairwise_singleton _ _, ?_⟩
    intro earlier hearlier client' hclient' mac hmac hmac'
    obtain rfl := List.mem_singleton.mp hclient'
    have hclash := hnew earlier hearlier
    simp [HyperClient.clashes, hmac'.networked, hmac.text, hmac'.text] at hclash
  valid c hc := by
    obtain hc | hc := List.mem_append.mp hc
    · exact h.valid c hc
    · rw [List.mem_singleton.mp hc]
      exact hclient

/-- The entries that are read are distinct, and have the defaults of the version. -/
theorem readClients_distinct {clients : List HyperClient} {rest : List (List Char)}
    (hread : readEntries (readClient version) [] rest = some clients) :
    DistinctClients clients ∧ ∀ client ∈ clients, client.Defaults version := by
  have hempty : DistinctClients [] :=
    ⟨Nat.zero_le _, List.nodup_nil, .nil, fun _ h => absurd h List.not_mem_nil⟩
  refine readEntries_keeps (P := fun clients => DistinctClients clients ∧
      ∀ client ∈ clients, client.Defaults version) (fun clients line client h hclient => ?_)
    ⟨hempty, fun _ h => absurd h List.not_mem_nil⟩ hread
  obtain ⟨⟨hvalid, hdefault⟩, hroom, -, hnew⟩ := readClient_valid hclient
  refine ⟨h.1.concat hvalid hroom hnew, fun c hc => ?_⟩
  obtain hc | hc := List.mem_append.mp hc
  · exact h.2 c hc
  · rw [List.mem_singleton.mp hc]
    exact hdefault

theorem clientsVersion_eq_some {line : List Char} (h : clientsVersion line = some version) :
    line = version.header ++ ['\n'] := by
  simpa using List.find?_some h

/-- What a file that is read says: a header, then a line for each client. -/
theorem readClientsFile_lines {file : Stream} {clients : List HyperClient}
    (h : readClientsFile file = some clients) : file.fails = false ∧
      clients.countP (·.id == 0) = 1 ∧ ∃ version rest,
        lines file.contents = (version.header ++ ['\n']) :: rest ∧
          (∀ line ∈ rest, cString line = line) ∧
            readEntries (readClient version) [] rest = some clients := by
  rw [readClientsFile] at h
  split at h
  next => cases h
  next buffer buffers hfgets =>
    simp only [Option.bind_eq_bind, Option.bind_eq_some_iff] at h
    obtain ⟨version, hversion, clients', hclients, h⟩ := h
    split at h
    next => cases h
    next hend =>
      obtain rfl := Option.some_inj.mp h
      rw [not_or, Bool.not_eq_true, Decidable.not_not] at hend
      obtain ⟨hlines, hcstring⟩ := Stream.lines_of_table hend.1 hfgets
        (clientsVersion_eq_some hversion)
        (fun _ _ _ hclient => (readClient_valid hclient).2.2.1) hclients
      exact ⟨hend.1, hend.2, version, buffers, hlines, hcstring, hclients⟩

end Reading

/-! ## Writing -/

/-- The fields of an entry's line. -/
def HyperClient.fields (version : ClientsVersion) (client : HyperClient) : List (List Char) :=
  [decimal client.id.toNat, client.network, client.mac] ++
    (if version.resources then
      [decimal client.requestQueues.toNat, decimal client.sgPrealloc.toNat] else []) ++
    (if version.netResources then
      [decimal client.netResources.rxBacklogPackets.toNat,
        decimal client.netResources.txBufferBytes.toNat] else [])

/-- A table as text: the header, then the fields of each entry with spaces between them. -/
def clientsText (version : ClientsVersion) (clients : List HyperClient) : List Char :=
  (version.header ++ ['\n']) ++
    clients.flatMap fun client => joined ' ' '\n' (client.fields version)

section Writing

variable {version : ClientsVersion} {client : HyperClient}

theorem IsNetworkName.isPlain {name : List Char} (h : IsNetworkName name) : IsPlain name := by
  refine ⟨?_, fun c hc => ?_⟩
  · obtain ⟨c, rest, rfl, -⟩ := h.first
    exact List.cons_ne_nil _ _
  · obtain hc | hc | rfl := h.rest c hc
    · exact (toNat_of_isLower hc).1.trans_lt' (by decide)
    · exact (toNat_of_isDigit hc).1.trans_lt' (by decide)
    · decide

theorem IsNetworkName.ne_dash {name : List Char} (h : IsNetworkName name) : name ≠ ['-'] := by
  obtain ⟨c, rest, rfl, hc⟩ := h.first
  intro heq
  rw [(List.cons.inj heq).1] at hc
  cases hc

/-- The name and the address of an entry are plain words that fit their fields. -/
theorem HyperClient.Valid.network_plain (h : client.Valid) :
    (IsPlain client.network ∧ client.network.length ≤ 31) ∧
      IsPlain client.mac ∧ client.mac.length ≤ 17 := by
  have hdash : IsPlain ['-'] := by
    refine ⟨List.cons_ne_nil _ _, fun c hc => ?_⟩
    rw [List.mem_singleton.mp hc]
    decide
  obtain ⟨hnetwork, hmac⟩ | ⟨-, hname, mac, hmac⟩ := h.network
  · rw [hnetwork, hmac]
    exact ⟨⟨hdash, by decide⟩, hdash, by decide⟩
  · have hne : mac ≠ [] := List.ne_nil_of_length_eq_add_one hmac.unicast.length
    refine ⟨⟨hname.isPlain, hname.length⟩, ?_⟩
    rw [hmac.text]
    exact ⟨isPlain_macText hne, by rw [macText_length hne, hmac.unicast.length]⟩

/-- The fields are plain words that fit the widths of the format. -/
theorem HyperClient.Valid.fields (h : client.Valid) (version : ClientsVersion) :
    (client.fields version).length = version.widths.length ∧
      Fits version.widths (client.fields version) ∧ ∀ w ∈ client.fields version, IsPlain w := by
  obtain ⟨⟨hnetwork, hlength⟩, hmac, hlength'⟩ := h.network_plain
  have hdecimal {n k : Nat} (hk : 0 < k) (hn : n < 10 ^ k) : (decimal n).length ≤ k :=
    decimal_length_le hk hn
  have hid : (decimal client.id.toNat).length ≤ 7 := hdecimal (by decide) (h.id.trans (by decide))
  have hqueues : (decimal client.requestQueues.toNat).length ≤ 7 :=
    hdecimal (by decide) (h.queues.2.trans_lt (by decide))
  have hsg : (decimal client.sgPrealloc.toNat).length ≤ 7 :=
    hdecimal (by decide) (h.sg.2.trans_lt (by decide))
  have hrx : (decimal client.netResources.rxBacklogPackets.toNat).length ≤ 11 :=
    hdecimal (by decide) (h.resources.rx.2.trans_lt (by decide))
  have htx : (decimal client.netResources.txBufferBytes.toNat).length ≤ 11 := by
    refine hdecimal (by decide) ?_
    obtain htx | htx := h.resources.tx
    · rw [htx]
      decide
    · exact htx.2.trans_lt (by decide)
  cases version <;>
    simp [HyperClient.fields, ClientsVersion.widths, ClientsVersion.resources,
      ClientsVersion.netResources, Fits, isPlain_decimal, *]

theorem clientId_decimal {id : UInt32} (h : id.toNat < 128) :
    clientId (decimal id.toNat) = some id := by
  have hvalue : (UInt64.ofNat id.toNat).toNat = id.toNat :=
    UInt64.toNat_ofNat_of_lt' (show id.toNat < 2 ^ 64 by omega)
  rw [clientId, strtoul_digits (decimal_ne_nil _) decimal_digits (by
    rw [digitsValue_decimal]; omega), digitsValue_decimal, if_pos]
  · refine congrArg some (UInt32.toNat_inj.mp ?_)
    rw [UInt64.toNat_toUInt32, hvalue]
    omega
  · rw [Bool.and_eq_true, List.all_eq_true, decide_eq_true_eq, hvalue]
    exact ⟨decimal_digits, h⟩

theorem clientScsi_decimal {queues sg : UInt32}
    (h : (1 ≤ queues.toNat ∧ queues.toNat ≤ 4) ∧ 2 ≤ sg.toNat ∧ sg.toNat ≤ 2048)
    (hversion : version.resources = true) :
    clientScsi version (decimal queues.toNat) (decimal sg.toNat) = some ⟨queues, sg⟩ := by
  have hread (v : UInt32) : (strtoul (decimal v.toNat)).1.toUInt32 = v := by
    have hv : v.toNat < 2 ^ 32 := v.toNat_lt
    rw [strtoul_digits (decimal_ne_nil _) decimal_digits (by rw [digitsValue_decimal]; omega),
      digitsValue_decimal]
    refine UInt32.toNat_inj.mp ?_
    rw [UInt64.toNat_toUInt32, UInt64.toNat_ofNat_of_lt' (show v.toNat < 2 ^ 64 by omega)]
    omega
  rw [clientScsi, if_pos hversion]
  dsimp only
  rw [hread, hread, if_pos]
  simp only [Bool.and_eq_true, List.all_eq_true, hyperScsiResourcesValid_iff]
  exact ⟨⟨decimal_digits, decimal_digits⟩, h⟩

/-- An entry is read back from its fields. -/
theorem parseClient_fields (h : client.Valid) (hdefaults : client.Defaults version) :
    parseClient version (client.fields version) = some client := by
  have hnet : clientNetResources version ((client.fields version).getD 5 [])
      ((client.fields version).getD 6 []) = some client.netResources := by
    cases version with
    | v3 | v4 => exact congrArg some (hdefaults.network rfl).symm
    | v5 => exact hyperNetworkResourcesParse_decimal h.resources
  have hscsi : clientScsi version ((client.fields version).getD 3 [])
      ((client.fields version).getD 4 []) = some ⟨client.requestQueues, client.sgPrealloc⟩ := by
    cases version with
    | v3 =>
      obtain ⟨hqueues, hsg⟩ := hdefaults.scsi rfl
      rw [hqueues, hsg]
      rfl
    | v4 | v5 => exact clientScsi_decimal ⟨h.queues, h.sg⟩ rfl
  have hnetwork : clientNetworkValid client.id client.network client.mac = true := by
    refine (clientNetworkValid_iff h.network_plain.1.2).mpr (h.network.imp_right fun h => ?_)
    obtain ⟨hid, hname, mac, hmac⟩ := h
    exact ⟨hid, hname.ne_dash, hname, mac, hmac.unicast, hmac.text⟩
  rw [parseClient]
  dsimp only
  rw [hnet, hscsi, show clientId ((client.fields version).getD 0 []) = some client.id from
    clientId_decimal h.id]
  exact if_pos hnetwork

theorem readClient_fields (h : client.Valid) (hdefaults : client.Defaults version)
    {clients : List HyperClient} (hroom : clients.length < 128)
    (hnew : ∀ earlier ∈ clients, client.clashes earlier = false) :
    readClient version clients (joined ' ' '\n' (client.fields version)) = some client := by
  obtain ⟨hlength, hfits, hplain⟩ := h.fields version
  have hwords : words isSpace (joined ' ' '\n' (client.fields version)) = client.fields version :=
    words_joined (by decide) (by decide) fun w hw => (hplain w hw).isWord
  have hscan : scan isSpace version.widths (joined ' ' '\n' (client.fields version)) =
      some (client.fields version) := by
    rw [scan_eq_words (by rw [hwords]; exact hfits), hwords, if_pos hlength]
  simp only [readClient, Option.bind_eq_bind, (spaced_line hplain).2, hscan, Option.bind_some,
    parseClient_fields h hdefaults]
  rw [if_neg]
  simp only [not_or, Decidable.not_not, Bool.not_eq_true, List.any_eq_false]
  refine ⟨hroom.ne, ?_, fun earlier hearlier => by simpa using hnew earlier hearlier⟩
  exact List.mem_append_right _ (List.mem_singleton_self _)

/-- Entries that share nothing with the earlier ones do not clash with them. -/
theorem DistinctClients.not_clashes {clients : List HyperClient}
    (h : DistinctClients (clients ++ [client])) : ∀ earlier ∈ clients,
      client.clashes earlier = false := by
  intro earlier hearlier
  have hid : earlier.id ≠ client.id := by
    have hids := h.ids
    rw [List.map_append, List.map_singleton, ← List.concat_eq_append, List.nodup_concat] at hids
    exact fun heq => hids.1 (List.mem_map.mpr ⟨earlier, hearlier, heq⟩)
  have hmacs := (List.pairwise_append.mp h.macs).2.2 earlier hearlier client
    (List.mem_singleton_self _)
  rw [HyperClient.clashes, Bool.or_eq_false_iff, Bool.and_eq_false_iff]
  refine ⟨by simpa using hid, ?_⟩
  obtain ⟨hdash, -⟩ | ⟨-, -, mac, hmac⟩ := (h.valid client (by simp)).network
  · exact .inl (by simpa [HyperClient.networked] using hdash)
  · refine .inr (beq_eq_false_iff_ne.mpr fun heq => ?_)
    obtain ⟨-, hdash⟩ | ⟨-, -, mac', hmac'⟩ := (h.valid earlier (by simp [hearlier])).network
    · have hlength := congrArg List.length (heq.symm.trans hdash)
      rw [hmac.text, macText_length (List.ne_nil_of_length_eq_add_one hmac.unicast.length),
        hmac.unicast.length] at hlength
      cases hlength
    · exact hmacs mac ⟨hmac'.networked, hmac.unicast, heq.trans hmac.text⟩ hmac

/-- The entries before a point are distinct too. -/
theorem DistinctClients.sublist {clients clients' : List HyperClient} (h : DistinctClients clients')
    (hsub : clients.Sublist clients') : DistinctClients clients where
  bound := hsub.length_le.trans h.bound
  ids := h.ids.sublist (hsub.map _)
  macs := h.macs.sublist hsub
  valid client hclient := h.valid client (hsub.subset hclient)

/-- The lines of a table are read back. -/
theorem readClients_text {clients : List HyperClient} (h : DistinctClients clients)
    (hdefaults : ∀ client ∈ clients, client.Defaults version) :
    readEntries (readClient version) []
      (clients.map fun client => joined ' ' '\n' (client.fields version)) = some clients := by
  have hread : readEntries (readClient version) []
      (clients.map fun client => joined ' ' '\n' (client.fields version)) =
        some ([] ++ clients) := by
    refine readEntries_text fun pre client post heq => ?_
    rw [List.nil_append] at heq
    subst heq
    have hfirst : DistinctClients (pre ++ [client]) := h.sublist (by simp)
    have hbound := hfirst.bound
    rw [List.length_append, List.length_singleton] at hbound
    exact readClient_fields (h.valid client (by simp)) (hdefaults client (by simp)) (by omega)
      hfirst.not_clashes
  exact hread

theorem fgets_clientsText {clients : List HyperClient} (h : ∀ client ∈ clients, client.Valid) :
    (Stream.mk (clientsText version clients) false).fgets 160 = (version.header ++ ['\n']) ::
      clients.map fun client => joined ' ' '\n' (client.fields version) := by
  have htable := @Stream.fgets_table 160 version.header
    (clients.map (·.fields version)) (by cases version <;> decide) fun ws hws => ?_
  · rwa [List.flatMap_map, List.map_map] at htable
  · obtain ⟨client, hclient, rfl⟩ := List.mem_map.mp hws
    obtain ⟨hlength, hfits, hplain⟩ := (h client hclient).fields version
    have hbound : ([' '].intercalate (client.fields version)).length ≤ _ :=
      length_joined_le hlength hfits
    have hwidths : version.widths.sum + version.widths.length ≤ 98 := by cases version <;> decide
    exact ⟨hplain, by omega⟩

end Writing

/-! ## The table -/

/-- The client table is read soundly, and reading inverts writing. What `hyper_clients_read` accepts
is a client table under one of the three headers, with the defaults for what that version lacks;
and every client table that a version can express is read back from its text. -/
theorem client_table_sound_and_complete :
    (∀ file clients, hyperClientsRead (some file) = some clients →
      ClientTable clients ∧ ∃ version rest,
        lines file.contents = (version.header ++ ['\n']) :: rest ∧
          ∀ client ∈ clients, client.Defaults version) ∧
    ∀ version clients, ClientTable clients → (∀ client ∈ clients, client.Defaults version) →
      hyperClientsRead (some ⟨clientsText version clients, false⟩) = some clients := by
  refine ⟨fun file clients h => ?_, fun version clients htable hdefaults => ?_⟩
  · obtain ⟨-, howner, version, rest, hlines, -, hread⟩ := readClientsFile_lines h
    obtain ⟨hdistinct, hdefaults⟩ := readClients_distinct hread
    exact ⟨⟨hdistinct, howner⟩, version, rest, hlines, hdefaults⟩
  · have hversion : clientsVersion (cString (version.header ++ ['\n'])) = some version := by
      cases version <;> decide
    have hread := readClients_text htable.toDistinctClients hdefaults
    show readClientsFile _ = _
    rw [readClientsFile, fgets_clientsText htable.valid]
    dsimp only
    rw [hversion, Option.bind_eq_bind, Option.bind_some, hread, Option.bind_eq_bind,
      Option.bind_some, if_neg]
    simp [htable.owner]

example : hyperClientsRead (some ⟨"hyper.clients.v4\n0 - - 4 128\n1 - - 1 32\n".toList, false⟩) =
    some [⟨0, 4, 128, ⟨1000, 0⟩, ['-'], ['-']⟩, ⟨1, 1, 32, ⟨1000, 0⟩, ['-'], ['-']⟩] := by
  decide +kernel

end HyperIoVm
