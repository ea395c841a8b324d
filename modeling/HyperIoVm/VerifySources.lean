import Mathlib.Data.List.AList
import HyperIoVm.Assemble

/-!
# The corresponding sources (`tools/publish.py`)

`verify_sources` folds what a build has recorded into one map from names to hashes, and checks the
members of the source archive off while it streams them. The names of the upstream components are
the last parts of their URLs, and two of them that are the same are one item of the map.
-/

namespace HyperIoVm

open Data

/-! ## The metadata of a build -/

/-- A dictionary from names to hashes. -/
abbrev Hashes := AList fun _ : String => String

/-- A component in `source_lock`. -/
structure LockedSource where
  url : String
  sha256 : String

/-- What `verify_sources` looks at; a key that is missing is `none`. -/
structure BuildMetadata where
  sourceRevision : Option String
  sourceDirty : Option Bool
  sourceFiles : Hashes
  externalModuleSourceSha256 : Option String
  platform : Option String
  kernelConfigSha256 : Option String
  busyboxConfigSha256 : Option String
  compilerSha256 : Option String
  sourceLock : String → Option LockedSource

/-- `REQUIRED_SOURCES`. -/
def requiredSources : List String :=
  ["Makefile", "tools/build.py", "tools/guest_agent.py", "rootfs/usr/bin/hyper-guest-agent",
    "patches/qemu/0001-qga-read-only-memory-statistics.patch", "scripts/assemble-io-vm.py",
    "rootfs/init", "include/hyper_io.h", "include/hyper_io_layout.h",
    "include/hyper_io_session.h", "service/block.c", "service/block-target.c", "service/block.h",
    "service/client-config.c", "include/hyper_clients.h", "include/hyper_block_policy.h",
    "service/hyper-io-supervisor.c", "modules/guest-memory/Makefile",
    "modules/guest-memory/memory.c", "modules/guest-memory/granules.c",
    "modules/guest-memory/granules.h", "modules/io-bridge/Makefile",
    "modules/io-bridge/hyper_io_bridge.c", "service/hyper-io-service.c",
    "tests/io-vm/business-disk.c", "sources.lock.json",
    "patches/linux/0001-vhost-order-work-node-reuse.patch",
    "patches/linux/0002-vhost-scsi-per-instance-resources.patch",
    "include/hyper_scsi_resources.h", "configs/linux-aarch64.config", "configs/busybox.config",
    "LICENSE", "LICENSES/GPL-2.0-only.txt"]

/-- `module_paths`. -/
def modulePaths : List String :=
  ["include/hyper_io.h", "include/hyper_io_layout.h", "modules/guest-memory/Makefile",
    "modules/guest-memory/memory.c", "modules/guest-memory/granules.c",
    "modules/guest-memory/granules.h", "modules/io-bridge/Makefile",
    "modules/io-bridge/hyper_io_bridge.c"]

/-- The locked upstream components. -/
def upstreamComponents : List String :=
  ["linux", "busybox", "qemu", "glib", "libffi", "pcre2", "zlib"]

/-- A member of the source archive. -/
structure TarMember where
  name : String
  isfile : Bool
  size : Int
  data : Bytes

/-! ## The expected items -/

/-- `url.rsplit('/', 1)[1]`. -/
def urlName (url : String) : Option String :=
  if '/' ∈ url.toList then
    some (.ofList (url.toList.reverse.takeWhile (· != '/')).reverse)
  else none

/-- `re.fullmatch(r'[0-9a-f]{64}', value)`. -/
def isSha256 (value : String) : Bool :=
  value.toList.length == 64 && value.toList.all fun c => c.isDigit || ('a' ≤ c && c ≤ 'f')

/-- The items of the sources of this repository. -/
def expectedFiles (files : Hashes) : Hashes :=
  files.entries.foldl (fun expected p => expected.insert ("hyper-io-vm/" ++ p.1) p.2) ∅

/-- The archive's name for a component, and its hash. -/
def upstreamItem (metadata : BuildMetadata) (component : String) : Option (String × String) := do
  let identity ← metadata.sourceLock component
  let name ← urlName identity.url
  return ("upstream/" ++ name, identity.sha256)

/-- The loop over the components. -/
def expectUpstream (metadata : BuildMetadata) : List String → Hashes → Option Hashes
  | [], expected => some expected
  | component :: components, expected => do
    let (name, hash) ← upstreamItem metadata component
    expectUpstream metadata components (expected.insert name hash)

/-- `expected`. -/
def expectedSources (metadata : BuildMetadata) : Option Hashes := do
  let expected := expectedFiles metadata.sourceFiles
  let expected := expected.insert "resolved/linux.config" (← metadata.kernelConfigSha256)
  let expected := expected.insert "resolved/busybox.config" (← metadata.busyboxConfigSha256)
  let expected := expected.insert "resolved/compiler.txt" (← metadata.compilerSha256)
  expectUpstream metadata upstreamComponents expected

/-! ## Verification -/

section Verification

variable (sha256 : Bytes → String)

/-- The checks before the archive is opened. -/
def metadataAccepted (metadata : BuildMetadata) (revision : String) : Bool :=
  metadata.sourceRevision == some revision && metadata.sourceDirty == some false &&
    requiredSources.all (fun name => (metadata.sourceFiles.lookup name).isSome) &&
    metadata.externalModuleSourceSha256 == some (sha256 (utf8Bytes (String.join
      (modulePaths.map fun name => (metadata.sourceFiles.lookup name).getD "")))) &&
    metadata.platform.any fun platform =>
      platform != "rpi5" || (metadata.sourceFiles.lookup "configs/linux-rpi5.config").isSome

/-- `Path(name)` is neither absolute nor goes up. -/
def isRelative (name : String) : Bool :=
  name.toList.head? != some '/' && !(name.toList.splitOn '/').contains ['.', '.']

/-- The loop over the members; what remains of the expected names. -/
def verifyMembers (expected : Hashes) : (total : Int) → (seen remaining : List String) →
    List TarMember → Option (List String)
  | _, _, remaining, [] => some remaining
  | total, seen, remaining, member :: members =>
    let total := total + member.size
    if !member.isfile ∨ !isRelative member.name ∨ member.name ∈ seen ∨ member.size < 0 ∨
        total > 2 * 1024 * mib then none
    else
      match expected.lookup member.name with
      | none => verifyMembers expected total (member.name :: seen) remaining members
      | some hash =>
        if sha256 member.data ≠ hash ∨ member.name ∉ remaining then none
        else
          verifyMembers expected total (member.name :: seen) (remaining.erase member.name) members

/-- `verify_sources`; an archive that cannot be read is `none`. -/
def verifySources (sources : Option (List TarMember)) (metadata : BuildMetadata)
    (revision : String) : Option Unit := do
  if !metadataAccepted sha256 metadata revision then none
  else do
    let expected ← expectedSources metadata
    if !expected.entries.all (fun p => isSha256 p.2) then none
    else do
      let members ← sources
      let remaining ← verifyMembers sha256 expected 0 [] expected.keys members
      if remaining ≠ [] then none else some ()

end Verification

/-! ## Completeness -/

/-- The archive has a member of that name with that hash. -/
def HasSource (sha256 : Bytes → String) (members : List TarMember) (name hash : String) : Prop :=
  ∃ m ∈ members, m.name = name ∧ sha256 m.data = hash

/-- Regular members with distinct relative names, and one for each recorded item. -/
structure SourcesComplete (sha256 : Bytes → String) (metadata : BuildMetadata)
    (members : List TarMember) : Prop where
  regular : ∀ m ∈ members, m.isfile = true ∧ isRelative m.name = true
  distinct : (members.map (·.name)).Nodup
  files : ∀ path hash, metadata.sourceFiles.lookup path = some hash →
    HasSource sha256 members ("hyper-io-vm/" ++ path) hash
  kernelConfig : ∃ hash, metadata.kernelConfigSha256 = some hash ∧
    HasSource sha256 members "resolved/linux.config" hash
  busyboxConfig : ∃ hash, metadata.busyboxConfigSha256 = some hash ∧
    HasSource sha256 members "resolved/busybox.config" hash
  compiler : ∃ hash, metadata.compilerSha256 = some hash ∧
    HasSource sha256 members "resolved/compiler.txt" hash
  upstream : ∀ c ∈ upstreamComponents, ∃ name hash, upstreamItem metadata c = some (name, hash) ∧
    HasSource sha256 members name hash

/-- Components that share a name share their hash. -/
def NamesAgree (metadata : BuildMetadata) (components : List String) : Prop :=
  ∀ c ∈ components, ∀ c' ∈ components, ∀ name hash hash',
    upstreamItem metadata c = some (name, hash) → upstreamItem metadata c' = some (name, hash') →
      hash = hash'

section Expected

variable {metadata : BuildMetadata} {components : List String} {expected final : Hashes}
  {name path hash : String}

theorem repository_name_ne {other : String} (h : other.toList.head? ≠ some 'h') :
    "hyper-io-vm/" ++ path ≠ other := by
  intro heq
  apply h
  rw [← heq, String.toList_append]
  rfl

/-- A file that comes later does not change the items of other files. -/
theorem foldl_expected_other {files : List (Sigma fun _ : String => String)}
    (h : path ∉ files.keys) :
    (files.foldl (fun expected p => expected.insert ("hyper-io-vm/" ++ p.1) p.2)
      expected).lookup ("hyper-io-vm/" ++ path) = expected.lookup ("hyper-io-vm/" ++ path) := by
  induction files generalizing expected with
  | nil => rfl
  | cons p files ih =>
    rw [List.keys_cons, List.mem_cons, not_or] at h
    rw [List.foldl_cons, ih h.2, AList.lookup_insert_ne]
    intro heq
    apply h.1
    rw [← String.toList_inj, String.toList_append, String.toList_append] at heq
    exact String.toList_inj.mp (List.append_cancel_left heq)

/-- Every file is an item. -/
theorem lookup_expectedFiles {files : Hashes} (h : files.lookup path = some hash) :
    (expectedFiles files).lookup ("hyper-io-vm/" ++ path) = some hash := by
  have hfold (entries : List (Sigma fun _ : String => String)) (expected : Hashes)
      (hkeys : entries.NodupKeys) (hmem : ⟨path, hash⟩ ∈ entries) :
      (entries.foldl (fun expected p => expected.insert ("hyper-io-vm/" ++ p.1) p.2)
        expected).lookup ("hyper-io-vm/" ++ path) = some hash := by
    induction entries generalizing expected with
    | nil => exact absurd hmem List.not_mem_nil
    | cons p entries ih =>
      rw [List.nodupKeys_cons] at hkeys
      rw [List.foldl_cons]
      obtain rfl | hmem := List.mem_cons.mp hmem
      · rw [foldl_expected_other hkeys.1, AList.lookup_insert]
      · exact ih _ hkeys.2 hmem
  exact hfold files.entries ∅ files.nodupKeys (AList.mem_lookup_iff.mp h)

/-- The components only change the items of their own names. -/
theorem expectUpstream_other (h : expectUpstream metadata components expected = some final)
    (hother : ∀ c ∈ components, ∀ hash, upstreamItem metadata c ≠ some (name, hash)) :
    final.lookup name = expected.lookup name := by
  induction components generalizing expected with
  | nil => rw [Option.some_inj.mp h]
  | cons c components ih =>
    obtain ⟨⟨name', hash⟩, hitem, h⟩ := Option.bind_eq_some_iff.mp h
    rw [ih h fun c hc => hother c (List.mem_cons_of_mem _ hc), AList.lookup_insert_ne]
    intro heq
    subst heq
    exact hother c List.mem_cons_self hash hitem

/-- Every component is an item, when those that share a name share their hash. -/
theorem lookup_expectUpstream (h : expectUpstream metadata components expected = some final)
    (hagree : NamesAgree metadata components) {c : String} (hc : c ∈ components) :
    ∃ name hash, upstreamItem metadata c = some (name, hash) ∧ final.lookup name = some hash := by
  induction components generalizing expected c with
  | nil => exact absurd hc List.not_mem_nil
  | cons first components ih =>
    obtain ⟨⟨name, hash⟩, hitem, hnext⟩ := Option.bind_eq_some_iff.mp h
    have hrest : NamesAgree metadata components := fun c hc c' hc' =>
      hagree c (List.mem_cons_of_mem _ hc) c' (List.mem_cons_of_mem _ hc')
    obtain hfirst | hc := List.mem_cons.mp hc
    · subst hfirst
      refine ⟨name, hash, hitem, ?_⟩
      -- the last component of this name is the one that is stored
      by_cases hlater : ∃ c' ∈ components, ∃ hash', upstreamItem metadata c' = some (name, hash')
      · obtain ⟨c', hc', hash', hitem'⟩ := hlater
        obtain ⟨name'', hash'', hitem'', hlookup⟩ := ih hnext hrest hc'
        obtain ⟨rfl, rfl⟩ := Prod.mk.inj (Option.some_inj.mp (hitem'.symm.trans hitem''))
        rw [hlookup, hagree c List.mem_cons_self c' (List.mem_cons_of_mem _ hc') _ _ _ hitem hitem']
      · rw [expectUpstream_other hnext fun c' hc' hash' hitem' => hlater ⟨c', hc', hash', hitem'⟩,
          AList.lookup_insert]
    · exact ih hnext hrest hc

/-- The items of the components are under `upstream/`. -/
theorem upstreamItem_head {c : String} (h : upstreamItem metadata c = some (name, hash)) :
    name.toList.head? = some 'u' := by
  obtain ⟨identity, -, h⟩ := Option.bind_eq_some_iff.mp h
  obtain ⟨part, -, h⟩ := Option.bind_eq_some_iff.mp h
  obtain ⟨rfl, -⟩ := Prod.mk.inj (Option.some_inj.mp h)
  rw [String.toList_append]
  rfl

/-- What `expected` says of each recorded item. -/
structure ExpectsAll (metadata : BuildMetadata) (expected : Hashes) : Prop where
  files : ∀ path hash, metadata.sourceFiles.lookup path = some hash →
    expected.lookup ("hyper-io-vm/" ++ path) = some hash
  kernelConfig : ∃ hash, metadata.kernelConfigSha256 = some hash ∧
    expected.lookup "resolved/linux.config" = some hash
  busyboxConfig : ∃ hash, metadata.busyboxConfigSha256 = some hash ∧
    expected.lookup "resolved/busybox.config" = some hash
  compiler : ∃ hash, metadata.compilerSha256 = some hash ∧
    expected.lookup "resolved/compiler.txt" = some hash
  upstream : ∀ c ∈ upstreamComponents, ∃ name hash, upstreamItem metadata c = some (name, hash) ∧
    expected.lookup name = some hash

theorem expectsAll (h : expectedSources metadata = some expected)
    (hagree : NamesAgree metadata upstreamComponents) : ExpectsAll metadata expected := by
  obtain ⟨kernelConfig, hkernel, h⟩ := Option.bind_eq_some_iff.mp h
  obtain ⟨busyboxConfig, hbusybox, h⟩ := Option.bind_eq_some_iff.mp h
  obtain ⟨compiler, hcompiler, h⟩ := Option.bind_eq_some_iff.mp h
  have hother (name : String) (hname : name.toList.head? ≠ some 'u') :=
    expectUpstream_other h fun c _ hash hitem => hname (upstreamItem_head hitem)
  refine ⟨fun path hash hpath => ?_, ⟨kernelConfig, hkernel, ?_⟩, ⟨busyboxConfig, hbusybox, ?_⟩,
    ⟨compiler, hcompiler, ?_⟩, fun c hc => lookup_expectUpstream h hagree hc⟩
  · have hne {other : String} (h : other.toList.head? ≠ some 'h') :=
      @repository_name_ne path other h
    rw [hother _ ?_, AList.lookup_insert_ne (hne (by decide)), AList.lookup_insert_ne
      (hne (by decide)), AList.lookup_insert_ne (hne (by decide)), lookup_expectedFiles hpath]
    rw [String.toList_append]
    exact fun heq => absurd (Option.some_inj.mp heq) (by decide)
  · rw [hother _ (by decide), AList.lookup_insert_ne (by decide),
      AList.lookup_insert_ne (by decide), AList.lookup_insert]
  · rw [hother _ (by decide), AList.lookup_insert_ne (by decide), AList.lookup_insert]
  · rw [hother _ (by decide), AList.lookup_insert]

end Expected

section Members

variable {sha256 : Bytes → String} {expected : Hashes} {total : Int}
  {seen remaining rest : List String} {members : List TarMember}

/-- What the loop has checked of the members. -/
structure MembersChecked (sha256 : Bytes → String) (expected : Hashes)
    (seen remaining : List String) (members : List TarMember) (rest : List String) : Prop where
  regular : ∀ m ∈ members, m.isfile = true ∧ isRelative m.name = true
  unseen : ∀ m ∈ members, m.name ∉ seen
  distinct : (members.map (·.name)).Nodup
  hashes : ∀ m ∈ members, ∀ hash, expected.lookup m.name = some hash → sha256 m.data = hash
  found : ∀ name ∈ remaining, name ∈ rest ∨ ∃ m ∈ members, m.name = name

/-- A member that has passed, before the others. -/
theorem MembersChecked.cons {m : TarMember} {remaining' : List String}
    (h : MembersChecked sha256 expected (m.name :: seen) remaining' members rest)
    (hregular : m.isfile = true ∧ isRelative m.name = true) (hunseen : m.name ∉ seen)
    (hhash : ∀ hash, expected.lookup m.name = some hash → sha256 m.data = hash)
    (hremaining : ∀ name ∈ remaining, name = m.name ∨ name ∈ remaining') :
    MembersChecked sha256 expected seen remaining (m :: members) rest where
  regular := List.forall_mem_cons.mpr ⟨hregular, h.regular⟩
  unseen := List.forall_mem_cons.mpr
    ⟨hunseen, fun m' hm' hmem => h.unseen m' hm' (List.mem_cons_of_mem _ hmem)⟩
  distinct := by
    rw [List.map_cons, List.nodup_cons]
    refine ⟨fun hmem => ?_, h.distinct⟩
    obtain ⟨m', hm', hname⟩ := List.mem_map.mp hmem
    exact h.unseen m' hm' (List.mem_cons.mpr (.inl hname))
  hashes := List.forall_mem_cons.mpr ⟨hhash, h.hashes⟩
  found name hname := by
    obtain rfl | hname := hremaining name hname
    · exact .inr ⟨m, List.mem_cons_self, rfl⟩
    · obtain hrest | ⟨m', hm', hfound⟩ := h.found name hname
      · exact .inl hrest
      · exact .inr ⟨m', List.mem_cons_of_mem _ hm', hfound⟩

theorem verifyMembers_checked
    (h : verifyMembers sha256 expected total seen remaining members = some rest) :
    MembersChecked sha256 expected seen remaining members rest := by
  induction members generalizing total seen remaining with
  | nil =>
    obtain rfl := Option.some_inj.mp h
    exact ⟨fun _ hm => absurd hm List.not_mem_nil, fun _ hm => absurd hm List.not_mem_nil,
      List.nodup_nil, fun _ hm => absurd hm List.not_mem_nil, fun _ hname => .inl hname⟩
  | cons m members ih =>
    rw [verifyMembers] at h
    split at h
    · -- no regular file, an absolute name, or one that was seen
      cases h
    rename_i hok
    simp only [not_or, Bool.not_eq_true, Bool.not_eq_false'] at hok
    obtain ⟨hfile, hrelative, hunseen, -⟩ := hok
    cases hlookup : expected.lookup m.name with
    | none =>
      -- a member that is not expected
      rw [hlookup] at h
      refine (ih h).cons ⟨hfile, hrelative⟩ hunseen (fun hash heq => ?_) fun name hname =>
        .inr hname
      rw [hlookup] at heq
      cases heq
    | some hash =>
      rw [hlookup] at h
      dsimp only at h
      split at h
      · -- it is expected, and has another hash
        cases h
      rename_i hhash
      rw [not_or, Decidable.not_not] at hhash
      -- it is expected, and now found
      refine (ih h).cons ⟨hfile, hrelative⟩ hunseen (fun hash' heq => ?_) fun name hname => ?_
      · rw [hlookup] at heq
        rw [hhash.1, Option.some_inj.mp heq]
      · by_cases hname' : name = m.name
        · exact .inl hname'
        · exact .inr ((List.mem_erase_of_ne hname').mpr hname)

end Members

/-- The corresponding sources are complete exactly when the names of the upstream components agree.
Of every build metadata and archive that `verify_sources` accepts, the archive has only regular
members with distinct relative names, and a member with the recorded hash for every source file,
resolved record and locked component, if and only if no two components whose URLs end in the same
name have different hashes. -/
theorem sources_complete_iff {sha256 : Bytes → String} {metadata : BuildMetadata}
    {revision : String} {members : List TarMember}
    (h : verifySources sha256 (some members) metadata revision = some ()) :
    SourcesComplete sha256 metadata members ↔ NamesAgree metadata upstreamComponents := by
  rw [verifySources] at h
  split at h
  · -- the metadata was refused
    cases h
  obtain ⟨expected, hexpected, h⟩ := Option.bind_eq_some_iff.mp h
  -- an expected hash is no SHA-256
  split at h
  · cases h
  rw [Option.bind_eq_bind, Option.bind_some] at h
  obtain ⟨rest, hrest, h⟩ := Option.bind_eq_some_iff.mp h
  split at h
  · -- something that is expected is not there
    cases h
  rename_i hempty
  rw [ne_eq, Decidable.not_not] at hempty
  subst hempty
  have hchecked := verifyMembers_checked hrest
  constructor
  · -- items of one name are one member, and so one hash
    intro hcomplete c hc c' hc' name hash hash' hitem hitem'
    obtain ⟨_, _, hname, m, hm, rfl, rfl⟩ := hcomplete.upstream c hc
    obtain ⟨_, _, hname', m', hm', rfl, rfl⟩ := hcomplete.upstream c' hc'
    obtain ⟨rfl, rfl⟩ := Prod.mk.inj (Option.some_inj.mp (hname.symm.trans hitem))
    obtain ⟨hsame, rfl⟩ := Prod.mk.inj (Option.some_inj.mp (hname'.symm.trans hitem'))
    rw [List.inj_on_of_nodup_map hchecked.distinct hm' hm hsame]
  · -- what is expected was found with its hash
    intro hagree
    have hall := expectsAll hexpected hagree
    have hsource {name hash : String} (hlookup : expected.lookup name = some hash) :
        HasSource sha256 members name hash := by
      have hkey : name ∈ expected.keys := by
        apply AList.mem_keys.mpr
        apply AList.lookup_isSome.mp
        rw [hlookup]
        rfl
      obtain hnil | ⟨m, hm, rfl⟩ := hchecked.found name hkey
      · exact absurd hnil List.not_mem_nil
      · exact ⟨m, hm, rfl, hchecked.hashes m hm hash hlookup⟩
    have hrecord {recorded : Option String} {name : String} (hrecorded : ∃ hash,
        recorded = some hash ∧ expected.lookup name = some hash) :
          ∃ hash, recorded = some hash ∧ HasSource sha256 members name hash := by
      obtain ⟨hash, hsome, hlookup⟩ := hrecorded
      exact ⟨hash, hsome, hsource hlookup⟩
    refine ⟨hchecked.regular, hchecked.distinct, fun path hash hpath => hsource
      (hall.files path hash hpath), hrecord hall.kernelConfig, hrecord hall.busyboxConfig,
        hrecord hall.compiler, fun c hc => ?_⟩
    obtain ⟨name, hash, hitem, hlookup⟩ := hall.upstream c hc
    exact ⟨name, hash, hitem, hsource hlookup⟩

/-! ### Components that share a name -/

/-- The SHA-256 of nothing. -/
def emptyDigest : String := "e3b0c44298fc1c149afbf4c8996fb92427ae41e4649b934ca495991b7852b855"

/-- The identity of modules whose files are all empty. -/
def emptyModules : Bytes := utf8Bytes (String.join (List.replicate 8 emptyDigest))

/-- The SHA-256 of them. -/
def moduleDigest : String := "a9390ff09505813f53cb3ef1b118462639264bdedb033806d14ea50c5006d5e4"

/-- SHA-256 of the contents that occur here; injective on all others. -/
def recordedSha256 (data : Bytes) : String :=
  if data = [] then emptyDigest
  else if data = emptyModules then moduleDigest
  else .ofList ('-' :: asciiText data)

/-- A build of empty files. The URLs of all components end in the same name, and `linux` is recorded
with the given hash. -/
def emptyBuild (linux : String) : BuildMetadata where
  sourceRevision := some "revision"
  sourceDirty := some false
  sourceFiles := (requiredSources.map fun name => ⟨name, emptyDigest⟩).toAList
  externalModuleSourceSha256 := some (recordedSha256 emptyModules)
  platform := some "qemu"
  kernelConfigSha256 := some emptyDigest
  busyboxConfigSha256 := some emptyDigest
  compilerSha256 := some emptyDigest
  sourceLock component := some
    ⟨"https://example.invalid/" ++ component ++ "/" ++ "source.tar.xz",
      if component = "linux" then linux else emptyDigest⟩

/-- The items that are expected of it. -/
def emptyExpected : Hashes :=
  ((((expectedFiles (emptyBuild emptyDigest).sourceFiles).insert "resolved/linux.config"
    emptyDigest).insert "resolved/busybox.config" emptyDigest).insert "resolved/compiler.txt"
      emptyDigest).insert "upstream/source.tar.xz" emptyDigest

/-- An archive of empty members. -/
def emptyMembers : List TarMember := emptyExpected.keys.map fun name => ⟨name, true, 0, []⟩

section Shared

variable {files : Hashes} {linux : String}

/-- The part of a URL behind its last slash. -/
theorem urlName_append (base : String) {name : String} (h : '/' ∉ name.toList) :
    urlName (base ++ "/" ++ name) = some name := by
  have hslash : "/".toList = ['/'] := by decide
  have hlist : (base ++ "/" ++ name).toList = base.toList ++ '/' :: name.toList := by
    rw [String.toList_append, String.toList_append, hslash, List.append_assoc]
    rfl
  have htake : (base.toList ++ '/' :: name.toList).reverse.takeWhile (· != '/') =
      name.toList.reverse := by
    rw [List.reverse_append, List.reverse_cons, List.append_assoc, List.takeWhile_append_of_pos]
    · exact List.append_nil _
    · intro c hc
      rw [bne_iff_ne]
      rintro rfl
      exact h (List.mem_reverse.mp hc)
  rw [urlName, hlist, if_pos (List.mem_append_right _ List.mem_cons_self), htake,
    List.reverse_reverse, String.ofList_toList]

theorem upstreamItem_emptyBuild (component : String) :
    upstreamItem (emptyBuild linux) component = some ("upstream/source.tar.xz",
      if component = "linux" then linux else emptyDigest) := by
  have hname : urlName ("https://example.invalid/" ++ component ++ "/" ++ "source.tar.xz") =
      some "source.tar.xz" := urlName_append _ (by decide +kernel)
  have hitem : "upstream/" ++ "source.tar.xz" = "upstream/source.tar.xz" := by decide +kernel
  rw [upstreamItem, emptyBuild, Option.bind_eq_bind, Option.bind_some, hname, Option.bind_eq_bind,
    Option.bind_some, hitem]
  rfl

/-- The items of all components are stored under one name, the last one's hash with it. -/
theorem expectedSources_emptyBuild : expectedSources (emptyBuild linux) = some emptyExpected := by
  have hlast : ¬ "zlib" = "linux" := by decide +kernel
  have hkernel : (emptyBuild linux).kernelConfigSha256 = some emptyDigest := rfl
  have hbusybox : (emptyBuild linux).busyboxConfigSha256 = some emptyDigest := rfl
  have hcompiler : (emptyBuild linux).compilerSha256 = some emptyDigest := rfl
  have hfiles : (emptyBuild linux).sourceFiles = (emptyBuild emptyDigest).sourceFiles := rfl
  simp only [expectedSources, hkernel, hbusybox, hcompiler, hfiles, Option.bind_eq_bind,
    Option.bind_some, upstreamComponents, expectUpstream, upstreamItem_emptyBuild,
    AList.insert_insert, if_neg hlast]
  rw [emptyExpected]

/-- Relative names, and the hash of nothing. -/
def ItemsEmpty (files : Hashes) : Prop :=
  ∀ name hash, files.lookup name = some hash → isRelative name = true ∧ hash = emptyDigest

theorem ItemsEmpty.insert (h : ItemsEmpty files) {name : String} (hname : isRelative name = true) :
    ItemsEmpty (files.insert name emptyDigest) := by
  intro name' hash hlookup
  by_cases heq : name' = name
  · subst heq
    rw [AList.lookup_insert] at hlookup
    exact ⟨hname, (Option.some_inj.mp hlookup).symm⟩
  · rw [AList.lookup_insert_ne heq] at hlookup
    exact h name' hash hlookup

theorem relative_ofList {cs : List Char}
    (h : (cs.head? != some '/' && !(cs.splitOn '/').contains ['.', '.']) = true) :
    isRelative (.ofList cs) = true := by
  rw [isRelative, String.toList_ofList]
  exact h

/-- A path of the repository, given by its characters, is relative. -/
theorem relative_repository {cs : List Char}
    (h : ((['h', 'y', 'p', 'e', 'r', '-', 'i', 'o', '-', 'v', 'm', '/'] ++ cs).splitOn
      '/').contains ['.', '.'] = false) : isRelative ("hyper-io-vm/" ++ .ofList cs) = true := by
  rw [isRelative, String.toList_append, String.toList_ofList, String.toList_ofList, h]
  rfl

theorem relative_required : ∀ name ∈ requiredSources,
    isRelative ("hyper-io-vm/" ++ name) = true := by
  rw [requiredSources]
  repeat refine List.forall_mem_cons.mpr ⟨relative_repository (by decide +kernel), ?_⟩
  exact fun _ hmem => absurd hmem List.not_mem_nil

/-- The recorded files are the required ones, and empty. -/
theorem lookup_emptyFiles {name : String} :
    (emptyBuild linux).sourceFiles.lookup name =
      (requiredSources.map fun name => (⟨name, emptyDigest⟩ :
        Sigma fun _ : String => String)).dlookup name :=
  List.dlookup_dedupKeys _ _

theorem lookup_emptyFiles_eq {name hash : String}
    (h : (emptyBuild linux).sourceFiles.lookup name = some hash) :
    name ∈ requiredSources ∧ hash = emptyDigest := by
  rw [lookup_emptyFiles] at h
  obtain ⟨required, hmem, heq⟩ := List.mem_map.mp (List.of_mem_dlookup h)
  cases heq
  exact ⟨hmem, rfl⟩

theorem lookup_emptyFiles_required {name : String} (h : name ∈ requiredSources) :
    (emptyBuild linux).sourceFiles.lookup name = some emptyDigest := by
  have hkey : name ∈ (requiredSources.map fun name => (⟨name, emptyDigest⟩ :
      Sigma fun _ : String => String)).keys :=
    List.mem_keys_of_mem (List.mem_map_of_mem h)
  have hsome := List.dlookup_isSome.mpr hkey
  rw [← @lookup_emptyFiles linux] at hsome
  obtain ⟨hash, hhash⟩ := Option.isSome_iff_exists.mp hsome
  rw [hhash, (lookup_emptyFiles_eq hhash).2]

theorem modulePaths_required : ∀ name ∈ modulePaths, name ∈ requiredSources := by
  have hplaces : modulePaths =
      [7, 8, 17, 18, 19, 20, 21, 22].filterMap fun i => requiredSources[i]? := rfl
  intro name hname
  rw [hplaces] at hname
  obtain ⟨i, -, hi⟩ := List.mem_filterMap.mp hname
  exact List.mem_of_getElem? hi

theorem itemsEmpty_expected : ItemsEmpty emptyExpected := by
  have hnone : ItemsEmpty ∅ := by
    intro name hash h
    rw [AList.lookup_empty] at h
    cases h
  have hfold (entries : List (Sigma fun _ : String => String)) (expected : Hashes)
      (hexpected : ItemsEmpty expected)
      (hall : ∀ p ∈ entries, p.1 ∈ requiredSources ∧ p.2 = emptyDigest) :
      ItemsEmpty (entries.foldl (fun expected p => expected.insert ("hyper-io-vm/" ++ p.1) p.2)
        expected) := by
    induction entries generalizing expected with
    | nil => exact hexpected
    | cons p entries ih =>
      obtain ⟨hname, hhash⟩ := hall p List.mem_cons_self
      refine ih _ ?_ fun q hq => hall q (List.mem_cons_of_mem _ hq)
      dsimp only
      rw [hhash]
      exact hexpected.insert (relative_required _ hname)
  have hfiles : ItemsEmpty (expectedFiles (emptyBuild emptyDigest).sourceFiles) :=
    hfold _ ∅ hnone fun p hp => lookup_emptyFiles_eq (AList.mem_lookup_iff.mpr hp)
  exact (((hfiles.insert (relative_ofList (by decide +kernel))).insert
    (relative_ofList (by decide +kernel))).insert
      (relative_ofList (by decide +kernel))).insert
        (relative_ofList (by decide +kernel))

/-- Empty members are checked off one by one. -/
theorem verifyMembers_empty {names seen : List String} (hitems : ItemsEmpty files)
    (hnames : ∀ name ∈ names, (files.lookup name).isSome) (hdistinct : names.Nodup)
    (hunseen : ∀ name ∈ names, name ∉ seen) :
    verifyMembers recordedSha256 files 0 seen names (names.map fun name => ⟨name, true, 0, []⟩) =
      some [] := by
  induction names generalizing seen with
  | nil => rfl
  | cons name names ih =>
    rw [List.nodup_cons] at hdistinct
    obtain ⟨hash, hlookup⟩ := Option.isSome_iff_exists.mp (hnames name List.mem_cons_self)
    obtain ⟨hrelative, rfl⟩ := hitems name hash hlookup
    have hrest := @ih (name :: seen) (fun n hn => hnames n (List.mem_cons_of_mem _ hn))
      hdistinct.2 fun n hn hmem => (List.mem_cons.mp hmem).elim
        (fun heq => hdistinct.1 (heq ▸ hn)) (hunseen n (List.mem_cons_of_mem _ hn))
    have hempty : recordedSha256 [] = emptyDigest := if_pos rfl
    have hroom : ¬ (0 : Int) + 0 > 2 * 1024 * mib := by decide
    rw [List.map_cons, verifyMembers, hrelative, hlookup]
    dsimp only
    rw [if_neg, hempty, if_neg, List.erase_cons_head]
    · exact hrest
    · rw [not_or, Decidable.not_not, Decidable.not_not]
      exact ⟨rfl, List.mem_cons_self⟩
    · simp only [not_or]
      exact ⟨by decide, by decide, hunseen name List.mem_cons_self, by decide, hroom⟩

/-- Whatever `linux` is recorded with, an archive of empty members is accepted. -/
theorem verifySources_empty : verifySources recordedSha256 (some emptyMembers) (emptyBuild linux)
    "revision" = some () := by
  have hrequired : requiredSources.all
      (fun name => ((emptyBuild linux).sourceFiles.lookup name).isSome) = true := by
    rw [List.all_eq_true]
    intro name hname
    rw [lookup_emptyFiles_required hname]
    rfl
  have hmodules : (modulePaths.map fun name =>
      ((emptyBuild linux).sourceFiles.lookup name).getD "") = List.replicate 8 emptyDigest := by
    have hconst : (modulePaths.map fun _ => emptyDigest) = List.replicate 8 emptyDigest := rfl
    rw [← hconst]
    refine List.map_congr_left fun name hname => ?_
    rw [lookup_emptyFiles_required (modulePaths_required name hname)]
    rfl
  have hmetadata : metadataAccepted recordedSha256 (emptyBuild linux) "revision" = true := by
    have hrevision : ((emptyBuild linux).sourceRevision == some "revision") = true :=
      beq_self_eq_true _
    have hidentity : ((emptyBuild linux).externalModuleSourceSha256 == some (recordedSha256
        (utf8Bytes (String.join (List.replicate 8 emptyDigest))))) = true := beq_self_eq_true _
    have hplatform (other : Bool) : ("qemu" != "rpi5" || other) = true := by
      have hne : ("qemu" != "rpi5") = true := by decide +kernel
      rw [hne, Bool.true_or]
    rw [metadataAccepted, hrequired, hmodules, hrevision, hidentity]
    exact hplatform ((emptyBuild linux).sourceFiles.lookup "configs/linux-rpi5.config").isSome
  have hhashes : emptyExpected.entries.all (fun p => isSha256 p.2) = true := by
    rw [List.all_eq_true]
    intro p hp
    rw [(itemsEmpty_expected p.1 p.2 (AList.mem_lookup_iff.mpr hp)).2]
    decide +kernel
  have hmembers : verifyMembers recordedSha256 emptyExpected 0 [] emptyExpected.keys emptyMembers =
      some [] := verifyMembers_empty itemsEmpty_expected
    (fun name hname => AList.lookup_isSome.mpr (AList.mem_keys.mp hname)) emptyExpected.keys_nodup
      fun _ _ => List.not_mem_nil
  have hnot : ¬ (!true) = true := by decide
  rw [verifySources, hmetadata, if_neg hnot, expectedSources_emptyBuild, Option.bind_eq_bind,
    Option.bind_some, hhashes, if_neg hnot, Option.bind_eq_bind, Option.bind_some, hmembers,
    Option.bind_eq_bind, Option.bind_some, if_neg (not_not.mpr rfl)]

end Shared

/-- Where the hashes agree, the sources are complete. -/
theorem sources_complete_empty :
    SourcesComplete recordedSha256 (emptyBuild emptyDigest) emptyMembers := by
  refine (sources_complete_iff verifySources_empty).mpr fun c _ c' _ name hash hash' hc hc' => ?_
  have hhash (component hash : String)
      (h : upstreamItem (emptyBuild emptyDigest) component = some (name, hash)) :
      hash = emptyDigest := by
    rw [upstreamItem_emptyBuild, ite_self] at h
    exact (Prod.mk.inj (Option.some_inj.mp h)).2.symm
  rw [hhash c hash hc, hhash c' hash' hc']

/-- SHA-256 of the text `linux`. -/
def linuxDigest : String := "caf90169eefa5f807d577486b9f795ab86ae2983c5c20806cff959117e90af18"

/-- The three kinds of hashes differ in their first characters. -/
theorem recordedSha256_head (data : Bytes) : (recordedSha256 data).toList.head? =
    some (if data = [] then 'e' else if data = emptyModules then 'a' else '-') := by
  rw [recordedSha256]
  split
  · have hlist : emptyDigest.toList = _ := String.toList_ofList
    rw [hlist]
    rfl
  split
  · have hlist : moduleDigest.toList = _ := String.toList_ofList
    rw [hlist]
    rfl
  · rw [String.toList_ofList]
    rfl

theorem recordedSha256_injective : Function.Injective recordedSha256 := by
  intro data data' h
  have hhead := recordedSha256_head data
  rw [h, recordedSha256_head data', Option.some_inj] at hhead
  by_cases hempty : data = []
  · rw [if_pos hempty] at hhead
    by_cases hempty' : data' = []
    · rw [hempty, hempty']
    · rw [if_neg hempty'] at hhead
      split at hhead <;> exact absurd hhead (by decide)
  by_cases hmodules : data = emptyModules
  · rw [if_neg hempty, if_pos hmodules] at hhead
    by_cases hmodules' : data' = emptyModules
    · rw [hmodules, hmodules']
    · rw [if_neg hmodules'] at hhead
      split at hhead <;> exact absurd hhead (by decide)
  rw [if_neg hempty, if_neg hmodules] at hhead
  by_cases hempty' : data' = []
  · rw [if_pos hempty'] at hhead
    exact absurd hhead (by decide)
  by_cases hmodules' : data' = emptyModules
  · rw [if_neg hempty', if_pos hmodules'] at hhead
    exact absurd hhead (by decide)
  rw [recordedSha256, if_neg hempty, if_neg hmodules, recordedSha256, if_neg hempty',
    if_neg hmodules'] at h
  exact asciiText_injective (List.cons_injective (String.ofList_injective h))

/-- An archive without the sources of Linux is accepted, because another component has replaced the
item of `linux`. -/
theorem linux_sources_missing : Function.Injective recordedSha256 ∧
    verifySources recordedSha256 (some emptyMembers) (emptyBuild linuxDigest) "revision" =
      some () ∧ ¬ SourcesComplete recordedSha256 (emptyBuild linuxDigest) emptyMembers := by
  refine ⟨recordedSha256_injective, verifySources_empty, fun hcomplete => ?_⟩
  obtain ⟨name, hash, hitem, m, hm, -, hhash⟩ := hcomplete.upstream "linux" List.mem_cons_self
  rw [upstreamItem_emptyBuild, if_pos rfl] at hitem
  obtain ⟨-, rfl⟩ := Prod.mk.inj (Option.some_inj.mp hitem)
  obtain ⟨name', -, rfl⟩ := List.mem_map.mp hm
  have hempty : recordedSha256 [] = emptyDigest := if_pos rfl
  have hne : emptyDigest ≠ linuxDigest := by
    intro heq
    exact absurd (String.ofList_injective heq) (by decide +kernel)
  exact hne (hempty.symm.trans hhash)

end HyperIoVm