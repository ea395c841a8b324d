import HyperIoVm.Effects.Beside
import HyperIoVm.NetworkTable

/-!
# The bridges of the appliance (`service/hyper-networks.c`)

Before the services start, the program makes the bridge of each network of the inventory and adds
its uplink to it. It looks at the entire inventory before it changes a link: a bridge that exists is
never adopted, and a failure leaves a prefix of the networks configured.
-/

namespace HyperIoVm

open Data Effects Program

/-- `IFF_UP`. -/
def iffUp : UInt16 := 1

/-- The calls of the program. -/
inductive LinkCall where
  | socket
  | close
  | ifNametoindex (name : List Char)
  | getMtu (name : List Char)
  | addBridge (name : List Char)
  | addInterface (bridge : List Char) (index : UInt32)
  | getFlags (name : List Char)
  | setFlags (name : List Char) (flags : UInt16)

/-- The answer to each call. `addBridge` answers the index that Linux gave the bridge, of which the
program sees only that there is one; the others, without a value, whether they succeeded. -/
def LinkCall.Reply : LinkCall → Type
  | .socket | .addInterface _ _ | .setFlags _ _ => Bool
  | .close => Unit
  | .ifNametoindex _ => UInt32
  | .getMtu _ => Option Int
  | .addBridge _ => Option UInt32
  | .getFlags _ => Option UInt16

/-- The interface to the links of Linux. -/
def Links : Interface := ⟨LinkCall, LinkCall.Reply⟩

/-! ## The program -/

/-- `interface_up`. -/
def interfaceUp (name : List Char) : Program Links Bool := do
  let flags : Option UInt16 ← Program.perform (I := Links) (.getFlags name)
  match flags with
  | none => return false
  | some flags => Program.perform (I := Links) (.setFlags name (flags ||| iffUp))

/-- The checks of one network. -/
def networkUsable (n : HyperNetwork) : Program Links Bool := do
  let uplink : UInt32 ← Program.perform (I := Links) (.ifNametoindex n.uplink)
  if uplink = 0 then return false
  let bridge : UInt32 ← Program.perform (I := Links) (.ifNametoindex n.bridge)
  if bridge ≠ 0 then return false
  let mtu : Option Int ← Program.perform (I := Links) (.getMtu n.uplink)
  return mtu == some 1500

def networksUsable : List HyperNetwork → Program Links Bool
  | [] => return true
  | n :: networks => do
    let usable ← networkUsable n
    if usable then networksUsable networks else return false

/-- The links of one network. -/
def configureNetwork (n : HyperNetwork) : Program Links Bool := do
  let index : UInt32 ← Program.perform (I := Links) (.ifNametoindex n.uplink)
  let bridge : Option UInt32 ← Program.perform (I := Links) (.addBridge n.bridge)
  if bridge.isNone then return false
  let added : Bool ← Program.perform (I := Links) (.addInterface n.bridge index)
  if !added then return false
  let up ← interfaceUp n.uplink
  if !up then return false
  interfaceUp n.bridge

def configureNetworks : List HyperNetwork → Program Links Bool
  | [] => return true
  | n :: networks => do
    let configured ← configureNetwork n
    if configured then configureNetworks networks else return false

/-- The program once the inventory is read: its exit status. -/
def setUpNetworks (networks : List HyperNetwork) : Program Links Int := do
  let opened : Bool ← Program.perform (I := Links) .socket
  if !opened then return 1
  let usable ← networksUsable networks
  if !usable then do
    let _ : Unit ← Program.perform (I := Links) .close
    return 1
  let configured ← configureNetworks networks
  let _ : Unit ← Program.perform (I := Links) .close
  return if configured then 0 else 1

/-- `main`, with the file that its only argument names. -/
def networksMain (argc : Nat) (file : Option Stream) : Program Links Int :=
  if argc ≠ 2 then return 1
  else match hyperNetworksRead file with
    | none => return 1
    | some networks => setUpNetworks networks

/-! ## The links -/

/-- The links of the host: the index, the flags, the bridge and the MTU of an interface. An
interface that does not exist has the flags it would be made with. -/
structure LinkHost where
  index : List Char → Option UInt32
  flags : List Char → UInt16
  master : List Char → Option (List Char)
  mtu : List Char → Option Int
  socket : Bool := false

namespace LinkHost

/-- A new interface. -/
def make (h : LinkHost) (name : List Char) (index : UInt32) : LinkHost :=
  { h with index := Function.update h.index name (some index) }

/-- The interface with the index is added to a bridge. -/
def enslave (h : LinkHost) (bridge : List Char) (index : UInt32) : LinkHost :=
  { h with master := fun name => if h.index name = some index then some bridge else h.master name }

/-- New flags of an interface. -/
def setFlags (h : LinkHost) (name : List Char) (flags : UInt16) : LinkHost :=
  { h with flags := Function.update h.flags name flags }

/-- The links after a call. What fails changes nothing. -/
def next (h : LinkHost) : (c : LinkCall) → c.Reply → LinkHost
  | .socket, opened => { h with socket := opened }
  | .close, _ => { h with socket := false }
  | .addBridge name, some index => h.make name index
  | .addInterface bridge index, true => h.enslave bridge index
  | .setFlags name flags, true => h.setFlags name flags
  | _, _ => h

/-- What Linux answers. A new bridge has a name and an index that no interface had. -/
def assumes (h : LinkHost) : (c : LinkCall) → c.Reply → Prop
  | .ifNametoindex name, index => index = (h.index name).getD 0
  | .getMtu name, some mtu => h.mtu name = some mtu
  | .addBridge name, some index =>
    h.index name = none ∧ index ≠ 0 ∧ ∀ other, h.index other ≠ some index
  | .getFlags name, some flags => flags = h.flags name
  | _, _ => True

/-- Links are looked at and changed through the socket. -/
def allows (h : LinkHost) : LinkCall → Prop
  | .socket => h.socket = false
  | .ifNametoindex _ => True
  | _ => h.socket = true

/-- Two interfaces have different indices, and none has the index 0. -/
structure Sound (h : LinkHost) : Prop where
  unique : ∀ name other i, h.index name = some i → h.index other = some i → name = other
  nonzero : ∀ name, h.index name ≠ some 0

theorem Sound.enslave {h : LinkHost} (hs : h.Sound) (bridge : List Char) (index : UInt32) :
    (h.enslave bridge index).Sound := ⟨hs.unique, hs.nonzero⟩

theorem Sound.setFlags {h : LinkHost} (hs : h.Sound) (name : List Char) (flags : UInt16) :
    (h.setFlags name flags).Sound := ⟨hs.unique, hs.nonzero⟩

/-- The interfaces other than `names` are the same. -/
def Same (names : List (List Char)) (h h' : LinkHost) : Prop :=
  ∀ name ∉ names, h'.index name = h.index name ∧ h'.flags name = h.flags name ∧
    h'.master name = h.master name

/-- The network can be configured: its uplink exists, with the MTU of a bridge, and its bridge does
not. -/
def Usable (h : LinkHost) (n : HyperNetwork) : Prop :=
  h.index n.uplink ≠ none ∧ h.index n.bridge = none ∧ h.mtu n.uplink = some 1500

/-- In `h'` the network is configured, from the links `h`. -/
structure Configured (h : LinkHost) (n : HyperNetwork) (h' : LinkHost) : Prop where
  bridge : h'.index n.bridge ≠ none
  uplink : h'.index n.uplink = h.index n.uplink
  master : h'.master n.uplink = some n.bridge
  uplinkUp : h'.flags n.uplink = h.flags n.uplink ||| iffUp
  bridgeUp : h'.flags n.bridge = h.flags n.bridge ||| iffUp

end LinkHost

/-- The contract with Linux about its links. -/
def linkTable : Contract Links LinkHost where
  allows := LinkHost.allows
  assumes := LinkHost.assumes
  next := LinkHost.next

namespace LinkHost

variable {h h' h'' : LinkHost}

theorem Same.refl (names : List (List Char)) (h : LinkHost) : Same names h h :=
  fun _ _ => ⟨rfl, rfl, rfl⟩

theorem Same.trans {names names' : List (List Char)} (hs : Same names h h')
    (hs' : Same names' h' h'') : Same (names ++ names') h h'' := by
  intro name hname
  rw [List.mem_append, not_or] at hname
  obtain ⟨hindex, hflags, hmaster⟩ := hs name hname.1
  obtain ⟨hindex', hflags', hmaster'⟩ := hs' name hname.2
  exact ⟨hindex'.trans hindex, hflags'.trans hflags, hmaster'.trans hmaster⟩

theorem Same.mono {names names' : List (List Char)} (hs : Same names h h')
    (hnames : ∀ name ∈ names, name ∈ names') : Same names' h h' :=
  fun name hname => hs name fun hmem => hname (hnames name hmem)

theorem Same.and {names : List (List Char)} (hs : Same names h h') (hs' : Same names h' h'') :
    Same names h h'' :=
  (hs.trans hs').mono fun _ hname => (List.mem_append.mp hname).elim id id

theorem same_make {names : List (List Char)} {name : List Char} (hname : name ∈ names)
    (h : LinkHost) (index : UInt32) : Same names h (h.make name index) := fun _ hother =>
  ⟨Function.update_of_ne (ne_of_mem_of_not_mem hname hother).symm _ _, rfl, rfl⟩

theorem same_setFlags {names : List (List Char)} {name : List Char} (hname : name ∈ names)
    (h : LinkHost) (flags : UInt16) : Same names h (h.setFlags name flags) := fun _ hother =>
  ⟨rfl, Function.update_of_ne (ne_of_mem_of_not_mem hname hother).symm _ _, rfl⟩

/-- Only the interface that has the index is added to the bridge. -/
theorem Sound.same_enslave (hsound : h.Sound) {names : List (List Char)} {name : List Char}
    {index : UInt32} (hname : name ∈ names) (hindex : h.index name = some index)
    (bridge : List Char) : Same names h (h.enslave bridge index) := by
  intro other hother
  refine ⟨rfl, rfl, if_neg fun hsome => hother ?_⟩
  rw [hsound.unique other name index hsome hindex]
  exact hname

/-- A network stays configured while others are. -/
theorem Configured.same {n : HyperNetwork} {names : List (List Char)} (hc : Configured h n h')
    (hs : Same names h' h'') (hbridge : n.bridge ∉ names) (huplink : n.uplink ∉ names) :
    Configured h n h'' := by
  obtain ⟨hindex, hflags, -⟩ := hs _ hbridge
  obtain ⟨hindex', hflags', hmaster'⟩ := hs _ huplink
  exact ⟨hindex.symm ▸ hc.bridge, hindex'.trans hc.uplink, hmaster'.trans hc.master,
    hflags'.trans hc.uplinkUp, hflags.trans hc.bridgeUp⟩

/-- A network is configured from the links before, when those of others changed between. -/
theorem Configured.from_same {n : HyperNetwork} {names : List (List Char)}
    (hc : Configured h' n h'') (hs : Same names h h') (hbridge : n.bridge ∉ names)
    (huplink : n.uplink ∉ names) : Configured h n h'' := by
  obtain ⟨-, hflags, -⟩ := hs _ hbridge
  obtain ⟨hindex', hflags', -⟩ := hs _ huplink
  refine ⟨hc.bridge, hc.uplink.trans hindex', hc.master, ?_, ?_⟩
  · rw [hc.uplinkUp, hflags']
  · rw [hc.bridgeUp, hflags]

end LinkHost

open LinkHost

section Setup

variable {h : LinkHost}

/-! ## Looking at the inventory -/

theorem networkUsable_wp (hsound : h.Sound) (hopen : h.socket = true) (n : HyperNetwork) :
    (networkUsable n).wp linkTable (fun r h' => h' = h ∧ (r = true → h.Usable n)) h := by
  refine ⟨trivial, fun (uplink : UInt32) huplink => ?_⟩
  show Program.wp _ (if uplink = 0 then _ else _) _ h
  split
  · exact ⟨rfl, fun hr => by cases hr⟩
  rename_i hexists
  refine ⟨trivial, fun (bridge : UInt32) hbridge => ?_⟩
  show Program.wp _ (if bridge ≠ 0 then _ else _) _ h
  split
  · exact ⟨rfl, fun hr => by cases hr⟩
  rename_i habsent
  refine ⟨hopen, fun (mtu : Option Int) hmtu => ⟨rfl, fun hr => ⟨fun hnone => ?_, ?_, ?_⟩⟩⟩
  · refine hexists (Eq.trans huplink ?_)
    rw [hnone]
    rfl
  · have hzero : (h.index n.bridge).getD 0 = 0 := Eq.trans (Eq.symm hbridge) (not_not.mp habsent)
    cases hindex : h.index n.bridge with
    | none => rfl
    | some i =>
      rw [hindex] at hzero
      exact absurd (hindex.trans (congrArg some hzero)) (hsound.nonzero _)
  · obtain rfl : mtu = some 1500 := eq_of_beq hr
    exact hmtu

theorem networksUsable_wp (hsound : h.Sound) (hopen : h.socket = true)
    (networks : List HyperNetwork) : (networksUsable networks).wp linkTable
      (fun r h' => h' = h ∧ (r = true → ∀ n ∈ networks, h.Usable n)) h := by
  induction networks with
  | nil => exact ⟨rfl, fun _ _ hn => absurd hn List.not_mem_nil⟩
  | cons n networks ih =>
    rw [networksUsable, wp_bind]
    refine wp_mono (networkUsable_wp hsound hopen n) fun usable h' hpost => ?_
    obtain ⟨rfl, husable⟩ := hpost
    split
    next hn =>
      refine wp_mono ih fun r h' hrest => ⟨hrest.1, fun hr n' hn' => ?_⟩
      rcases List.mem_cons.mp hn' with rfl | hn'
      · exact husable hn
      · exact hrest.2 hr n' hn'
    next => exact ⟨rfl, fun hr => by cases hr⟩

/-! ## Changing the links -/

/-- `interface_up` changes the flags of one interface. -/
theorem interfaceUp_wp (hopen : h.socket = true) (name : List Char) :
    (interfaceUp name).wp linkTable (fun r h' => r = false ∧ h' = h ∨ r = true ∧
      h' = h.setFlags name (h.flags name ||| iffUp)) h := by
  refine ⟨hopen, fun (flags : Option UInt16) hflags => ?_⟩
  cases flags with
  | none => exact .inl ⟨rfl, rfl⟩
  | some flags =>
    have hflags' : flags = h.flags name := hflags
    rw [hflags']
    refine ⟨hopen, fun (set : Bool) _ => ?_⟩
    cases set with
    | true => exact .inr ⟨rfl, rfl⟩
    | false => exact .inl ⟨rfl, rfl⟩

/-- What one network may change, whether it is configured or not. -/
structure Attempted (h : LinkHost) (n : HyperNetwork) (r : Bool) (h' : LinkHost) : Prop where
  sound : h'.Sound
  opened : h'.socket = true
  same : Same [n.bridge, n.uplink] h h'
  configured : r = true → Configured h n h'

/-- A new bridge has an index of its own. -/
theorem LinkHost.Sound.bridge (hsound : h.Sound) {bridge : List Char} {j : UInt32} (hj : j ≠ 0)
    (hfresh : ∀ other, h.index other ≠ some j) :
    Sound (h.make bridge j) := by
  have hother (name : List Char) (hname : name ≠ bridge) :
      Function.update h.index bridge (some j) name = h.index name :=
    Function.update_of_ne hname _ _
  have hmade : Function.update h.index bridge (some j) bridge = some j :=
    Function.update_self _ _ _
  refine ⟨fun name other k hk hk' => ?_, fun name hzero => ?_⟩
  · by_cases hname : name = bridge
    · by_cases hname' : other = bridge
      · exact hname.trans hname'.symm
      · rw [hname] at hk
        have hk'' : h.index other = some k := (hother other hname').symm.trans hk'
        exact absurd (hk''.trans (hk.symm.trans hmade)) (hfresh other)
    · have hk'' : h.index name = some k := (hother name hname).symm.trans hk
      by_cases hname' : other = bridge
      · rw [hname'] at hk'
        exact absurd (hk''.trans (hk'.symm.trans hmade)) (hfresh name)
      · exact hsound.unique name other k hk'' ((hother other hname').symm.trans hk')
  · by_cases hname : name = bridge
    · rw [hname] at hzero
      exact hj (Option.some.inj (hmade.symm.trans hzero))
    · exact hsound.nonzero name ((hother name hname).symm.trans hzero)

theorem configureNetwork_wp (hsound : h.Sound) (hopen : h.socket = true) {n : HyperNetwork}
    (hexists : h.index n.uplink ≠ none) (hne : n.bridge ≠ n.uplink) :
    (configureNetwork n).wp linkTable (Attempted h n) h := by
  refine ⟨trivial, fun (index : UInt32) hindex => ?_⟩
  obtain ⟨i, hi⟩ := Option.ne_none_iff_exists'.mp hexists
  have hindex' : index = i := Eq.trans hindex (by rw [hi]; rfl)
  refine ⟨hopen, fun (bridge : Option UInt32) hbridge => ?_⟩
  cases bridge with
  | none => exact ⟨hsound, hopen, .refl _ h, fun hr => by cases hr⟩
  | some j =>
    obtain ⟨-, hj, hfresh⟩ := hbridge
    have hsound' : (h.make n.bridge j).Sound := hsound.bridge hj hfresh
    have huplink : (h.make n.bridge j).index n.uplink = some index := by
      rw [hindex', ← hi]
      exact Function.update_of_ne hne.symm _ _
    have hbridgeMem : n.bridge ∈ [n.bridge, n.uplink] := List.mem_cons_self
    have huplinkMem : n.uplink ∈ [n.bridge, n.uplink] := List.mem_cons_of_mem _ List.mem_cons_self
    have hmade := same_make hbridgeMem h j
    have hadded := hmade.and (hsound'.same_enslave huplinkMem huplink n.bridge)
    refine ⟨hopen, fun (added : Bool) _ => ?_⟩
    -- the uplink was not added
    cases added with
    | false => exact ⟨hsound', hopen, hmade, fun hr => by cases hr⟩
    | true =>
      show Program.wp _ (interfaceUp n.uplink >>= _) _ ((h.make n.bridge j).enslave n.bridge index)
      rw [wp_bind]
      have huplinkUp := @interfaceUp_wp ((h.make n.bridge j).enslave n.bridge index) hopen n.uplink
      refine wp_mono huplinkUp fun up h' hup => ?_
      -- the uplink is up, or was not raised
      obtain ⟨rfl, rfl⟩ | ⟨rfl, rfl⟩ := hup
      · exact ⟨hsound'.enslave _ _, hopen, hadded, fun hr => by cases hr⟩
      have hraised := hadded.and (same_setFlags huplinkMem _ (h.flags n.uplink ||| iffUp))
      have hbridgeUp := @interfaceUp_wp (((h.make n.bridge j).enslave n.bridge index).setFlags
        n.uplink (h.flags n.uplink ||| iffUp)) hopen n.bridge
      refine wp_mono hbridgeUp fun up h' hup => ?_
      -- the bridge is up, or was not raised
      obtain ⟨rfl, rfl⟩ | ⟨rfl, rfl⟩ := hup
      · exact ⟨(hsound'.enslave _ _).setFlags _ _, hopen, hraised, fun hr => by cases hr⟩
      refine ⟨((hsound'.enslave _ _).setFlags _ _).setFlags _ _, hopen,
        hraised.and (same_setFlags hbridgeMem _ _), fun _ => ⟨?_, ?_, ?_, ?_, ?_⟩⟩
      · -- the bridge, its uplink, and the flags of both
        show Function.update h.index n.bridge (some j) n.bridge ≠ none
        rw [Function.update_self]
        exact Option.some_ne_none j
      · exact Function.update_of_ne hne.symm _ _
      · exact if_pos huplink
      · show Function.update (Function.update h.flags n.uplink _) n.bridge _ n.uplink = _
        rw [Function.update_of_ne hne.symm, Function.update_self]
      · show Function.update (Function.update h.flags n.uplink _) n.bridge
          (Function.update h.flags n.uplink _ n.bridge ||| iffUp) n.bridge = _
        rw [Function.update_self, Function.update_of_ne hne]

/-- What `configureNetworks` leaves: the networks `done` are configured, the next one may have been
tried, and the links of no other interface have changed. -/
structure Prefix (h : LinkHost) (networks done : List HyperNetwork) (h' : LinkHost) : Prop where
  split : ∃ rest, networks = done ++ rest
  configured : ∀ n ∈ done, Configured h n h'
  same : Same (interfaces (networks.take (done.length + 1))) h h'

theorem configureNetworks_wp {networks : List HyperNetwork} (hsound : h.Sound)
    (hopen : h.socket = true) (hnodup : (interfaces networks).Nodup)
    (hexists : ∀ n ∈ networks, h.index n.uplink ≠ none) :
    (configureNetworks networks).wp linkTable (fun r h' => h'.socket = true ∧
      ∃ done, Prefix h networks done h' ∧ (r = true ↔ done = networks)) h := by
  induction networks generalizing h with
  -- nothing to do
  | nil =>
    exact ⟨hopen, [], ⟨⟨[], rfl⟩, fun _ hn => absurd hn List.not_mem_nil, .refl _ h⟩,
      iff_of_true rfl rfl⟩
  | cons n networks ih =>
    have hsplit : ([n.bridge, n.uplink] ++ interfaces networks).Nodup := hnodup
    obtain ⟨hown, hrest, hdisjoint⟩ := List.nodup_append.mp hsplit
    have hne : n.bridge ≠ n.uplink := by
      intro heq
      rw [heq] at hown
      exact absurd hown (by simp)
    -- the interfaces of the others are not those of this network
    have hmem {n' : HyperNetwork} (hn' : n' ∈ networks) :
        n'.bridge ∈ interfaces networks ∧ n'.uplink ∈ interfaces networks :=
      ⟨List.mem_flatMap.mpr ⟨n', hn', List.mem_cons_self⟩,
        List.mem_flatMap.mpr ⟨n', hn', List.mem_cons_of_mem _ List.mem_cons_self⟩⟩
    have hapart {name : List Char} (hname : name ∈ interfaces networks) :
        name ∉ [n.bridge, n.uplink] := fun hmine => hdisjoint name hmine name hname rfl
    rw [configureNetworks, wp_bind]
    refine wp_mono (configureNetwork_wp hsound hopen (hexists n List.mem_cons_self) hne) ?_
    intro configured h' hattempt
    split
    -- it is configured, and the others come next
    next hdone =>
      have hexists' : ∀ n' ∈ networks, h'.index n'.uplink ≠ none := fun n' hn' => by
        rw [(hattempt.same _ (hapart (hmem hn').2)).1]
        exact hexists n' (List.mem_cons_of_mem _ hn')
      refine wp_mono (ih hattempt.sound hattempt.opened hrest hexists') fun r h'' hpost => ?_
      obtain ⟨hopen', done, hparts, hr⟩ := hpost
      obtain ⟨rest, hnetworks⟩ := hparts.split
      have htaken : ∀ name ∈ interfaces (networks.take (done.length + 1)),
          name ∈ interfaces networks := fun name hname => by
        obtain ⟨n', hn', hname'⟩ := List.mem_flatMap.mp hname
        exact List.mem_flatMap.mpr ⟨n', List.mem_of_mem_take hn', hname'⟩
      refine ⟨hopen', n :: done, ⟨⟨rest, ?_⟩, fun n' hn' => ?_, ?_⟩, ?_⟩
      · rw [hnetworks, List.cons_append]
      · rcases List.mem_cons.mp hn' with rfl | hn'
        · -- the others leave it as it is
          refine (hattempt.configured hdone).same hparts.same (fun hmine => ?_) fun hmine => ?_
          · exact hapart (htaken _ hmine) List.mem_cons_self
          · exact hapart (htaken _ hmine) (List.mem_cons_of_mem _ List.mem_cons_self)
        · -- they are configured as they would be without it
          have hin : n' ∈ networks := by
            rw [hnetworks]
            exact List.mem_append_left _ hn'
          exact (hparts.configured n' hn').from_same hattempt.same (hapart (hmem hin).1)
            (hapart (hmem hin).2)
      · exact hattempt.same.trans hparts.same
      · rw [hr, List.cons.injEq]
        exact (and_iff_right rfl).symm
    -- it has failed, and the others are left alone
    next hfailed =>
      refine ⟨hattempt.opened, [], ⟨⟨n :: networks, rfl⟩, fun _ hn => absurd hn List.not_mem_nil,
        hattempt.same⟩, iff_of_false (by rintro ⟨⟩) (by rintro ⟨⟩)⟩

/-! ## Runs -/

/-- What the program did with the links: nothing, or it configured a prefix of an inventory that it
had found usable as a whole. -/
structure SetUp (h : LinkHost) (file : Option Stream) (status : Int) (h' : LinkHost) : Prop where
  closed : h'.socket = false
  links : Same [] h h' ∧ status = 1 ∨ ∃ networks done, hyperNetworksRead file = some networks ∧
    (∀ n ∈ networks, h.Usable n) ∧ Prefix h networks done h' ∧
      (status = 0 ∧ done = networks ∨ status = 1 ∧ done ≠ networks)

theorem networksMain_wp (hsound : h.Sound) (hclosed : h.socket = false) (argc : Nat)
    (file : Option Stream) :
    (networksMain argc file).wp linkTable (SetUp h file) h := by
  have hnothing : SetUp h file 1 h := ⟨hclosed, .inl ⟨.refl _ h, rfl⟩⟩
  rw [networksMain]
  split
  · -- the arguments are wrong
    exact hnothing
  cases hread : hyperNetworksRead file with
  -- the inventory is not a valid one
  | none => exact hnothing
  | some networks =>
    refine ⟨hclosed, fun (opened : Bool) _ => ?_⟩
    cases opened with
    -- there is no socket
    | false =>
      refine ⟨rfl, .inl ⟨fun _ _ => ⟨rfl, rfl, rfl⟩, rfl⟩⟩
    | true =>
      show Program.wp _ (networksUsable networks >>= _) _ { h with socket := true }
      rw [wp_bind]
      have hsound' : Sound { h with socket := true } := ⟨hsound.unique, hsound.nonzero⟩
      refine wp_mono (networksUsable_wp hsound' rfl networks) fun usable h' hpost => ?_
      obtain ⟨rfl, husable⟩ := hpost
      cases usable with
      -- an interface is missing, or a bridge is there already
      | false => exact ⟨rfl, fun _ _ => ⟨rfl, .inl ⟨fun _ _ => ⟨rfl, rfl, rfl⟩, rfl⟩⟩⟩
      | true =>
        -- all of it is usable, so the networks are set up one by one
        have hall : ∀ n ∈ networks, h.Usable n := husable rfl
        have hnodup : (interfaces networks).Nodup := by
          obtain ⟨file', rfl⟩ : ∃ f, file = some f := Option.ne_none_iff_exists'.mp fun hfile => by
            rw [hfile] at hread
            cases hread
          obtain ⟨-, rest, -, -, hentries⟩ := readNetworksFile_lines hread
          exact (readNetworks_inventory hentries).interfaces
        show Program.wp _ (configureNetworks networks >>= _) _ { h with socket := true }
        rw [wp_bind]
        refine wp_mono (configureNetworks_wp hsound' rfl hnodup fun n hn => (hall n hn).1) ?_
        intro configured h' hpost
        obtain ⟨hopen, done, hparts, hdone⟩ := hpost
        refine ⟨hopen, fun _ _ => ⟨rfl, .inr ⟨networks, done, hread, hall, ?_, ?_⟩⟩⟩
        · exact ⟨hparts.split, fun n hn => ⟨(hparts.configured n hn).bridge,
            (hparts.configured n hn).uplink, (hparts.configured n hn).master,
            (hparts.configured n hn).uplinkUp, (hparts.configured n hn).bridgeUp⟩, hparts.same⟩
        · cases configured with
          | true => exact .inl ⟨rfl, hdone.mp rfl⟩
          | false => exact .inr ⟨rfl, fun h => Bool.false_ne_true (hdone.mpr h)⟩

/-- Bridges are made for a whole inventory or for a prefix of it. In every run, whatever fails, the
socket is closed at the end, and no link has changed unless every network of the inventory was found
usable, its bridge absent. Then the networks of a prefix are configured, the one after it may have
been tried, and no other interface has changed; and the program exits with 0 exactly when the prefix
is the inventory. -/
theorem bridges_set_up (hsound : h.Sound) (hclosed : h.socket = false) (argc : Nat)
    (file : Option Stream) (env : Environment Links) :
    let run := (networksMain argc file).exec env []
    let later := linkTable.after h run.2
    linkTable.Assumed h run.2 → linkTable.Obeyed h run.2 ∧ SetUp h file run.1 later := by
  intro run later hassumed
  exact wp_exec env [] (networksMain_wp hsound hclosed argc file) hassumed

end Setup

/-! ## A host with two uplinks -/

def twoUplinks : LinkHost where
  index name :=
    if name = "eth0".toList then some 2 else if name = "eth1".toList then some 4 else none
  flags _ := 0
  master _ := none
  mtu _ := some 1500

/-- Linux makes the bridge `br0` and no other, and lets everything else succeed. -/
def uplinkReply (h : LinkHost) : (c : LinkCall) → c.Reply
  | .socket | .addInterface _ _ | .setFlags _ _ => true
  | .close => ()
  | .ifNametoindex name => (h.index name).getD 0
  | .getMtu name => h.mtu name
  | .addBridge name => if name = "br0".toList ∧ h.index name = none then some (3 : UInt32) else none
  | .getFlags name => some (h.flags name)

def uplinkLinux : Environment Links := fun past c => uplinkReply (linkTable.after twoUplinks past) c

/-- Only `br0` ever has the index 3. -/
def ThirdIsBridge (h : LinkHost) : Prop := ∀ name, h.index name = some 3 → name = "br0".toList

theorem uplinkReply_assumed {h : LinkHost} (hthird : ThirdIsBridge h) (c : LinkCall) :
    linkTable.assumes h c (uplinkReply h c) ∧
      ThirdIsBridge (linkTable.next h c (uplinkReply h c)) := by
  cases c with
  | ifNametoindex name => exact ⟨rfl, hthird⟩
  | getMtu name =>
    refine ⟨?_, hthird⟩
    show LinkHost.assumes h (.getMtu name) (h.mtu name)
    cases hmtu : h.mtu name with
    | none => exact trivial
    | some mtu => exact hmtu
  | getFlags name => exact ⟨rfl, hthird⟩
  | addBridge name =>
    by_cases hbridge : name = "br0".toList ∧ h.index name = none
    · rw [show uplinkReply h (.addBridge name) = some (3 : UInt32) from if_pos hbridge]
      obtain ⟨hname, hnone⟩ := hbridge
      refine ⟨⟨hnone, by decide, fun other hother => ?_⟩, fun other hother => ?_⟩
      · rw [hthird other hother, ← hname, hnone] at hother
        cases hother
      · by_cases heq : other = name
        · exact heq.trans hname
        · exact hthird other ((Function.update_of_ne heq _ _).symm.trans hother)
    · rw [show uplinkReply h (.addBridge name) = (none : Option UInt32) from if_neg hbridge]
      exact ⟨trivial, hthird⟩
  | _ => exact ⟨trivial, hthird⟩

/-- The interfaces of the host are its uplinks. -/
theorem twoUplinks_index {name : List Char} {i : UInt32} (h : twoUplinks.index name = some i) :
    name = "eth0".toList ∧ i = 2 ∨ name = "eth1".toList ∧ i = 4 := by
  unfold twoUplinks at h
  dsimp only at h
  split at h
  next hname => exact .inl ⟨hname, (Option.some_inj.mp h).symm⟩
  next =>
    split at h
    next hname => exact .inr ⟨hname, (Option.some_inj.mp h).symm⟩
    next => cases h

theorem twoUplinks_sound : twoUplinks.Sound := by
  refine ⟨fun name other i hi hi' => ?_, fun name hzero => ?_⟩
  · rcases twoUplinks_index hi with ⟨rfl, rfl⟩ | ⟨rfl, rfl⟩
    · rcases twoUplinks_index hi' with ⟨rfl, -⟩ | ⟨-, hindex⟩
      · rfl
      · exact absurd hindex (by decide)
    · rcases twoUplinks_index hi' with ⟨-, hindex⟩ | ⟨rfl, -⟩
      · exact absurd hindex (by decide)
      · rfl
  · rcases twoUplinks_index hzero with ⟨-, hindex⟩ | ⟨-, hindex⟩
    · exact absurd hindex (by decide)
    · exact absurd hindex (by decide)

/-- An inventory of two networks, the second of which does not get its bridge. -/
def twoNetworks : Option Stream :=
  some ⟨"hyper.networks.v1\nlan br0 eth0\nwan br1 eth1\n".toList, false⟩

theorem bridges_set_up_second_fails :
    let run := (networksMain 2 twoNetworks).exec uplinkLinux []
    SetUp twoUplinks twoNetworks run.1 (linkTable.after twoUplinks run.2) := by
  intro run
  have hthird : ThirdIsBridge twoUplinks := fun name h => by
    rcases twoUplinks_index h with ⟨-, hindex⟩ | ⟨-, hindex⟩
    · exact absurd hindex (by decide)
    · exact absurd hindex (by decide)
  have hassumed : linkTable.Assumed twoUplinks run.2 :=
    exec_assumed_of (C := linkTable) (k := twoUplinks) (J := ThirdIsBridge)
      (fun past c h => uplinkReply_assumed h c) _ [] hthird
  exact (bridges_set_up twoUplinks_sound rfl 2 twoNetworks uplinkLinux hassumed).2

/-- The first network is configured, and the program fails. -/
example :
    let run := (networksMain 2 twoNetworks).exec uplinkLinux []
    run.1 = 1 ∧ (linkTable.after twoUplinks run.2).master "eth0".toList = some "br0".toList ∧
      (linkTable.after twoUplinks run.2).master "eth1".toList = none := by
  decide +kernel

end HyperIoVm
