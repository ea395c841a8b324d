import HyperIoVm.Inventory
import HyperIoVm.Regularity

/-!
# Disk identifiers are stable

Over a whole run the table of disks only grows, whatever the hardware does between the refreshes:
an identifier denotes one medium for the rest of the run. An enumeration that follows the cursors
it is given returns every identifier once, in order, and then the zero record.
-/

namespace HyperIoVm

open Effects Routine

/-! ## One request -/

section Requests

variable {K : Type} {C : Contract Sys K} {k : K} {b : Backend} {session : Session} {m : Bytes}

/-- A block request is refused by the session, or left to the block owner. -/
theorem wp_dispatch_block {Q : Answer × Session → Backend → K → Prop}
    (hop : (operationOf m).isBlock = true) (hrefused : Q ({ status := .invalid }, session) b k)
    (hblock : (blockDispatch m).wp C (fun a b' k' => Q (a, session) b' k') b k) :
    (dispatch session m).wp C Q b k := by
  have hrelease : isRelease m = false := by
    simp only [isRelease, Bool.and_eq_false_iff, beq_eq_false_iff_ne]
    refine .inl fun h => ?_
    rw [h] at hop
    cases hop
  rw [dispatch, wp_bind, wp_get, hrelease, Bool.false_and, if_neg Bool.false_ne_true, wp_ite]
  split
  · exact hrefused
  · rw [wp_bind]
    exact hblock

/-- The requests the block owner serves, each with the length it must have; all others are
refused. -/
theorem wp_blockDispatch {Q : Answer → Backend → K → Prop}
    (hrefused : ∀ status, status = .invalid ∨ status = .unsupported → Q { status } b k)
    (hhello : operationOf m = .blockHello → ∀ a : Answer, a.status = .ok → Q a b k)
    (henum : ∀ owner, b.blocks = some owner → operationOf m = .blockEnum →
      (blockEnum owner (.decode m)).wp C Q b k)
    (hread : ∀ owner, b.blocks = some owner → operationOf m = .blockRead →
      (blockRead owner (.decode m)).wp C (fun status => Q { status }) b k)
    (hbind : ∀ owner, b.blocks = some owner → operationOf m = .blockBind →
      (bindRange owner (.decode m)).wp C (fun status => Q { status }) b k) :
    (blockDispatch m).wp C Q b k := by
  rw [blockDispatch, wp_bind, wp_get]
  cases hb : b.blocks with
  | none => exact hrefused _ (.inr rfl)
  | some owner =>
    dsimp only
    split
    next hop _ =>
      exact hhello hop _ rfl
    next hop _ =>
      exact henum owner hb hop
    next hop _ =>
      rw [wp_bind]
      exact hread owner hb hop
    next hop _ =>
      rw [wp_bind]
      exact hbind owner hb hop
    next => exact hrefused _ (.inl rfl)

/-- What a `BLOCK_ENUM` does to the table of disks, and what it answers. -/
structure Enumerated (request : BlockEnum) (disks : List PhysicalDisk) (fds : Multiset Fd)
    (r : Answer) (disks' : List PhysicalDisk) (fds' : Multiset Fd) : Prop where
  grown : ∃ added, disks' = disks ++ added ∧ fds' = retained added + fds ∧
    (request.cursor ≠ 0 → added = [])
  inventory : Inventory disks'
  answer : r.status = .ok → request.cursor.toNat ≤ disks'.length ∧
    BlockInfo.decode r.tail = diskInfo disks' request.cursor.toNat

theorem Enumerated.refused {request : BlockEnum} {disks : List PhysicalDisk} {fds : Multiset Fd}
    {r : Answer} (h : Inventory disks) (hr : r.status ≠ .ok) :
    Enumerated request disks fds r disks fds :=
  ⟨⟨[], (List.append_nil _).symm, (zero_add _).symm, fun _ => rfl⟩, h, fun hok => absurd hok hr⟩

theorem dispatch_enumerates (hop : operationOf m = .blockEnum) (h : Inventory b.disks)
    (fds : Multiset Fd) :
    (dispatch session m).wp descriptors (fun r b' fds' =>
      Enumerated (.decode m) b.disks fds r.1 b'.disks fds') b fds := by
  have hrefused (status : Status) (hstatus : status = .invalid ∨ status = .unsupported) :
      Enumerated (.decode m) b.disks fds { status } b.disks fds := by
    refine .refused h ?_
    obtain rfl | rfl := hstatus <;> decide
  refine wp_dispatch_block (by rw [hop]; rfl) (hrefused _ (.inl rfl)) ?_
  refine wp_blockDispatch (Q := fun r b' fds' => Enumerated (.decode m) b.disks fds r b'.disks fds')
    hrefused (fun hop' => by simp [hop] at hop') (fun owner hb _ => ?_)
    (fun _ _ hop' => by simp [hop] at hop') fun _ _ hop' => by simp [hop] at hop'
  have hdisks : b.disks = owner.disks := by rw [Backend.disks, hb]; rfl
  rw [hdisks] at h ⊢
  refine wp_mono (blockEnum_grows hb h (.decode m) fds) fun r b' fds' hpost => ?_
  obtain ⟨⟨added, hblocks, hinventory, rfl⟩, hsame, hanswer⟩ := hpost
  have hdisks' : b'.disks = owner.disks ++ added := by rw [Backend.disks, hblocks]; rfl
  refine ⟨⟨added, hdisks', rfl, fun hcursor => ?_⟩, by rw [hdisks']; exact hinventory, hanswer⟩
  obtain ⟨rfl, -⟩ := hsame hcursor
  exact List.self_eq_append_right.mp (hdisks.symm.trans hdisks')

theorem Within.disks {ps : List Part} {b b' : Backend} (h : Within ps b b')
    (hblocks : Part.blocks ∉ ps) : b'.disks = b.disks := by
  unfold Backend.disks
  rw [h.blocks hblocks]

/-- A `BLOCK_BIND` leaves the table of disks alone. -/
theorem bindRange_disks (owner : BlockOwner) (request : BlockBind) (disks : List PhysicalDisk) :
    Keeps (.free Sys) (fun b _ => b.disks = disks) (bindRange owner request) := by
  have hconfined {α : Type} {m : Service α} (hm : Confined [] m) :
      Keeps (.free Sys) (fun b _ => b.disks = disks) m := by
    intro b k h
    exact wp_mono (hm.wp b) fun _ b' _ hb => (hb.disks (by simp)).trans h
  unfold bindRange
  dsimp only
  split
  · refine keeps_ite (fun _ => keeps_pure _) fun _ => ?_
    split
    · exact keeps_pure _
    · refine keeps_bind (hconfined (.of_silent (diskCurrent_silent _))) fun _ =>
        keeps_ite (fun _ => keeps_pure _) fun _ => keeps_ite (fun _ => keeps_pure _) fun _ =>
          keeps_ite (fun _ => keeps_pure _) fun _ => keeps_ite (fun _ => keeps_pure _) fun _ =>
            keeps_bind (hconfined (blockTargetPublish_confined _ _ _ _)) fun _ =>
              keeps_ite (fun _ => keeps_pure _) fun _ =>
                keeps_bind (keeps_modify fun b _ h => ?_) fun _ => keeps_pure _
      show ((b.blocks.map _).map _).getD [] = disks
      rw [Option.map_map]
      exact h
  · exact keeps_pure _

/-- No request but `BLOCK_ENUM` changes the table of disks. -/
theorem dispatch_disks (hop : operationOf m ≠ .blockEnum) :
    (dispatch session m).wp (.free Sys) (fun _ b' _ => b'.disks = b.disks) b () := by
  by_cases hbind : operationOf m = .blockBind
  · refine wp_dispatch_block (by rw [hbind]; rfl) rfl ?_
    refine wp_blockDispatch (Q := fun _ b' _ => b'.disks = b.disks) (fun _ _ => rfl)
      (fun _ _ _ => rfl) (fun _ _ h => absurd h hop)
      (fun owner _ _ => ?_) fun owner _ _ => bindRange_disks owner _ _ b () rfl
    have hread : Confined [] (blockRead owner (.decode m)) := .of_silent (blockRead_silent owner _)
    exact wp_mono (hread.wp b) fun _ b' _ hb => hb.disks (by simp)
  · refine wp_mono (dispatch_confined session m b) fun r b' _ hb => ?_
    refine hb.disks fun hblocks => ?_
    unfold Operation.touched at hblocks
    split at hblocks
    · simp at hblocks
    · cases hm : operationOf m <;>
        simp_all [Operation.parts, releaseParts, networkParts]

/-- A request for a disk is answered with what its currency check lets through. -/
theorem dispatch_selects {id : UInt64}
    (hop : operationOf m = .blockRead ∧ id = (BlockRead.decode m).disk ∨
      operationOf m = .blockBind ∧ id = (BlockBind.decode m).disk) :
    (dispatch session m).wp (.history Sys)
      (fun r _ es => Selected b.disks id r.1.status es) b [] := by
  have hdisks {owner : BlockOwner} (hb : b.blocks = some owner) : b.disks = owner.disks := by
    rw [Backend.disks, hb]
    rfl
  refine wp_dispatch_block ?_ (.refused (.inl rfl)) ?_
  · obtain ⟨hop, -⟩ | ⟨hop, -⟩ := hop <;> (rw [hop]; rfl)
  refine wp_blockDispatch (Q := fun r _ es => Selected b.disks id r.status es)
    (fun _ hstatus => .refused hstatus) (fun hop' => ?_) (fun owner hb hop' => ?_)
    (fun owner hb hop' => ?_) fun owner hb hop' => ?_
  · simp [hop'] at hop
  · simp [hop'] at hop
  · obtain ⟨-, rfl⟩ | ⟨hop, -⟩ := hop
    · rw [hdisks hb]
      exact blockRead_selects owner _ b
    · simp [hop'] at hop
  · obtain ⟨hop, -⟩ | ⟨-, rfl⟩ := hop
    · simp [hop'] at hop
    · rw [hdisks hb]
      exact bindRange_selects owner _ b

end Requests

/-! ## One turn -/

namespace Turn

variable (t : Turn)

/-- The turn executes a record with this operation. -/
def Executes (op : Operation) : Prop := t.served.dispatched = true ∧ operationOf t.record = op

/-- The cursor of a `BLOCK_ENUM`, and the record it is answered with. -/
def cursor : UInt32 := (BlockEnum.decode t.record).cursor

def info : BlockInfo := .decode t.served.response.tail

/-- The turn starts an enumeration, which refreshes the table of disks. -/
def Refreshes : Prop := t.Executes .blockEnum ∧ t.cursor = 0

/-- The turn enumerates without failure. -/
def Enumerates : Prop := t.Executes .blockEnum ∧ t.served.response.status = Status.ok.code

end Turn

section Runs

variable {env : Environment Sys} {past : List (Event Sys)} {s : Serving} {ms : List Bytes}
  {t : Turn}

theorem disks_diagnostic (b : Backend) : b.diagnostic.disks = b.disks :=
  (Within.diagnostic [] b).disks (by simp)

/-- A turn that does not execute `BLOCK_ENUM` leaves the table of disks alone. -/
theorem turns_disks (ht : t ∈ turns env past s ms) (hop : ¬ t.Executes .blockEnum) :
    t.after.backend.disks = t.before.backend.disks := by
  cases hserved : t.served.dispatched with
  | true =>
    obtain ⟨-, r, b', hdisks, -, hafter⟩ := turns_executed_wp (C := .free Sys) ht hserved
      (Contract.free_assumed () _) fun session => dispatch_disks fun h => hop ⟨hserved, h⟩
    rw [hafter, disks_diagnostic, hdisks, disks_diagnostic]
  | false =>
    rw [(turns_round ht).2.not_dispatched hserved]
    exact t.before.logged_within.disks (by simp)

/-- What a turn that executes `BLOCK_ENUM` does to the table of disks. -/
theorem turns_enumerates (ht : t ∈ turns env past s ms) (hop : t.Executes .blockEnum)
    (h : Inventory t.before.backend.disks) :
    ∃ added, t.after.backend.disks = t.before.backend.disks ++ added ∧
      Inventory t.after.backend.disks ∧ Balanced t.events (retained added) ∧
      (t.cursor ≠ 0 → added = []) ∧
      (t.served.response.status = Status.ok.code → t.cursor.toNat ≤ t.after.backend.disks.length ∧
        t.info = diskInfo t.after.backend.disks t.cursor.toNat) := by
  obtain ⟨hobeyed, r, b', henumerated, hresponse, hafter⟩ :=
    turns_executed_wp (C := descriptors) (k := 0) ht hop.1 (descriptors_assumed _ _)
      fun session => dispatch_enumerates hop.2 (by rw [disks_diagnostic]; exact h) 0
  obtain ⟨⟨added, hdisks, hfds, hsame⟩, hinventory, hanswer⟩ := henumerated
  rw [hafter, disks_diagnostic]
  rw [disks_diagnostic] at hdisks
  have hbalanced := descriptors_balanced hobeyed
  rw [hfds, add_zero] at hbalanced
  refine ⟨added, hdisks, hinventory, hbalanced, hsame, fun hok => ?_⟩
  obtain ⟨hcursor, hinfo⟩ := hanswer (Status.code_injective (by rw [← hok, hresponse]; rfl))
  refine ⟨hcursor, ?_⟩
  rw [Turn.info, hresponse]
  exact hinfo

/-- A turn that reads from or binds a disk is answered with what its currency check lets
through. -/
theorem turns_selects {id : UInt64} (ht : t ∈ turns env past s ms)
    (hop : t.Executes .blockRead ∧ id = (BlockRead.decode t.record).disk ∨
      t.Executes .blockBind ∧ id = (BlockBind.decode t.record).disk) :
    ∃ status, t.served.response.status = status.code ∧
      Selected t.before.backend.disks id status t.events := by
  have hserved : t.served.dispatched = true := by
    obtain ⟨hop, -⟩ | ⟨hop, -⟩ := hop <;> exact hop.1
  obtain ⟨-, r, b', hselected, hresponse, -⟩ := turns_executed_wp (C := .history Sys) (k := []) ht
    hserved (Contract.history_assumed _ _) fun session => dispatch_selects
      (hop.imp (fun h => ⟨h.1.2, h.2⟩) fun h => ⟨h.1.2, h.2⟩)
  rw [Contract.history_after, List.nil_append, disks_diagnostic] at hselected
  exact ⟨r.1.status, by rw [hresponse]; rfl, hselected⟩

/-- The table of disks stays an inventory. -/
theorem turns_inventory (ht : t ∈ turns env past s ms) (h : Inventory t.before.backend.disks) :
    Inventory t.after.backend.disks := by
  by_cases hop : t.Executes .blockEnum
  · obtain ⟨_, -, hinventory, -⟩ := turns_enumerates ht hop h
    exact hinventory
  · rw [turns_disks ht hop]
    exact h

/-! ## Runs -/

theorem turns_inventories (hs : Inventory s.backend.disks) (ht : t ∈ turns env past s ms) :
    Inventory t.before.backend.disks := by
  obtain ⟨pre, post, hts⟩ := List.append_of_mem ht
  refine turns_keep (P := fun s => Inventory s.backend.disks) hs hts fun v hv h => ?_
  exact turns_inventory (by rw [hts]; exact List.mem_append_left _ hv) h

/-- The table before a turn extends the table at the start of the run. -/
theorem turns_prefix {mid post : List Turn} (hs : Inventory s.backend.disks)
    (hts : turns env past s ms = mid ++ t :: post) :
    s.backend.disks <+: t.before.backend.disks := by
  refine turns_keep (P := fun s' => s.backend.disks <+: s'.backend.disks) List.prefix_rfl hts
    fun v hv h => ?_
  have hmem : v ∈ turns env past s ms := by rw [hts]; exact List.mem_append_left _ hv
  by_cases hop : v.Executes .blockEnum
  · obtain ⟨added, hadded, -⟩ := turns_enumerates hmem hop (turns_inventories hs hmem)
    rw [hadded]
    exact h.trans (List.prefix_append _ added)
  · rw [turns_disks hmem hop]
    exact h

/-- Without a refresh the table stays as it is. -/
theorem turns_unrefreshed {mid post : List Turn} (hs : Inventory s.backend.disks)
    (hts : turns env past s ms = mid ++ t :: post) (hquiet : ∀ v ∈ mid, ¬ v.Refreshes) :
    t.before.backend.disks = s.backend.disks := by
  refine turns_keep (P := fun s' => s'.backend.disks = s.backend.disks) rfl hts fun v hv h => ?_
  have hmem : v ∈ turns env past s ms := by rw [hts]; exact List.mem_append_left _ hv
  by_cases hop : v.Executes .blockEnum
  · obtain ⟨added, hadded, -, -, hsame, -⟩ :=
      turns_enumerates hmem hop (turns_inventories hs hmem)
    rw [hadded, hsame fun hcursor => hquiet v hv ⟨hop, hcursor⟩, List.append_nil]
    exact h
  · exact (turns_disks hmem hop).trans h

end Runs

/-! ## Following the cursors -/

section Enumeration

variable {disks : List PhysicalDisk} {i : Nat}

theorem diskInfo_nextCursor (h : Inventory disks) (hi : i < disks.length) :
    (diskInfo disks i).nextCursor.toNat = i + 1 := by
  have hbound : disks.length ≤ 128 := h.bound
  rw [diskInfo, List.getElem?_eq_getElem hi]
  exact UInt32.toNat_ofNat_of_lt' (show i + 1 < 2 ^ 32 by omega)

/-- The record after the last disk is all zero. -/
theorem diskInfo_length (disks : List PhysicalDisk) :
    diskInfo disks disks.length = ⟨0, 0, 0, 0, 0, 0⟩ := by
  rw [diskInfo, List.getElem?_eq_none (Nat.le_refl _)]

variable {env : Environment Sys} {past : List (Event Sys)} {s : Serving} {ms : List Bytes}
  {rest post : List Turn} {t : Turn}

/-- An enumeration that goes on at a cursor in the table is answered the record there. -/
theorem turns_next (hs : Inventory s.backend.disks) (hts : turns env past s ms = rest ++ post)
    (hquiet : ∀ v ∈ rest, ¬ v.Refreshes) (ht : t ∈ rest) (henumerates : t.Enumerates) :
    t.cursor.toNat ≤ s.backend.disks.length ∧
      t.info = diskInfo s.backend.disks t.cursor.toNat := by
  have hmem : t ∈ turns env past s ms := by rw [hts]; exact List.mem_append_left _ ht
  obtain ⟨mid, later, hrest⟩ := List.append_of_mem ht
  have hsplit : turns env past s ms = mid ++ t :: (later ++ post) := by
    rw [hts, hrest, List.append_assoc]
    rfl
  have hbefore : t.before.backend.disks = s.backend.disks :=
    turns_unrefreshed hs hsplit fun v hv =>
      hquiet v (by rw [hrest]; exact List.mem_append_left _ hv)
  obtain ⟨added, hadded, -, -, hsame, hanswer⟩ :=
    turns_enumerates hmem henumerates.1 (turns_inventories hs hmem)
  have hafter : t.after.backend.disks = s.backend.disks := by
    rw [hadded, hsame fun hcursor => hquiet t ht ⟨henumerates.1, hcursor⟩, List.append_nil, hbefore]
  rw [hafter] at hanswer
  exact hanswer henumerates.2

/-- The turns of an enumeration that follows its cursors, after the first one. -/
theorem enumeration_follows (hs : Inventory s.backend.disks)
    (hts : turns env past s ms = rest ++ post) (hquiet : ∀ v ∈ rest, ¬ v.Refreshes)
    {chain : List Turn} (hchain : ∀ t ∈ chain, t ∈ rest ∧ t.Enumerates)
    (hfollow : chain.IsChain fun t u => u.cursor = t.info.nextCursor)
    (hi : i ≤ s.backend.disks.length)
    (hfirst : ∀ t, chain.head? = some t → t.cursor = (diskInfo s.backend.disks i).nextCursor) :
    ∀ j t, chain[j]? = some t → i + 1 + j ≤ s.backend.disks.length ∧
      t.info = diskInfo s.backend.disks (i + 1 + j) := by
  induction chain generalizing i with
  | nil => exact fun j t h => by cases h
  | cons u chain ih =>
    obtain ⟨hu, henumerates⟩ := hchain u List.mem_cons_self
    obtain ⟨hle, hinfo⟩ := turns_next hs hts hquiet hu henumerates
    have hcursor := hfirst u rfl
    -- after the zero record the cursor would be 0 again, which is a refresh
    have hlt : i < s.backend.disks.length := by
      refine Nat.lt_of_le_of_ne hi fun hlast => hquiet u hu ⟨henumerates.1, ?_⟩
      rw [hcursor, hlast, diskInfo_length]
    have hnext : u.cursor.toNat = i + 1 := by rw [hcursor, diskInfo_nextCursor hs hlt]
    rw [hnext] at hle hinfo
    intro j t ht
    cases j with
    | zero =>
      obtain rfl := Option.some_inj.mp ht
      exact ⟨hle, hinfo⟩
    | succ j =>
      rw [show i + 1 + (j + 1) = i + 1 + 1 + j by omega]
      refine ih (fun t ht => hchain t (List.mem_cons_of_mem _ ht)) hfollow.tail hle (fun v hv => ?_)
        j t ht
      rw [← hinfo]
      cases chain with
      | nil => cases hv
      | cons w chain =>
        obtain rfl := Option.some_inj.mp hv
        exact (List.isChain_cons_cons.mp hfollow).1

end Enumeration

/-! ## Identifiers are stable -/

/-- The disks an enumeration returns, in a run whose turns are `ts`: if `first` starts one and
nothing refreshes the table in `rest`, then the turns `chain` that follow its cursors are
answered the records of the table in order, the last one all zero. -/
def Enumerating (ts : List Turn) : Prop :=
  ∀ pre first rest post, ts = pre ++ first :: (rest ++ post) →
    first.Enumerates → first.cursor = 0 → (∀ t ∈ rest, ¬ t.Refreshes) →
    ∀ chain : List Turn, chain.Sublist rest → (∀ t ∈ chain, t.Enumerates) →
      (first :: chain).IsChain (fun t u => u.cursor = t.info.nextCursor) →
      ∀ i t, (first :: chain)[i]? = some t → i ≤ first.after.backend.disks.length ∧
        t.info = diskInfo first.after.backend.disks i

/-- What holds of the table of disks in a run whose turns are `ts`. -/
structure IdentifiersStable (ts : List Turn) : Prop where
  inventory : ∀ t ∈ ts, Inventory t.after.backend.disks
  refreshed : ∀ t ∈ ts, ∃ added, t.after.backend.disks = t.before.backend.disks ++ added ∧
    (t.Refreshes → Balanced t.events (retained added)) ∧ (¬ t.Refreshes → added = [])
  stable : ∀ pre t mid u post, ts = pre ++ t :: (mid ++ u :: post) →
    t.after.backend.disks <+: u.before.backend.disks
  enumerated : Enumerating ts
  current : ∀ t ∈ ts, ∀ id, t.Executes .blockRead ∧ id = (BlockRead.decode t.record).disk ∨
    t.Executes .blockBind ∧ id = (BlockBind.decode t.record).disk →
    ∃ status, t.served.response.status = status.code ∧
      Selected t.before.backend.disks id status t.events

theorem Start.disks (start : Start) : start.backend.disks = [] := by
  cases start with
  | managed setup =>
    obtain ⟨_, _, _, role⟩ := setup
    cases role <;> rfl
  | standalone fixture => rfl

theorem turns_enumerating {env : Environment Sys} {s : Serving} {ms : List Bytes}
    (hs : Inventory s.backend.disks) : Enumerating (turns env [] s ms) := by
  intro pre first rest post hts hfirst hzero hquiet chain hsub hall hfollow i t ht
  have hmem : first ∈ turns env [] s ms := by rw [hts]; simp
  obtain ⟨added, -, hinventory, -, -, hanswer⟩ :=
    turns_enumerates hmem hfirst.1 (turns_inventories hs hmem)
  obtain ⟨past', ms', hrest⟩ := turns_after hts
  cases i with
  | zero =>
    obtain rfl := Option.some_inj.mp ht
    have h := hanswer hfirst.2
    rw [hzero] at h
    exact h
  | succ i =>
    have hinfo : first.info = diskInfo first.after.backend.disks 0 := by
      have h := (hanswer hfirst.2).2
      rw [hzero] at h
      exact h
    have h := enumeration_follows (i := 0) hinventory hrest.symm hquiet
      (fun t ht => ⟨hsub.subset ht, hall t ht⟩) hfollow.tail (Nat.zero_le _) (fun u hu => ?_) i t ht
    · rw [show i + 1 = 0 + 1 + i by omega]
      exact h
    · rw [← hinfo]
      cases chain with
      | nil => cases hu
      | cons w chain =>
        obtain rfl := Option.some_inj.mp hu
        exact (List.isChain_cons_cons.mp hfollow).1

/-- Disk identifiers are stable. In every run, whatever the hardware answers, the table of disks
only grows: it holds at most 128 disks, no two with one device number; a refresh retains or
closes every descriptor it opens; an enumeration returns the identifiers in order; and a request
for a disk gets past the currency check only while the retained descriptor reports the recorded
sequence and capacity. -/
theorem disk_identifiers_stable (start : Start) (env : Environment Sys) (ms : List Bytes) :
    IdentifiersStable (turns env [] start.serving ms) := by
  have hs : Inventory start.serving.backend.disks := by
    rw [show start.serving.backend = start.backend from rfl, start.disks]
    exact .empty
  refine ⟨fun t ht => turns_inventory ht (turns_inventories hs ht), fun t ht => ?_,
    fun pre t mid u post hts => ?_, turns_enumerating hs, fun t ht id hop => turns_selects ht hop⟩
  · by_cases hop : t.Executes .blockEnum
    · obtain ⟨added, hadded, -, hbalanced, hsame, -⟩ :=
        turns_enumerates ht hop (turns_inventories hs ht)
      exact ⟨added, hadded, fun _ => hbalanced, fun h => hsame fun hcursor => h ⟨hop, hcursor⟩⟩
    · refine ⟨[], ?_, fun h => absurd h.1 hop, fun _ => rfl⟩
      rw [turns_disks ht hop, List.append_nil]
  · obtain ⟨past', ms', hrest⟩ := turns_after hts
    have hmem : t ∈ turns env [] start.serving ms := by rw [hts]; simp
    exact turns_prefix (turns_inventory hmem (turns_inventories hs hmem)) hrest.symm

end HyperIoVm
