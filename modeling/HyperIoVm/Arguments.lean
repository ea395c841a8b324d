import HyperIoVm.ClientTable
import HyperIoVm.Exports

/-!
# The arguments of a service

The supervisor (`main` of `service/hyper-io-supervisor.c`) prints an entry of the client table into
the arguments of a service, and `main` of `service/hyper-io-service.c` reads them back.
-/

namespace HyperIoVm

open Data

/-! ## Printing -/

/-- `snprintf(buffer, size, ...)`: the text, cut to what the buffer has room for. -/
def snprintf (size : Nat) (text : List Char) : List Char := text.take (size - 1)

def memoryNode (id : UInt32) : List Char := "/dev/hyper-memory-".toList ++ decimal id.toNat

def controlNode (id : UInt32) : List Char := "/dev/hyper-io-control-".toList ++ decimal id.toNat

def notificationNode (id : UInt32) : List Char :=
  "/dev/hyper-io-notification-".toList ++ decimal id.toNat

def netNotificationNode (id : UInt32) : List Char := notificationNode id ++ "-net".toList

/-- The target of a client; `present` is the outcome of the check for its notification node. -/
def clientTarget (id : UInt32) (present : Bool) : List Char :=
  if id = 0 then "owner".toList
  else if present then "naa.5001405".toList ++ (hex9 id.toNat).toList
  else "-".toList

/-- The arguments of the service of one client. -/
def supervisorArguments (client : HyperClient) (present : Bool) : List (List Char) :=
  ["hyper-io-service".toList, snprintf 64 (memoryNode client.id),
    snprintf 32 (clientTarget client.id present), snprintf 64 (controlNode client.id),
    snprintf 64 (notificationNode client.id), client.network, client.mac,
    snprintf 64 (netNotificationNode client.id),
    snprintf 16 (decimal client.requestQueues.toNat), snprintf 16 (decimal client.sgPrealloc.toNat),
    snprintf 16 (decimal client.netResources.rxBacklogPackets.toNat),
    snprintf 16 (decimal client.netResources.txBufferBytes.toNat)]

/-! ## Reading -/

/-- The network device a client asks for. -/
structure NetworkArguments where
  network : List Char
  mac : Bytes
  notification : List Char
  deriving DecidableEq, Repr

/-- What `main` has read when it starts to open its devices. -/
structure ServiceArguments where
  managed : Bool
  owner : Bool
  memory : List Char
  wwpn : List Char
  control : List Char
  notification : List Char
  network : Option NetworkArguments
  scsi : ScsiResources
  netResources : NetworkResources
  deriving DecidableEq, Repr

/-- The SCSI resources, when there are arguments for them; an error is the status `main` returns. -/
def scsiArguments (argc : Nat) (queues sg : List Char) : Except Nat ScsiResources :=
  if argc < 10 then .ok ⟨hyperScsiRequestQueues, hyperScsiSgPrealloc⟩
  else if queues.isEmpty || !(strtoul queues).2.isEmpty ||
      (strtoul queues).1 > hyperScsiRequestQueues.toUInt64 then .error 2
  else if sg.isEmpty || !(strtoul sg).2.isEmpty || (strtoul sg).1 > 2048 ||
      !hyperScsiResourcesValid (strtoul queues).1.toUInt32 (strtoul sg).1.toUInt32 then .error 2
  else .ok ⟨(strtoul queues).1.toUInt32, (strtoul sg).1.toUInt32⟩

/-- The network resources, when there are arguments for them. -/
def netArguments (argc : Nat) (rx tx : List Char) : Except Nat NetworkResources :=
  if argc = 12 then
    match hyperNetworkResourcesParse rx tx with
    | some resources => .ok resources
    | none => .error 2
  else .ok ⟨hyperNetRxBacklogPackets, 0⟩

/-- The network device of a managed client that is not the owner. -/
def networkArguments (client : Bool) (network mac notification : List Char) :
    Except Nat (Option NetworkArguments) :=
  if client && network != "-".toList then
    match hyperMacParse mac with
    | some mac => .ok (some { network, mac, notification })
    | none => .error 1
  else .ok none

/-- The arguments of `main`; an error is the status it returns. -/
def serviceArguments (argv : List (List Char)) : Except Nat ServiceArguments :=
  let argc := argv.length
  let arg (i : Nat) := argv.getD i []
  if ¬ (argc = 3 ∨ argc = 8 ∨ argc = 10 ∨ argc = 12) ∨ (arg 2).length ≥ 224 then .error 2
  else do
    let managed := argc ≥ 8
    let scsi ← scsiArguments argc (arg 8) (arg 9)
    let netResources ← netArguments argc (arg 10) (arg 11)
    let owner := managed && arg 2 == "owner".toList
    if owner && (arg 3 != "/dev/hyper-io-control-0".toList || arg 5 != "-".toList) then .error 2
    else do
      let network ← networkArguments (!owner && managed) (arg 5) (arg 6) (arg 7)
      return { managed, owner, memory := arg 1,
               wwpn := if !owner && arg 2 != "-".toList then arg 2 else [],
               control := arg 3, notification := arg 4, network, scsi, netResources }

/-! ## Names -/

theorem snprintf_eq {size : Nat} {text : List Char} (h : text.length < size) :
    snprintf size text = text := List.take_of_length_le (by omega)

section Numbered

variable {pre suffix : List Char} {m n : Nat}

/-- A prefix and the number after it determine the number. -/
theorem append_decimal_injective (h : pre ++ decimal m = pre ++ decimal n) : m = n := by
  rw [← digitsValue_decimal m, List.append_cancel_left h, digitsValue_decimal]

/-- Nothing but digits follows the prefix. -/
theorem append_decimal_ne {c : Char} (hc : c ∈ suffix) (hdigit : c.isDigit = false) :
    pre ++ decimal m ≠ pre ++ decimal n ++ suffix := by
  intro h
  rw [List.append_assoc] at h
  have hmem : c ∈ decimal m := by
    rw [List.append_cancel_left h]
    exact List.mem_append_right _ hc
  have hisDigit := decimal_digits c hmem
  rw [hdigit] at hisDigit
  cases hisDigit

/-- The identifier of a client has three digits at most. -/
theorem length_append_decimal (h : n < 128) :
    (pre ++ decimal n).length ≤ pre.length + 3 := by
  have hlength : (decimal n).length ≤ 3 := decimal_length_le (by decide) (h.trans (by decide))
  rw [List.length_append]
  omega

end Numbered

section Names

variable {id id' : UInt32} {present present' : Bool}

/-- Every name fits its buffer. -/
theorem names_fit (h : id.toNat < 128) : (memoryNode id).length < 64 ∧
    (controlNode id).length < 64 ∧ (notificationNode id).length < 64 ∧
      (netNotificationNode id).length < 64 := by
  refine ⟨?_, ?_, ?_, ?_⟩
  · exact (length_append_decimal h).trans_lt (by decide +kernel)
  · exact (length_append_decimal h).trans_lt (by decide +kernel)
  · exact (length_append_decimal h).trans_lt (by decide +kernel)
  · have hsuffix : "/dev/hyper-io-notification-".toList.length + 3 + "-net".toList.length < 64 := by
      decide +kernel
    rw [netNotificationNode, List.length_append]
    exact (Nat.add_le_add_right (length_append_decimal h) _).trans_lt hsuffix

/-- The target of a client fits its buffer. -/
theorem clientTarget_fits (h : id.toNat < 128) : (clientTarget id present).length < 32 := by
  rw [clientTarget]
  split
  · decide
  · split
    · have hdigits : (Nat.toDigits 16 id.toNat).length ≤ 9 :=
        (Nat.length_toDigits_le_iff (by decide) (by decide)).mpr (h.trans (by decide))
      have hprefix : "naa.5001405".toList.length = 11 := by decide +kernel
      rw [List.length_append, hprefix, hex9, String.toList_ofList, List.length_append,
        List.length_replicate]
      omega
    · decide

theorem memoryNode_injective (h : memoryNode id = memoryNode id') : id = id' := by
  apply UInt32.toNat_inj.mp
  exact append_decimal_injective h

theorem controlNode_injective (h : controlNode id = controlNode id') : id = id' := by
  apply UInt32.toNat_inj.mp
  exact append_decimal_injective h

theorem notificationNode_injective (h : notificationNode id = notificationNode id') : id = id' := by
  apply UInt32.toNat_inj.mp
  exact append_decimal_injective h

theorem netNotificationNode_injective (h : netNotificationNode id = netNotificationNode id') :
    id = id' := by
  apply notificationNode_injective
  rw [netNotificationNode, netNotificationNode] at h
  exact List.append_cancel_right h

/-- The two notification nodes of clients differ: one ends in a digit. -/
theorem notificationNode_ne_net : notificationNode id ≠ netNotificationNode id' := by
  have hsuffix : 't' ∈ "-net".toList := by decide +kernel
  rw [netNotificationNode]
  exact append_decimal_ne hsuffix (by decide)

/-- Only the owner's target is the owner's. -/
theorem clientTarget_owner : clientTarget id present = "owner".toList ↔ id = 0 := by
  rw [clientTarget]
  split
  next hid =>
    exact iff_of_true rfl hid
  next hid =>
    refine iff_of_false (fun h => ?_) hid
    split at h
    · exact absurd (List.cons.inj h).1 (by decide)
    · exact absurd h (by decide)

/-- Clients with the same target are the same, or both have none. -/
theorem clientTarget_injective (h : clientTarget id present = clientTarget id' present') :
    id = id' ∨ clientTarget id present = "-".toList := by
  by_cases hid : id = 0
  · rw [clientTarget_owner.mpr hid] at h
    exact .inl (hid.trans (clientTarget_owner.mp h.symm).symm)
  · have hid' : id' ≠ 0 := by
      intro hid'
      rw [clientTarget_owner.mpr hid'] at h
      exact hid (clientTarget_owner.mp h)
    rw [clientTarget, clientTarget, if_neg hid, if_neg hid'] at *
    cases present with
    | false => exact .inr rfl
    | true =>
      cases present' with
      | false => exact absurd (List.cons.inj h).1 (by decide)
      | true =>
        left
        apply UInt32.toNat_inj.mp
        apply hex9_injective
        exact String.toList_injective (List.append_cancel_left h)

end Names

/-! ## Reading back -/

section Reading

variable {client : HyperClient} {present : Bool}

/-- A printed number is read to its end. -/
theorem strtoul_decimal (v : UInt32) : strtoul (decimal v.toNat) = (v.toUInt64, []) := by
  have hv : v.toNat < 2 ^ 32 := v.toNat_lt
  rw [strtoul_digits (decimal_ne_nil _) decimal_digits (by rw [digitsValue_decimal]; omega),
    digitsValue_decimal]
  exact congrArg (·, [])
    (UInt64.toNat_inj.mp (UInt64.toNat_ofNat_of_lt' (show _ < 2 ^ 64 by omega)))

theorem scsiArguments_decimal {queues sg : UInt32}
    (h : (1 ≤ queues.toNat ∧ queues.toNat ≤ 4) ∧ 2 ≤ sg.toNat ∧ sg.toNat ≤ 2048) :
    scsiArguments 12 (decimal queues.toNat) (decimal sg.toNat) = .ok ⟨queues, sg⟩ := by
  have hempty (v : UInt32) : (decimal v.toNat).isEmpty = false := by
    rw [List.isEmpty_eq_false_iff]
    exact decimal_ne_nil _
  have hqueues : ¬ queues.toUInt64 > hyperScsiRequestQueues.toUInt64 := by
    rw [gt_iff_lt, UInt64.lt_iff_toNat_lt, UInt32.toNat_toUInt64, UInt32.toNat_toUInt64]
    exact Nat.not_lt.mpr h.1.2
  have hsg : ¬ sg.toUInt64 > 2048 := by
    rw [gt_iff_lt, UInt64.lt_iff_toNat_lt, UInt32.toNat_toUInt64]
    exact Nat.not_lt.mpr h.2.2
  have hvalid := hyperScsiResourcesValid_iff.mpr h
  rw [scsiArguments, if_neg (by decide), strtoul_decimal, strtoul_decimal]
  simp [hempty, hqueues, hsg, hvalid]

theorem netArguments_decimal {r : NetworkResources} (h : r.Valid) :
    netArguments 12 (decimal r.rxBacklogPackets.toNat) (decimal r.txBufferBytes.toNat) =
      .ok r := by
  rw [netArguments, if_pos rfl, hyperNetworkResourcesParse_decimal h]

/-- The network device of a client: the one its entry names, with the entry's address, or none. -/
structure HyperClient.Network (client : HyperClient) (network : Option NetworkArguments) :
    Prop where
  some : client.networked = true → ∃ mac, client.HasMac mac ∧
    network = some ⟨client.network, mac, netNotificationNode client.id⟩
  none : client.networked = false → network = none

theorem networkArguments_client (h : client.Valid) : ∃ network, client.Network network ∧
    networkArguments (!(client.id == 0) && true) client.network client.mac
      (netNotificationNode client.id) = .ok network := by
  rw [networkArguments]
  obtain ⟨hdash, -⟩ | ⟨hid, hname, mac, hmac⟩ := h.network
  · have hnone : client.networked = false := by
      rw [HyperClient.networked, hdash]
      rfl
    refine ⟨none, ⟨fun hsome => ?_, fun _ => rfl⟩, ?_⟩
    · rw [hnone] at hsome
      cases hsome
    · rw [hdash, if_neg]
      intro h
      cases (Bool.and_eq_true _ _ ▸ h).2
  · refine ⟨some ⟨client.network, mac, netNotificationNode client.id⟩,
      ⟨fun _ => ⟨mac, hmac, rfl⟩, fun hnone => ?_⟩, ?_⟩
    · rw [hmac.networked] at hnone
      cases hnone
    · have hread := hyperMacParse_eq_some.mpr ⟨hmac.unicast, hmac.text⟩
      have hclient : (!(client.id == 0) && true && client.network != "-".toList) = true := by
        simp only [Bool.and_true, Bool.and_eq_true, Bool.not_eq_true', beq_eq_false_iff_ne,
          bne_iff_ne]
        exact ⟨hid, hname.ne_dash⟩
      rw [if_pos hclient, hread]

/-- The arguments are not cut. -/
theorem supervisorArguments_eq (h : client.Valid) : supervisorArguments client present =
    ["hyper-io-service".toList, memoryNode client.id, clientTarget client.id present,
      controlNode client.id, notificationNode client.id, client.network, client.mac,
      netNotificationNode client.id, decimal client.requestQueues.toNat,
      decimal client.sgPrealloc.toNat, decimal client.netResources.rxBacklogPackets.toNat,
      decimal client.netResources.txBufferBytes.toNat] := by
  have hnumber (v : UInt32) : (decimal v.toNat).length < 16 := by
    have hv : v.toNat < 10 ^ 10 := v.toNat_lt.trans (by decide)
    exact (decimal_length_le (by decide) hv).trans_lt (by decide)
  obtain ⟨hmemory, hcontrol, hnotification, hnet⟩ := names_fit h.id
  rw [supervisorArguments, snprintf_eq hmemory, snprintf_eq (clientTarget_fits h.id),
    snprintf_eq hcontrol, snprintf_eq hnotification, snprintf_eq hnet, snprintf_eq (hnumber _),
    snprintf_eq (hnumber _), snprintf_eq (hnumber _), snprintf_eq (hnumber _)]

/-- What a service reads from the arguments of an entry. -/
theorem serviceArguments_supervisor (h : client.Valid) : ∃ network, client.Network network ∧
    serviceArguments (supervisorArguments client present) =
      .ok { managed := true, owner := client.id == 0, memory := memoryNode client.id,
            wwpn := if client.id ≠ 0 ∧ present then clientTarget client.id present else [],
            control := controlNode client.id, notification := notificationNode client.id,
            network, scsi := ⟨client.requestQueues, client.sgPrealloc⟩,
            netResources := client.netResources } := by
  obtain ⟨network, hnetwork, hread⟩ := networkArguments_client h
  refine ⟨network, hnetwork, ?_⟩
  have howner : (clientTarget client.id present == "owner".toList) = (client.id == 0) := by
    rw [Bool.eq_iff_iff, beq_iff_eq, beq_iff_eq]
    exact clientTarget_owner
  have hchecks : ¬ ((client.id == 0) &&
      (controlNode client.id != "/dev/hyper-io-control-0".toList ||
      client.network != "-".toList)) = true := by
    intro hcheck
    rw [Bool.and_eq_true, beq_iff_eq] at hcheck
    obtain ⟨hid, hcheck⟩ := hcheck
    rw [hid, h.owner hid] at hcheck
    exact absurd hcheck (by decide +kernel)
  have hmanaged : decide (12 ≥ 8) = true := rfl
  have hargc : ¬ (¬ (12 = 3 ∨ 12 = 8 ∨ 12 = 10 ∨ True) ∨
      (clientTarget client.id present).length ≥ 224) := by
    have hfits : (clientTarget client.id present).length < 32 := clientTarget_fits h.id
    rw [or_true, or_true, or_true, not_true, false_or, not_le]
    exact hfits.trans (by decide)
  have hwwpn : (if (!(client.id == 0) && clientTarget client.id present != "-".toList) = true
      then clientTarget client.id present else []) =
        if client.id ≠ 0 ∧ present then clientTarget client.id present else [] := by
    by_cases hid : client.id = 0
    · simp [hid]
    · cases present <;> simp [clientTarget, hid]
  rw [supervisorArguments_eq h, serviceArguments]
  simp only [List.length_cons, List.length_nil, Nat.reduceAdd, List.getD_cons_zero,
    List.getD_cons_succ]
  rw [if_neg hargc, scsiArguments_decimal ⟨h.queues, h.sg⟩, netArguments_decimal h.resources,
    hmanaged, Bool.true_and, howner]
  dsimp only [bind, Except.bind]
  rw [if_neg hchecks, hread, hwwpn]
  rfl

end Reading

/-! ## The table -/

/-- The supervisor and the services agree on the client table. Of a table that is accepted, the
arguments of each entry fit their buffers and are read back as the entry, whether its notification
node is present or not, and the owner is the entry with identifier 0; the nodes of different
entries differ, and so do their targets unless both clients have no storage. -/
theorem supervisor_and_services_agree :
    (∀ file clients, hyperClientsRead (some file) = some clients →
      ∀ client ∈ clients, ∀ present,
        (memoryNode client.id).length < 64 ∧ (controlNode client.id).length < 64 ∧
        (notificationNode client.id).length < 64 ∧ (netNotificationNode client.id).length < 64 ∧
        (clientTarget client.id present).length < 32 ∧
        ∃ network, client.Network network ∧
          serviceArguments (supervisorArguments client present) =
            .ok { managed := true, owner := client.id == 0, memory := memoryNode client.id,
                  wwpn := if client.id ≠ 0 ∧ present then clientTarget client.id present else [],
                  control := controlNode client.id, notification := notificationNode client.id,
                  network, scsi := ⟨client.requestQueues, client.sgPrealloc⟩,
                  netResources := client.netResources }) ∧
    ∀ file clients, hyperClientsRead (some file) = some clients →
      clients.Pairwise fun a b => memoryNode a.id ≠ memoryNode b.id ∧
        controlNode a.id ≠ controlNode b.id ∧ notificationNode a.id ≠ notificationNode b.id ∧
        netNotificationNode a.id ≠ netNotificationNode b.id ∧
        notificationNode a.id ≠ netNotificationNode b.id ∧
        netNotificationNode a.id ≠ notificationNode b.id ∧
        ∀ present present', clientTarget a.id present = clientTarget b.id present' →
          clientTarget a.id present = "-".toList := by
  have htable (file : Stream) (clients : List HyperClient)
      (hread : hyperClientsRead (some file) = some clients) : DistinctClients clients := by
    obtain ⟨-, -, version, rest, -, -, hentries⟩ := readClientsFile_lines hread
    exact (readClients_distinct hentries).1
  constructor
  · intro file clients hread client hclient present
    have hvalid := (htable file clients hread).valid client hclient
    obtain ⟨hmemory, hcontrol, hnotification, hnet⟩ := names_fit hvalid.id
    exact ⟨hmemory, hcontrol, hnotification, hnet, clientTarget_fits hvalid.id,
      serviceArguments_supervisor hvalid⟩
  · intro file clients hread
    apply (List.pairwise_map.mp (htable file clients hread).ids).imp
    intro a b hid
    refine ⟨fun h => hid (memoryNode_injective h), fun h => hid (controlNode_injective h),
      fun h => hid (notificationNode_injective h), fun h => hid (netNotificationNode_injective h),
      notificationNode_ne_net, notificationNode_ne_net.symm, fun present present' h => ?_⟩
    exact (clientTarget_injective h).resolve_left hid

/-- Two clients without storage, under different identifiers, have the same target. -/
theorem targets_without_storage_equal :
    ¬ ∀ file clients, hyperClientsRead (some file) = some clients →
      ∀ a ∈ clients, ∀ b ∈ clients, a.id ≠ b.id → ∀ present present',
        clientTarget a.id present ≠ clientTarget b.id present' := by
  intro h
  have hread : hyperClientsRead (some ⟨"hyper.clients.v3\n0 - -\n1 - -\n2 - -\n".toList, false⟩) =
      some [⟨0, 4, 128, ⟨1000, 0⟩, ['-'], ['-']⟩, ⟨1, 4, 128, ⟨1000, 0⟩, ['-'], ['-']⟩,
        ⟨2, 4, 128, ⟨1000, 0⟩, ['-'], ['-']⟩] := by decide +kernel
  have htargets : clientTarget 1 false = clientTarget 2 false := by decide +kernel
  refine h _ _ hread _ (List.mem_cons_of_mem _ List.mem_cons_self) _
    (List.mem_cons_of_mem _ (List.mem_cons_of_mem _ List.mem_cons_self)) ?_ false false htargets
  decide

end HyperIoVm
