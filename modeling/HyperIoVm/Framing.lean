import HyperIoVm.Rounds

/-!
# Replies are framed

Every record is answered by one reply, which echoes the record's identity and says how long it is.
The length follows from the operation and the status alone: a failure has the prefix only, whatever
failed. What the layout of the operation leaves undefined is zero.
-/

namespace HyperIoVm

open Effects Routine

/-! ## Layouts -/

/-- The number of bytes in the reply to an operation that succeeds. -/
def Operation.replySize : Operation → Nat
  | .hello | .blockHello => 64
  | .networkHello | .blockEnum => 80
  | _ => 48

/-- How many bytes after the prefix the layout of that reply defines: `struct hyper_io_reply` up to
`queue_max`, the capabilities and the read limit of the block owner, `struct hyper_io_network_reply`
up to `mtu`, and `struct hyper_io_block_info`. -/
def Operation.replyFields : Operation → Nat
  | .hello => 16
  | .blockHello => 12
  | .networkHello => 24
  | .blockEnum => 32
  | _ => 0

theorem Operation.replySize_le (op : Operation) : 48 ≤ op.replySize ∧ op.replySize ≤ 80 := by
  cases op <;> (dsimp only [Operation.replySize]; omega)

/-- An answer has the length and the layout of its operation and its status. -/
structure Answer.Fits (op : Operation) (a : Answer) : Prop where
  size : a.size = if a.status = .ok then op.replySize else 48
  tail : a.tail.length = 32
  zero : ∀ v ∈ a.tail.drop (if a.status = .ok then op.replyFields else 0), v = 0

namespace Answer.Fits

variable {op : Operation}

/-- A failure is answered with the prefix. -/
theorem failed {status : Status} (h : status ≠ .ok) : ({ status } : Answer).Fits op where
  size := by rw [if_neg h]
  tail := List.length_replicate
  zero v hv := List.eq_of_mem_replicate (List.mem_of_mem_drop hv)

theorem refused {status : Status} (h : status = .invalid ∨ status = .unsupported) :
    ({ status } : Answer).Fits op := by
  refine failed ?_
  obtain rfl | rfl := h <;> decide

/-- So is any operation whose reply is the prefix. -/
theorem status (h : op.replySize = 48) (status : Status) : ({ status } : Answer).Fits op where
  size := by rw [h, ite_self]
  tail := List.length_replicate
  zero v hv := List.eq_of_mem_replicate (List.mem_of_mem_drop hv)

/-- The layout of a successful reply: its fields, then zeros. -/
theorem ok {size n : Nat} {f tail : Bytes} (hsize : size = op.replySize)
    (htail : tail = f ++ List.replicate n 0) (hfields : f.length = op.replyFields)
    (hlength : op.replyFields + n = 32) :
    ({ status := .ok, size, tail } : Answer).Fits op where
  size := hsize
  tail := by rw [htail, List.length_append, List.length_replicate, hfields, hlength]
  zero v hv := by
    rw [if_pos rfl, htail, ← hfields, List.drop_left] at hv
    exact List.eq_of_mem_replicate hv

end Answer.Fits

/-- The capabilities of a device that has no MAC end in zeros. -/
theorem capabilities_zero (features : UInt64) (queues queueMax : UInt32) :
    capabilities features queues queueMax (List.replicate 6 0) 0 =
      (htole64 features ++ htole32 queues ++ htole32 queueMax) ++ List.replicate 16 0 := by
  simp only [capabilities, List.append_assoc]
  rfl

/-! ## One request -/

section Requests

variable {b : Backend} {m : Bytes}

/-- The operation that asks for the capabilities of a device. -/
def Device.hello : Device → Operation
  | .storage => .hello
  | .network => .networkHello

theorem helloDevice_fits (d : Device) (hmac : b.mac.length = 6) (size : Nat) :
    (helloDevice d size).wp (.free Sys) (fun r _ _ => r.Fits d.hello) b () := by
  have hfailed (status : Status) (h : status ≠ .ok) : ({ status } : Answer).Fits d.hello :=
    .failed h
  rw [helloDevice, wp_bind, wp_get, wp_ite]
  split
  · exact hfailed _ (by decide)
  rw [wp_ite]
  split
  · exact hfailed _ (by decide)
  cases d with
  | storage =>
    dsimp only
    rw [wp_bind]
    refine wp_mono (wp_free (Q := fun _ _ => True) fun _ _ => trivial) fun ready _ _ _ => ?_
    cases ready with
    | false => exact hfailed _ (by decide)
    | true => exact .ok rfl (capabilities_zero _ _ _) (by simp [htole64, htole32]; rfl) rfl
  | network => exact .ok rfl rfl (by simp [htole64, htole32, htole16, hmac]; rfl) rfl

/-- What ends in a status only is answered with the prefix, if the operation's reply is one. -/
theorem status_fits {op : Operation} (hop : op.replySize = 48) {m : Service Status} :
    (do return { status := ← m } : Service Answer).wp (.free Sys)
      (fun r _ _ => r.Fits op) b () := by
  rw [wp_bind]
  exact wp_mono (wp_free (Q := fun _ _ => True) fun _ _ => trivial) fun status _ _ _ =>
    .status hop status

theorem dispatchOperation_fits (hmac : b.mac.length = 6) (op : Operation)
    (hop : op.isBlock = false) :
    (dispatchOperation op m).wp (.free Sys) (fun r _ _ => r.Fits op) b () := by
  have hinvalid {op : Operation} : ({ status := .invalid } : Answer).Fits op := .refused (.inl rfl)
  have hguarded {op : Operation} (p : Prop) [Decidable p] (hop : op.replySize = 48)
      {m : Service Status} :
      (do if p then return { status := ← m } else return { status := .invalid } :
        Service Answer).wp (.free Sys) (fun r _ _ => r.Fits op) b () := by
    rw [wp_ite]
    split
    · exact status_fits hop
    · exact hinvalid
  rw [dispatchOperation, wp_bind, wp_get]
  cases op with
  | hello => exact helloDevice_fits .storage hmac _
  | networkHello => exact helloDevice_fits .network hmac _
  | prepareMemory | activate | networkActivate => exact hguarded _ rfl
  | reset | stopQueue | networkReset | networkStopQueue => exact status_fits rfl
  | releaseMemory | unknown => exact .refused (.inr rfl)
  | blockHello | blockEnum | blockRead | blockBind => cases hop

theorem enumerateDisk_fits (owner : BlockOwner) (cursor : UInt32) :
    (enumerateDisk owner cursor).Fits .blockEnum := by
  rw [enumerateDisk]
  split
  · exact .failed (by decide)
  cases owner.disks[cursor.toNat]? with
  | none => exact .ok (n := 0) rfl (List.append_nil _).symm rfl rfl
  | some disk =>
    exact .ok (n := 0) rfl (List.append_nil _).symm (by simp [blockInfo, htole64, htole32]; rfl) rfl

theorem blockEnum_fits (owner : BlockOwner) (request : BlockEnum) :
    (blockEnum owner request).wp (.free Sys) (fun r _ _ => r.Fits .blockEnum) b () := by
  rw [blockEnum, wp_ite]
  split
  · exact .failed (by decide)
  rw [wp_bind]
  refine wp_mono (wp_free (Q := fun _ _ => True) fun _ _ => trivial) fun refreshed _ _ _ => ?_
  rw [wp_ite]
  split
  · exact .failed (by decide)
  · exact enumerateDisk_fits _ _

theorem blockDispatch_fits :
    (blockDispatch m).wp (.free Sys) (fun r _ _ => r.Fits (operationOf m)) b () := by
  rw [blockDispatch, wp_bind, wp_get]
  cases b.blocks with
  | none => exact .refused (.inr rfl)
  | some owner =>
    dsimp only
    split
    next hop _ =>
      rw [hop]
      refine .ok (n := 20) (f := htole64 7 ++ htole32 hyperIoBlockMaxRead.toUInt32) rfl rfl rfl rfl
    next hop _ =>
      rw [hop]
      exact blockEnum_fits owner _
    next hop _ =>
      rw [hop]
      exact status_fits rfl
    next hop _ =>
      rw [hop]
      exact status_fits rfl
    next => exact .refused (.inl rfl)

/-- Every answer of `dispatch` has the length and the layout of its operation and its status. -/
theorem dispatch_fits (hmac : b.mac.length = 6) (session : Session) :
    (dispatch session m).wp (.free Sys) (fun r _ _ => r.1.Fits (operationOf m)) b () := by
  rw [dispatch, wp_bind, wp_get, wp_ite]
  split
  next hrelease =>
    rw [wp_bind]
    refine wp_mono (wp_free (Q := fun _ _ => True) fun _ _ => trivial) fun status _ _ _ => ?_
    simp only [isRelease, Bool.and_eq_true, beq_iff_eq] at hrelease
    exact .status (by rw [hrelease.1.1]; rfl) status
  rw [wp_ite]
  split
  · exact .failed (by decide)
  rw [wp_ite]
  split
  next =>
    rw [wp_bind]
    exact blockDispatch_fits
  next hop =>
    rw [wp_bind]
    exact dispatchOperation_fits hmac _ (Bool.eq_false_iff.mpr hop)

end Requests

/-! ## One reply -/

/-- A reply to the record `m`: it echoes the identity of the record, says its own length, and has
the layout of the operation and the status. -/
structure Replies (m : Bytes) (r : Response) : Prop where
  header : r.header =
    { Header.decode m with length := .ofNat r.written.length, flags := hyperIoReply }
  length : r.written.length =
    if r.status = Status.ok.code then (operationOf m).replySize else 48
  bound : r.written.length ≤ r.buffer.length
  buffer : r.buffer.length = 80
  reserved : r.reserved = 0
  zero : ∀ v ∈ r.tail.drop (if r.status = Status.ok.code then (operationOf m).replyFields else 0),
    v = 0

theorem Response.length_buffer (r : Response) : r.buffer.length = 48 + r.tail.length := by
  simp [Response.buffer, htole32]
  omega

/-- An answer that fits is sent as a reply. -/
theorem Answer.Fits.replies {m : Bytes} {a : Answer} (h : a.Fits (operationOf m)) :
    Replies m (a.response (Header.decode m)) := by
  have hstatus : (a.response (Header.decode m)).status = Status.ok.code ↔ a.status = .ok :=
    ⟨fun h => Status.code_injective h, fun h => congrArg Status.code h⟩
  have hbuffer : (a.response (Header.decode m)).buffer.length = 80 := by
    rw [Response.length_buffer]
    exact congrArg (48 + ·) h.tail
  have hsize : a.size ≤ 80 := by
    have hop := (operationOf m).replySize_le
    rw [h.size]
    split
    · exact hop.2
    · decide
  have hwritten : (a.response (Header.decode m)).written.length = a.size := by
    have hlength : (UInt32.ofNat a.size).toNat = a.size :=
      UInt32.toNat_ofNat_of_lt' (show a.size < 2 ^ 32 by omega)
    rw [Response.written, List.length_take, hbuffer]
    show min (UInt32.ofNat a.size).toNat 80 = a.size
    omega
  refine ⟨?_, ?_, ?_, hbuffer, rfl, ?_⟩
  · rw [hwritten]
    rfl
  · rw [hwritten, h.size]
    simp only [hstatus]
  · rw [hwritten, hbuffer]
    exact hsize
  · simp only [hstatus]
    exact h.zero

/-! ## Runs -/

/-- What the replies to the records `ms` are, in a run whose turns are `ts`: each record, up to the
first one that is not well framed, has one reply. -/
structure RepliesFramed (ms : List Bytes) (ts : List Turn) : Prop where
  records : ts.map (·.record) = ms.takeWhile wellFramed
  replies : ∀ t ∈ ts, Replies t.record t.served.response

theorem turns_records (env : Environment Sys) (past : List (Event Sys)) (s : Serving)
    (ms : List Bytes) : (turns env past s ms).map (·.record) = ms.takeWhile wellFramed := by
  induction ms generalizing past s with
  | nil => rfl
  | cons m ms ih =>
    rw [turns, List.takeWhile_cons]
    split
    · rw [List.map_cons, ih]
    · rfl

theorem Start.mac_length (start : Start) : start.backend.mac.length = 6 := by
  cases start with
  | managed setup =>
    obtain ⟨_, _, _, role⟩ := setup
    cases role with
    | owner clients => rfl
    | client storage network distinct =>
      cases network with
      | none => rfl
      | some network => exact network.mac_length
  | standalone fixture => rfl

/-- The MAC has six bytes, and the remembered reply is one to the remembered record. -/
structure Serving.Remembered (s : Serving) : Prop where
  mac : s.backend.mac.length = 6
  reply : s.previous ≠ [] → Replies s.previous s.previousReply

theorem serveRecord_replies {s : Serving} {m : Bytes} (hframed : Framed m) (h : s.Remembered) :
    (serveRecord s m).wp (.free Sys) (fun r _ => r.2.Remembered ∧ Replies m r.1.response) () := by
  have hm : m ≠ [] := fun hm => absurd hframed.size (by rw [hm]; decide)
  have hmac {b : Backend} (hb : Within [] s.backend b) : b.mac.length = 6 := by
    rw [hb.mac]
    exact h.mac
  have hlogged : s.logged.Remembered :=
    ⟨hmac ((Within.diagnostic [] _).trans (.diagnostic [] _)), h.reply⟩
  refine Serving.wp_serveRecord hframed (fun hreplays => ⟨hlogged, ?_⟩)
    (fun _ => ⟨hlogged, (Answer.Fits.failed (by decide)).replies⟩) fun _ => ?_
  · obtain ⟨-, -, hprevious⟩ := hreplays
    rw [hprevious]
    exact h.reply (hprevious ▸ hm)
  · have hconfined := dispatch_confined (s.admission m).2 m s.backend.diagnostic
    refine wp_mono (wp_and hconfined (dispatch_fits (hmac (.diagnostic [] _)) _)) ?_
    intro r b _ hpost
    obtain ⟨hb, hfits⟩ := hpost
    refine ⟨⟨?_, fun _ => hfits.replies⟩, hfits.replies⟩
    show b.diagnostic.mac.length = 6
    rw [(Within.diagnostic [] b).mac, hb.mac]
    exact hmac (.diagnostic [] _)

/-- Replies are framed. In every run each record is answered by one reply, which echoes its
identity, says its own length and leaves zero what its layout does not define; the length is that
of the prefix unless the status is `OK`, and then that of the operation's reply. -/
theorem replies_framed (start : Start) (env : Environment Sys) (ms : List Bytes) :
    RepliesFramed ms (turns env [] start.serving ms) := by
  refine ⟨turns_records env [] start.serving ms, fun t ht => ?_⟩
  obtain ⟨pre, post, hts⟩ := List.append_of_mem ht
  exact (turns_wp (C := .free Sys) (k := ()) (J := fun s _ => s.Remembered)
    (R := fun _ _ m served _ _ => Replies m served.response)
    (fun s _ m hwell hs => serveRecord_replies (framed_of_wellFramed hwell) hs)
    ⟨start.mac_length, fun h => absurd rfl h⟩ (Contract.free_assumed _ _) hts).2.2.2

end HyperIoVm
