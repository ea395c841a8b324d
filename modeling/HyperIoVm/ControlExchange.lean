import HyperIoVm.Control
import HyperIoVm.Effects.Beside

/-!
# Records cross the mailbox once

A record is consumed exactly when `control_read` hands it to its caller, whole and unchanged, and a
record is committed at most once by `control_write`, with the bytes it was given. So whatever is
read and written, with whatever failures, the records read are those the owner posted, in order,
and the records the device took are those that were written.
-/

namespace HyperIoVm

open Effects Program

/-! ## Bytes and words -/

theorem length_htole32 (v : UInt32) : (htole32 v).length = 4 := length_leBytes 4 _

theorem leValue_lt (bytes : Bytes) : leValue bytes < 256 ^ bytes.length := by
  induction bytes with
  | nil => exact Nat.one_pos
  | cons b bytes ih =>
    have hb : b.toNat < 256 := b.toNat_lt
    rw [leValue, List.length_cons, Nat.pow_succ]
    omega

/-- Writing the value of some bytes gives them back, with zeros behind them. -/
theorem take_leBytes_leValue (bytes : Bytes) (n : Nat) :
    (leBytes n (leValue bytes)).take bytes.length = bytes.take n := by
  induction n generalizing bytes with
  | zero => rw [leBytes, List.take_nil, List.take_zero]
  | succ n ih =>
    cases bytes with
    | nil => rfl
    | cons b bytes =>
      have hb : b.toNat < 256 := b.toNat_lt
      have hlow : UInt8.ofNat (b.toNat + 256 * leValue bytes) = b := by
        apply UInt8.toNat_inj.mp
        rw [UInt8.toNat_ofNat']
        omega
      have hhigh : (b.toNat + 256 * leValue bytes) / 256 = leValue bytes := by omega
      rw [leValue, leBytes, List.length_cons, List.take_succ_cons, List.take_succ_cons, hlow, hhigh,
        ih]

theorem holdsWord_le32toh (bytes : Bytes) (index : Nat) :
    HoldsWord bytes index (le32toh bytes (index * 4)) := by
  have hlength : ((bytes.drop (index * 4)).take 4).length = min 4 (bytes.length - index * 4) := by
    rw [List.length_take, List.length_drop]
  have hvalue := leValue_lt ((bytes.drop (index * 4)).take 4)
  have hbound : 256 ^ ((bytes.drop (index * 4)).take 4).length ≤ 256 ^ 4 :=
    Nat.pow_le_pow_right (by decide) (by omega)
  have hword : (le32toh bytes (index * 4)).toNat = leValue ((bytes.drop (index * 4)).take 4) :=
    UInt32.toNat_ofNat_of_lt' (Nat.lt_of_lt_of_le hvalue hbound)
  have htake := take_leBytes_leValue ((bytes.drop (index * 4)).take 4) 4
  rw [List.take_of_length_le (by omega : ((bytes.drop (index * 4)).take 4).length ≤ 4)] at htake
  rw [HoldsWord, htole32, hword]
  by_cases hwhole : 4 ≤ bytes.length - index * 4
  · rw [List.take_of_length_le (by rw [length_leBytes]; exact hwhole)]
    rw [hlength, Nat.min_eq_left hwhole,
      List.take_of_length_le (Nat.le_of_eq (length_leBytes 4 _))] at htake
    exact htake
  · rw [hlength, Nat.min_eq_right (by omega)] at htake
    exact htake

/-- The bytes of words that hold `bytes` from `index` on. -/
theorem take_wordBytes {bytes : Bytes} {words : List UInt32} {index : Nat}
    (h : ∀ i (hi : i < words.length), HoldsWord bytes (index + i) words[i]) :
    (wordBytes words).take (bytes.length - index * 4) =
      (bytes.drop (index * 4)).take (words.length * 4) := by
  induction words generalizing index with
  | nil => rw [wordBytes, List.flatMap_nil, List.take_nil, List.length_nil, Nat.zero_mul,
      List.take_zero]
  | cons word words ih =>
    have hhead : HoldsWord bytes index word := h 0 (Nat.zero_lt_succ _)
    have htail := @ih (index + 1) fun i hi => by
      have hnext := h (i + 1) (Nat.succ_lt_succ hi)
      rw [List.getElem_cons_succ, show index + (i + 1) = index + 1 + i by omega] at hnext
      exact hnext
    have hrest : bytes.length - index * 4 - 4 = bytes.length - (index + 1) * 4 := by omega
    rw [wordBytes, List.flatMap_cons, List.take_append, length_htole32, hrest, hhead,
      List.length_cons, show (words.length + 1) * 4 = 4 + words.length * 4 by omega, List.take_add,
      List.drop_drop, show index * 4 + 4 = (index + 1) * 4 by omega]
    exact congrArg _ htail

theorem wordBytes_eq {bytes : Bytes} {words : List UInt32}
    (hlength : words.length = wordsFor bytes.length)
    (h : ∀ i (hi : i < words.length), HoldsWord bytes i words[i]) :
    (wordBytes words).take bytes.length = bytes := by
  have htake := @take_wordBytes bytes words 0 fun i hi => by
    rw [Nat.zero_add]
    exact h i hi
  rw [Nat.zero_mul, Nat.sub_zero, List.drop_zero] at htake
  rw [htake, List.take_of_length_le]
  rw [hlength, wordsFor]
  omega

section Mailbox

variable {posted : Posted} {k : ControlLedger}

/-! ## Waiting -/

/-- What waiting leaves: more may have been shown. -/
def Waited (k k' : ControlLedger) : Prop :=
  ∃ shown closed, k' = { k with shown, closed } ∧ (k.closed = true → closed = true)

theorem Waited.refl (k : ControlLedger) : Waited k k := ⟨k.shown, k.closed, rfl, id⟩

theorem Waited.trans {k' k'' : ControlLedger} (h : Waited k k') (h' : Waited k' k'') :
    Waited k k'' := by
  obtain ⟨_, _, rfl, hclosed⟩ := h
  obtain ⟨shown, closed, rfl, hclosed'⟩ := h'
  exact ⟨shown, closed, rfl, fun hk => hclosed' (hclosed hk)⟩

/-- A mailbox that has closed stays closed. -/
theorem ControlLedger.closed_read (k : ControlLedger) (status : UInt32) (h : k.closed = true) :
    (k.read status).closed = true := by
  show (k.closed || status &&& mailboxClosed != 0) = true
  rw [h, Bool.true_or]

theorem Waited.read (k : ControlLedger) (status : UInt32) : Waited k (k.read status) :=
  ⟨_, _, rfl, k.closed_read status⟩

theorem awaitStatus_wp (wanted : UInt32) (rounds : Nat) (hlocked : k.locked = true) :
    (awaitStatus wanted rounds).wp (mailbox posted) (fun r k' => Waited k k' ∧
      (wanted = rxReady → r = .done () → k'.shown = true)) k := by
  induction rounds generalizing k with
  -- the caller goes on waiting
  | zero => exact ⟨.refl k, fun _ h => by cases h⟩
  | succ rounds ih =>
    refine ⟨trivial, fun (dead : Bool) _ => ?_⟩
    cases dead with
    -- the device is dead
    | true => exact ⟨.refl k, fun _ h => by cases h⟩
    | false =>
      refine ⟨hlocked, fun (status : UInt32) _ => ?_⟩
      have hread : Waited k (k.read status) := .read k status
      show Program.wp _ (if status &&& mailboxClosed ≠ 0 then _ else _) _ (k.read status)
      split
      · -- it is closed
        exact ⟨hread, fun _ h => by cases h⟩
      show Program.wp _ (if status &&& wanted ≠ 0 then _ else _) _ (k.read status)
      split
      -- it is ready, and the caller has seen so
      next hwanted =>
        refine ⟨hread, fun h _ => ?_⟩
        rw [h] at hwanted
        show (k.shown || status &&& rxReady != 0) = true
        rw [bne_iff_ne.mpr hwanted, Bool.or_true]
      refine ⟨trivial, fun (generation : UInt64) _ => ?_⟩
      refine ⟨hlocked, fun _ _ => ?_⟩
      refine ⟨trivial, fun (interrupted : Bool) _ => ?_⟩
      refine ⟨hlocked, fun _ _ => ?_⟩
      cases interrupted with
      -- a signal
      | true => exact ⟨hread, fun _ h => by cases h⟩
      -- the next round
      | false =>
        refine wp_mono (ih (k := k.read status) hlocked) fun r k' hpost => ?_
        exact ⟨hread.trans hpost.1, hpost.2⟩

/-! ## Reading a record -/

theorem readWords_wp (hlocked : k.locked = true) (hshown : k.shown = true) (words index : Nat) :
    (readWords words index).wp (mailbox posted) (fun r k' => k' = k ∧ r.length = words ∧
      ∀ i (hi : i < r.length), HoldsWord (posted.record k.consumed) (index + i) r[i]) k := by
  induction words generalizing index with
  | zero => exact ⟨rfl, rfl, fun i hi => absurd hi (Nat.not_lt_zero i)⟩
  | succ words ih =>
    refine ⟨hlocked, fun (word : UInt32) hword => ?_⟩
    show Program.wp _ (readWords words (index + 1) >>= _) _ k
    rw [wp_bind]
    refine wp_mono (ih (index + 1)) fun rest k' hpost => ?_
    obtain ⟨rfl, hlength, hrest⟩ := hpost
    refine ⟨rfl, by rw [List.length_cons, hlength], fun i hi => ?_⟩
    cases i with
    | zero => exact hword hshown
    | succ i =>
      have hi' : i < rest.length := Nat.lt_of_succ_lt_succ hi
      rw [List.getElem_cons_succ, show index + (i + 1) = index + 1 + i by omega]
      exact hrest i hi'

/-- The copy of a record that is shown. -/
theorem takeRecord_wp (hlocked : k.locked = true) (hshown : k.shown = true) (capacity : Nat) :
    (takeRecord capacity).wp (mailbox posted) (fun r k' =>
      (∃ bytes, r = .done bytes ∧ bytes = posted.record k.consumed ∧ bytes.length ≤ capacity ∧
        k' = { k with shown := false, consumed := k.consumed + 1 }) ∨
      (∃ e, r = .failed e) ∧ k' = k) k := by
  refine ⟨hlocked, fun (length : UInt32) hlength => ?_⟩
  refine ⟨hlocked, fun (sequence : UInt64) hsequence => ?_⟩
  show Program.wp _ (if length = 0 ∨ length.toNat > hyperIoRecord then _ else _) _ k
  split
  · -- no record has this length
    exact .inr ⟨⟨_, rfl⟩, rfl⟩
  show Program.wp _ (if capacity < length.toNat then _ else _) _ k
  split
  · -- the buffer is too small
    exact .inr ⟨⟨_, rfl⟩, rfl⟩
  rename_i hcapacity
  show Program.wp _ (readWords (wordsFor length.toNat) 0 >>= _) _ k
  rw [wp_bind]
  refine wp_mono (readWords_wp hlocked hshown _ 0) fun words k' hpost => ?_
  obtain ⟨rfl, hcount, hwords⟩ := hpost
  have hrecord : length.toNat = (posted.record k'.consumed).length := hlength hshown
  -- the words that were read are those of the record
  have hbytes : (wordBytes words).take length.toNat = posted.record k'.consumed := by
    rw [hrecord] at hcount ⊢
    refine wordBytes_eq hcount fun i hi => ?_
    have hword := hwords i hi
    rw [Nat.zero_add] at hword
    exact hword
  refine ⟨trivial, fun (failed : Bool) _ => ?_⟩
  cases failed with
  -- the buffer cannot be written: the record stays
  | true => exact .inr ⟨⟨_, rfl⟩, rfl⟩
  | false =>
    -- the record is consumed: it is the one that was shown
    refine ⟨hlocked, fun _ _ => .inl ⟨_, rfl, hbytes, ?_, ?_⟩⟩
    · rw [hbytes, ← hrecord]
      exact Nat.le_of_not_lt hcapacity
    · exact if_pos ⟨hshown, hsequence hshown⟩

/-- A call under the lock does what it does once the status has shown what it waits for. -/
theorem underLock_wp {α : Type} {wanted : UInt32} {rounds : Nat} {p : Program Control (Transfer α)}
    {Q : Transfer α → ControlLedger → Prop} (hfree : k.locked = false)
    (hfailed : ∀ e k', Waited k k' → Q (.failed e) k')
    (hwaiting : ∀ k', Waited k k' → Q .waiting { k' with locked := true })
    (hp : ∀ k', Waited { k with locked := true } k' → (wanted = rxReady → k'.shown = true) →
      p.wp (mailbox posted)
        (fun r k'' => k''.locked = true ∧ Q r { k'' with locked := false }) k') :
    (underLock wanted rounds p).wp (mailbox posted) Q k := by
  have hunlocked : ({ k with locked := false } : ControlLedger) = k := by rw [← hfree]
  refine ⟨hfree, fun (interrupted : Bool) _ => ?_⟩
  cases interrupted with
  -- a signal came before the lock was taken
  | true =>
    refine hfailed _ _ ?_
    show Waited k { k with locked := false }
    rw [hunlocked]
    exact .refl k
  | false =>
    show Program.wp _ (awaitStatus wanted rounds >>= _) _ { k with locked := true }
    rw [wp_bind]
    refine wp_mono (awaitStatus_wp (k := { k with locked := true }) wanted rounds rfl) ?_
    intro r k' hpost
    obtain ⟨hwaited, hready⟩ := hpost
    -- waiting leaves all else as it was
    have hback : Waited k { k' with locked := false } ∧ k' = { k' with locked := true } := by
      obtain ⟨shown, closed, rfl, hclosed⟩ := hwaited
      refine ⟨⟨shown, closed, ?_, hclosed⟩, rfl⟩
      show ({ k with locked := false, shown, closed } : ControlLedger) = { k with shown, closed }
      rw [hfree]
    have hlocked : k'.locked = true := by
      rw [hback.2]
    cases r with
    -- the caller still waits, with the lock
    | waiting =>
      have hend := hwaiting _ hback.1
      rw [show ({ ({ k' with locked := false } : ControlLedger) with locked := true } :
        ControlLedger) = k' from hback.2.symm] at hend
      exact hend
    -- the wait has failed, and the lock is given back
    | failed e => exact ⟨hlocked, fun _ _ => hfailed e _ hback.1⟩
    | done a =>
      show Program.wp _ (p >>= _) _ k'
      rw [wp_bind]
      refine wp_mono (hp k' hwaited fun h => hready h rfl) fun r k'' hpost => ?_
      exact ⟨hpost.1, fun _ _ => hpost.2⟩

/-- What `control_read` does: the record that is next is consumed exactly when it is returned. -/
structure ReadSpec (posted : Posted) (capacity : Nat) (k : ControlLedger) (r : Transfer Bytes)
    (k' : ControlLedger) : Prop where
  done : ∀ bytes, r = .done bytes →
    bytes = posted.record k.consumed ∧ bytes.length ≤ capacity ∧ k'.consumed = k.consumed + 1
  other : (∀ bytes, r ≠ .done bytes) → k'.consumed = k.consumed
  sent : k'.sent = k.sent
  closed : k.closed = true → k'.closed = true
  locked : r ≠ .waiting → k'.locked = false

theorem ReadSpec.of_failed {capacity : Nat} {e : ControlError} {k' : ControlLedger}
    (h : Waited k k') (hfree : k.locked = false) :
    ReadSpec posted capacity k (.failed e) k' := by
  obtain ⟨_, _, rfl, hclosed⟩ := h
  exact ⟨fun _ h => (by cases h), fun _ => rfl, rfl, hclosed, fun _ => hfree⟩

theorem controlRead_wp (hfree : k.locked = false) (device : Bool) (rounds capacity : Nat) :
    (controlRead device rounds capacity).wp (mailbox posted) (ReadSpec posted capacity k) k := by
  cases device with
  | false => exact .of_failed (.refl k) hfree
  | true =>
    refine underLock_wp hfree (fun e k' h => .of_failed h hfree) (fun k' h => ?_) ?_
    · obtain ⟨_, _, rfl, hclosed⟩ := h
      exact ⟨fun _ h => (by cases h), fun _ => rfl, rfl, hclosed, fun h => absurd rfl h⟩
    · intro k' h hshown
      obtain ⟨_, _, rfl, hclosed⟩ := h
      refine wp_mono (takeRecord_wp rfl (hshown rfl) capacity) fun r k'' hpost => ?_
      rcases hpost with ⟨bytes, rfl, hbytes, hcapacity, rfl⟩ | ⟨⟨e, rfl⟩, rfl⟩
      · refine ⟨rfl, fun _ h => ?_, fun h => absurd rfl (h bytes), rfl, hclosed,
          fun _ => rfl⟩
        obtain rfl := Transfer.done.inj h
        exact ⟨hbytes, hcapacity, rfl⟩
      · exact ⟨rfl, fun _ h => (by cases h), fun _ => rfl, rfl, hclosed,
          fun _ => rfl⟩

/-! ## Writing a record -/

theorem writeWords_wp (hlocked : k.locked = true) (bytes : Bytes) (words index : Nat) :
    (writeWords bytes words index).wp (mailbox posted) (fun _ k' => ∃ filled,
      k' = { k with words := filled } ∧ (∀ i < index, filled i = k.words i) ∧
        ∀ i, index ≤ i → i < index + words → filled i = le32toh bytes (i * 4)) k := by
  induction words generalizing k index with
  | zero => exact ⟨k.words, rfl, fun _ _ => rfl, fun i hi hi' => absurd hi' (Nat.not_lt.mpr hi)⟩
  | succ words ih =>
    refine ⟨hlocked, fun _ _ => ?_⟩
    have hrest := @ih { k with
      words := Function.update k.words index (le32toh bytes (index * 4)) } hlocked (index + 1)
    refine wp_mono hrest fun _ k' hpost => ?_
    obtain ⟨filled, rfl, hbefore, hafter⟩ := hpost
    refine ⟨filled, rfl, fun i hi => ?_, fun i hi hi' => ?_⟩
    · rw [hbefore i (by omega)]
      exact Function.update_of_ne (Nat.ne_of_lt hi) _ _
    · rcases Nat.eq_or_lt_of_le hi with rfl | hlt
      · rw [hbefore _ (Nat.lt_succ_self _)]
        exact Function.update_self _ _ _
      · exact hafter i hlt (by omega)

/-- The transmit registers hold the record once its words and its length are written. -/
theorem staged_eq {bytes : Bytes} (hsize : bytes.length ≤ hyperIoRecord)
    (hlength : k.length = .ofNat bytes.length)
    (hwords : ∀ i < wordsFor bytes.length, k.words i = le32toh bytes (i * 4)) :
    k.staged = bytes := by
  have hcount : k.length.toNat = bytes.length := by
    rw [hlength]
    exact UInt32.toNat_ofNat_of_lt' (Nat.lt_of_le_of_lt hsize (by decide))
  rw [ControlLedger.staged, hcount]
  refine wordBytes_eq (by rw [List.length_map, List.length_range]) fun i hi => ?_
  rw [List.length_map, List.length_range] at hi
  rw [List.getElem_map, List.getElem_range, hwords i hi]
  exact holdsWord_le32toh bytes i

/-- The device takes the record at most once, whole, and the writer hears of it unless the mailbox
has closed. -/
theorem putRecord_wp (hlocked : k.locked = true) {bytes : Bytes}
    (hsize : bytes.length ≤ hyperIoRecord) :
    (putRecord bytes).wp (mailbox posted) (fun r k' => k'.locked = true ∧
      k'.consumed = k.consumed ∧ (k.closed = true → k'.closed = true) ∧
      (r = .done bytes.length ∧ k'.sent = k.sent ++ [bytes] ∨
        r = .failed .io ∧
          (k'.sent = k.sent ∨ k'.sent = k.sent ++ [bytes] ∧ k'.closed = true))) k := by
  refine ⟨hlocked, fun _ _ => ?_⟩
  show Program.wp _ (writeWords bytes (wordsFor bytes.length) 0 >>= _) _ { k with refused := false }
  rw [wp_bind]
  have hwrite := @writeWords_wp posted { k with refused := false } hlocked bytes
    (wordsFor bytes.length) 0
  refine wp_mono hwrite fun _ k' hpost => ?_
  obtain ⟨filled, rfl, -, hfilled⟩ := hpost
  refine ⟨hlocked, fun _ _ => ?_⟩
  refine ⟨hlocked, fun (taken : Bool) _ => ?_⟩
  -- what the device takes is the record
  have hstaged : ({ k with refused := false, words := filled, length := .ofNat bytes.length } :
      ControlLedger).staged = bytes :=
    staged_eq hsize rfl fun i hi => hfilled i (Nat.zero_le i) (by omega)
  refine ⟨?_, fun (status : UInt32) hstatus => ?_⟩
  · cases taken <;> exact hlocked
  show Program.wp _ (if status &&& (mailboxError ||| mailboxClosed) ≠ 0 then _ else _) _ _
  have hbits : status &&& (mailboxError ||| mailboxClosed) =
      (status &&& mailboxError) ||| (status &&& mailboxClosed) :=
    UInt32.toBitVec_inj.mp BitVec.and_or_distrib_left
  cases taken with
  | true =>
    -- no error, so the device has taken it
    have herror : status &&& mailboxError = 0 := by
      by_contra hne
      exact Bool.false_ne_true (hstatus.mp hne)
    split
    -- it was closed after that
    next hfailed =>
      rw [hbits, herror, UInt32.zero_or] at hfailed
      refine ⟨hlocked, rfl, fun h => ?_, .inr ⟨rfl, .inr ⟨?_, ?_⟩⟩⟩
      · exact ControlLedger.closed_read _ status h
      · exact congrArg (fun staged => k.sent ++ [staged]) hstaged
      · show (k.closed || status &&& mailboxClosed != 0) = true
        rw [bne_iff_ne.mpr hfailed, Bool.or_true]
    -- it is still open
    next =>
      refine ⟨hlocked, rfl, fun h => ?_, .inl ⟨rfl, ?_⟩⟩
      · exact ControlLedger.closed_read _ status h
      · exact congrArg (fun staged => k.sent ++ [staged]) hstaged
  | false =>
    have herror : status &&& mailboxError ≠ 0 := hstatus.mpr rfl
    split
    -- the device has refused it
    next =>
      refine ⟨hlocked, rfl, fun h => ?_, .inr ⟨rfl, .inl rfl⟩⟩
      exact ControlLedger.closed_read _ status h
    -- an error cannot be missed
    next hdone =>
      have hzero := not_not.mp hdone
      rw [hbits] at hzero
      exact absurd (UInt32.or_eq_zero_iff.mp hzero).1 herror

/-- What `control_write` does: the device takes the record when the call returns its length, and at
most once. -/
structure WriteSpec (bytes : Bytes) (k : ControlLedger) (r : Transfer Nat) (k' : ControlLedger) :
    Prop where
  done : ∀ n, r = .done n → n = bytes.length ∧ k'.sent = k.sent ++ [bytes]
  other : (∀ n, r ≠ .done n) → k'.sent = k.sent ∨
    r = .failed .io ∧ k'.sent = k.sent ++ [bytes] ∧ k'.closed = true
  consumed : k'.consumed = k.consumed
  closed : k.closed = true → k'.closed = true
  locked : r ≠ .waiting → k'.locked = false

theorem WriteSpec.of_failed {bytes : Bytes} {e : ControlError} {k' : ControlLedger}
    (h : Waited k k') (hfree : k.locked = false) : WriteSpec bytes k (.failed e) k' := by
  obtain ⟨_, _, rfl, hclosed⟩ := h
  exact ⟨fun _ h => (by cases h), fun _ => .inl rfl, rfl, hclosed, fun _ => hfree⟩

theorem controlWrite_wp (hfree : k.locked = false) (device : Bool) (rounds : Nat) (bytes : Bytes) :
    (controlWrite device rounds bytes).wp (mailbox posted) (WriteSpec bytes k) k := by
  rw [controlWrite]
  split
  · exact .of_failed (.refl k) hfree
  rename_i hvalid
  have hsize : bytes.length ≤ hyperIoRecord := by omega
  refine ⟨trivial, fun (failed : Bool) _ => ?_⟩
  cases failed with
  | true => exact .of_failed (.refl k) hfree
  | false =>
    refine underLock_wp hfree (fun e k' h => .of_failed h hfree) (fun k' h => ?_) fun k' h _ => ?_
    · obtain ⟨_, _, rfl, hclosed⟩ := h
      exact ⟨fun _ h => (by cases h), fun _ => .inl rfl, rfl, hclosed, fun h => absurd rfl h⟩
    · obtain ⟨_, _, rfl, hclosed⟩ := h
      refine wp_mono (putRecord_wp rfl hsize) fun r k'' hpost => ?_
      obtain ⟨hlocked, hconsumed, hkept, hend⟩ := hpost
      refine ⟨hlocked, ?_⟩
      rcases hend with ⟨rfl, hsent⟩ | ⟨rfl, hsent⟩
      · exact ⟨fun n h => ⟨(Transfer.done.inj h).symm, hsent⟩, fun h => absurd rfl (h _),
          hconsumed, fun h => hkept (hclosed h), fun _ => rfl⟩
      · refine ⟨fun _ h => (by cases h), fun _ => ?_, hconsumed, fun h => hkept (hclosed h),
          fun _ => rfl⟩
        exact hsent.imp id fun hsent => ⟨rfl, hsent⟩

/-! ## Sequences of calls -/

/-- A call on the control device. -/
inductive ControlOp where
  | read (capacity : Nat)
  | write (bytes : Bytes)

/-- What a call was answered. -/
inductive ControlReply where
  | read (r : Transfer Bytes)
  | write (bytes : Bytes) (r : Transfer Nat)
  deriving DecidableEq, Repr

def ControlOp.run (device : Bool) (rounds : Nat) : ControlOp → Program Control ControlReply
  | .read capacity => do
    let r ← controlRead device rounds capacity
    return .read r
  | .write bytes => do
    let r ← controlWrite device rounds bytes
    return .write bytes r

namespace ControlReply

/-- The call has not returned. -/
def waits : ControlReply → Bool
  | .read .waiting | .write _ .waiting => true
  | _ => false

/-- The record that a call returned. -/
def record : ControlReply → Option Bytes
  | .read (.done bytes) => some bytes
  | _ => none

/-- The record that a call was given. -/
def offered : ControlReply → Option Bytes
  | .read _ => none
  | .write bytes _ => some bytes

/-- The record of a call that returned its length. -/
def written : ControlReply → Option Bytes
  | .write bytes (.done _) => some bytes
  | _ => none

end ControlReply

/-- Calls on the control device, one after the other, up to one that does not return. -/
def callControl (device : Bool) (rounds : Nat) :
    List ControlOp → Program Control (List ControlReply)
  | [] => return []
  | op :: ops => do
    let reply ← op.run device rounds
    if reply.waits then return [reply]
    let replies ← callControl device rounds ops
    return reply :: replies

/-- What crossed the mailbox while calls were answered `replies`. -/
structure Crossed (posted : Posted) (k : ControlLedger) (replies : List ControlReply)
    (k' : ControlLedger) : Prop where
  records : (List.range k.consumed).map posted.record ++ replies.filterMap (·.record) =
    (List.range k'.consumed).map posted.record
  sent : ∃ sent, k'.sent = k.sent ++ sent ∧ (replies.filterMap (·.written)).Sublist sent ∧
    sent.Sublist (replies.filterMap (·.offered)) ∧
      (k'.closed = false → sent = replies.filterMap (·.written))
  closed : k.closed = true → k'.closed = true

theorem Crossed.none (k : ControlLedger) : Crossed posted k [] k :=
  ⟨List.append_nil _, ⟨[], (List.append_nil _).symm, .slnil, .slnil, fun _ => rfl⟩, id⟩

theorem Crossed.cons {reply : ControlReply} {replies : List ControlReply}
    {k' k'' : ControlLedger} (h : Crossed posted k [reply] k')
    (h' : Crossed posted k' replies k'') : Crossed posted k (reply :: replies) k'' := by
  obtain ⟨sent, hsent, hwritten, hoffered, hopen⟩ := h.sent
  obtain ⟨sent', hsent', hwritten', hoffered', hopen'⟩ := h'.sent
  have happend (f : ControlReply → Option Bytes) : (reply :: replies).filterMap f =
      [reply].filterMap f ++ replies.filterMap f := List.filterMap_append (l := [reply])
  refine ⟨?_, ⟨sent ++ sent', ?_, ?_, ?_, fun hclosed => ?_⟩, fun hk => h'.closed (h.closed hk)⟩
  · rw [happend, ← List.append_assoc, h.records, h'.records]
  · rw [hsent', hsent, List.append_assoc]
  · rw [happend]
    exact hwritten.append hwritten'
  · rw [happend]
    exact hoffered.append hoffered'
  · have hbefore : k'.closed = false :=
      Bool.eq_false_iff.mpr fun hk => Bool.false_ne_true (hclosed.symm.trans (h'.closed hk))
    rw [happend, ← hopen hbefore, ← hopen' hclosed]

theorem ReadSpec.crossed {capacity : Nat} {r : Transfer Bytes} {k' : ControlLedger}
    (h : ReadSpec posted capacity k r k') : Crossed posted k [.read r] k' := by
  refine ⟨?_, ⟨[], by rw [h.sent, List.append_nil], ?_, ?_, fun _ => ?_⟩, h.closed⟩
  · cases r with
    | done bytes =>
      obtain ⟨hbytes, -, hconsumed⟩ := h.done bytes rfl
      rw [hconsumed, List.range_succ, List.map_append, hbytes]
      rfl
    | failed e =>
      rw [h.other (by rintro _ ⟨⟩)]
      exact List.append_nil _
    | waiting =>
      rw [h.other (by rintro _ ⟨⟩)]
      exact List.append_nil _
  · cases r <;> exact .slnil
  · exact .slnil
  · cases r <;> rfl

theorem WriteSpec.crossed {bytes : Bytes} {r : Transfer Nat} {k' : ControlLedger}
    (h : WriteSpec bytes k r k') : Crossed posted k [.write bytes r] k' := by
  refine ⟨?_, ?_, h.closed⟩
  · rw [h.consumed]
    cases r <;> exact List.append_nil _
  cases r with
  | done n => exact ⟨[bytes], (h.done n rfl).2, .refl _, .refl _, fun _ => rfl⟩
  | failed e =>
    rcases h.other (by rintro _ ⟨⟩) with hsent | ⟨-, hsent, hclosed⟩
    · exact ⟨[], hsent.trans (List.append_nil _).symm, .slnil, List.nil_sublist _, fun _ => rfl⟩
    · exact ⟨[bytes], hsent, List.nil_sublist _, .refl _, fun h =>
        absurd (h.symm.trans hclosed) Bool.false_ne_true⟩
  | waiting =>
    rcases h.other (by rintro _ ⟨⟩) with hsent | ⟨hio, -⟩
    · exact ⟨[], hsent.trans (List.append_nil _).symm, .slnil, List.nil_sublist _, fun _ => rfl⟩
    · cases hio

theorem callControl_wp (device : Bool) (rounds : Nat) (ops : List ControlOp)
    (hfree : k.locked = false) :
    (callControl device rounds ops).wp (mailbox posted) (Crossed posted k) k := by
  induction ops generalizing k with
  | nil => exact .none k
  | cons op ops ih =>
    -- one operation
    have hstep : (op.run device rounds).wp (mailbox posted) (fun reply k' =>
        Crossed posted k [reply] k' ∧ (reply.waits = false → k'.locked = false)) k := by
      cases op with
      | read capacity =>
        rw [ControlOp.run, wp_bind]
        refine wp_mono (controlRead_wp hfree device rounds capacity) fun r k' h => ?_
        refine ⟨h.crossed, fun hreturned => h.locked ?_⟩
        rintro rfl
        cases hreturned
      | write bytes =>
        rw [ControlOp.run, wp_bind]
        refine wp_mono (controlWrite_wp hfree device rounds bytes) fun r k' h => ?_
        refine ⟨h.crossed, fun hreturned => h.locked ?_⟩
        rintro rfl
        cases hreturned
    rw [callControl, wp_bind]
    refine wp_mono hstep fun reply k' hpost => ?_
    obtain ⟨hcrossed, hunlocked⟩ := hpost
    split
    -- it still waits, and the later ones never start
    next => exact hcrossed
    -- the later ones
    next hreturned =>
      rw [wp_bind]
      refine wp_mono (ih (hunlocked (Bool.eq_false_iff.mpr hreturned))) fun replies k'' h => ?_
      exact hcrossed.cons h

/-- Records cross the mailbox once. Whatever calls are made on the control device, one after the
other, with whatever buffers, signals and failures, the records that were returned are the ones
posted, in order, and exactly those are consumed; the device has taken, in order, every record of a
call that returned its length and none that no call was given, and no other record unless the
mailbox has closed. No register of a record is touched outside the lock. -/
theorem records_cross_once (posted : Posted) (device : Bool) (rounds : Nat) (ops : List ControlOp)
    (env : Environment Control) :
    let run := (callControl device rounds ops).exec env []
    let later := (mailbox posted).after {} run.2
    (mailbox posted).Assumed {} run.2 → (mailbox posted).Obeyed {} run.2 ∧
      run.1.filterMap (·.record) = (List.range later.consumed).map posted.record ∧
      (run.1.filterMap (·.written)).Sublist later.sent ∧
      later.sent.Sublist (run.1.filterMap (·.offered)) ∧
      (later.closed = false → later.sent = run.1.filterMap (·.written)) := by
  intro run later hassumed
  obtain ⟨hobeyed, hcrossed⟩ := wp_exec env [] (callControl_wp device rounds ops rfl) hassumed
  have hcrossed' : Crossed posted {} run.1 later := hcrossed
  obtain ⟨sent, hsent, hwritten, hoffered, hopen⟩ := hcrossed'.sent
  have hall : later.sent = sent := hsent
  rw [hall]
  exact ⟨hobeyed, hcrossed'.records, hwritten, hoffered, hopen⟩

end Mailbox

/-! ## A device that keeps its side -/

/-- A mailbox that always has a record and space, and takes every commit. -/
def readyReply (posted : Posted) (k : ControlLedger) : (c : ControlCall) → c.Reply
  | .lock | .dead | .waitEvent _ _ | .copyToUser _ | .copyFromUser | .stopping => false
  | .writeCommit => true
  | .irqGeneration => (0 : UInt64)
  | .readq _ => posted.sequence k.consumed
  | .readl .status => if k.refused then mailboxError else rxReady ||| txSpace
  | .readl .rxLen => UInt32.ofNat (posted.record k.consumed).length
  | .readl (.rxData word) => le32toh (posted.record k.consumed) (word * 4)
  | .readl _ => (0 : UInt32)
  | .unlock | .writel _ _ | .writeq _ _ => ()

theorem readyReply_assumed {posted : Posted} (hsize : ∀ i, (posted.record i).length < 2 ^ 32)
    (k : ControlLedger) (c : ControlCall) :
    (mailbox posted).assumes k c (readyReply posted k c) := by
  cases c with
  | readl register =>
    cases register with
    | status =>
      show ShowsError (if k.refused = true then mailboxError else rxReady ||| txSpace) ↔ _
      by_cases hrefused : k.refused = true
      · rw [if_pos hrefused]
        exact iff_of_true (by decide : mailboxError &&& mailboxError ≠ 0) hrefused
      · rw [if_neg hrefused]
        exact iff_of_false (by decide : ¬ (rxReady ||| txSpace) &&& mailboxError ≠ 0) hrefused
    | rxLen => exact fun _ => UInt32.toNat_ofNat_of_lt' (hsize k.consumed)
    | rxData word => exact fun _ => holdsWord_le32toh (posted.record k.consumed) word
    | _ => exact trivial
  | readq register =>
    cases register with
    | rxSeq => exact fun _ => rfl
    | _ => exact trivial
  | _ => exact trivial

/-- The environment with that device. -/
def readyMailbox (posted : Posted) : Environment Control := fun past c =>
  readyReply posted ((mailbox posted).after {} past) c

/-- The owner posts records of six bytes. -/
def sixBytes : Posted where
  record i := [.ofNat i, 1, 2, 3, 4, 5]
  sequence i := .ofNat i

theorem records_cross_once_sixBytes :
    let run := (callControl true 1 [.read 256, .read 4, .write [7, 8, 9], .read 6]).exec
      (readyMailbox sixBytes) []
    run.1.filterMap (·.record) =
      (List.range ((mailbox sixBytes).after {} run.2).consumed).map sixBytes.record := by
  intro run
  have hsize : ∀ i, (sixBytes.record i).length < 2 ^ 32 := fun _ =>
    (by decide : 6 < 2 ^ 32)
  have hready : (mailbox sixBytes).Assumed {} run.2 :=
    exec_assumed (C := mailbox sixBytes) (k := {})
      (fun past c => readyReply_assumed hsize _ c) _ []
  exact (records_cross_once sixBytes true 1 _ _ hready).2.1

/-- The read into four bytes fails and consumes nothing. -/
example : ((callControl true 1 [.read 256, .read 4, .write [7, 8, 9], .read 6]).exec
    (readyMailbox sixBytes) []).1 = [.read (.done [0, 1, 2, 3, 4, 5]), .read (.failed .msgsize),
      .write [7, 8, 9] (.done 3), .read (.done [1, 1, 2, 3, 4, 5])] := by
  decide +kernel

end HyperIoVm
