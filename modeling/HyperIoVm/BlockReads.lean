import Mathlib.Algebra.GroupWithZero.Nat
import HyperIoVm.Data.Span
import HyperIoVm.Identifiers
import HyperIoVm.Ledger
import HyperIoVm.Runs

/-!
# Reads of disk metadata (`BLOCK_READ` of `service/block.c`)

A read is checked against the disk and against the scratch mapping before its first byte. Its loop
goes on after a short read where that has stopped, repeats a call that was interrupted, and gives up
on every other error and at the end of the file.
-/

namespace HyperIoVm

open Data Effects Routine

/-! ## The loop -/

/-- What a call of `pread` returns. -/
inductive PreadResult where
  | read (data : Bytes)
  | interrupted
  | failed
  deriving DecidableEq

/-- A call of `pread` with its result. -/
structure Pread where
  fd : Fd
  destination : UInt64
  length : UInt64
  offset : UInt64
  result : PreadResult

/-- The memory and the part of the disk that a call names. -/
def Pread.target (p : Pread) : Span := ⟨p.destination.toNat, p.length.toNat⟩
def Pread.source (p : Pread) : Span := ⟨p.offset.toNat, p.length.toNat⟩

/-- The number of bytes a call has read. -/
def Pread.transferred (p : Pread) : Nat :=
  match p.result with
  | .read data => data.length
  | _ => 0

/-- The loop of `BLOCK_READ`, on the results that its calls get: the calls, and the answer if the
loop has ended. -/
def readRounds (fd : Fd) (destination length offset : UInt64) :
    (done : UInt64) → List PreadResult → List Pread × Option Status
  | done, [] => ([], if done < length then none else some .ok)
  | done, received :: results =>
    if done < length then
      let call : Pread := ⟨fd, destination + done, length - done, offset + done, received⟩
      match received with
      | .interrupted =>
        let (calls, status) := readRounds fd destination length offset done results
        (call :: calls, status)
      | .failed => ([call], some .backendFailure)
      | .read data =>
        if data.isEmpty then ([call], some .backendFailure)
        else
          let (calls, status) :=
            readRounds fd destination length offset (done + .ofNat data.length) results
          (call :: calls, status)
    else ([], some .ok)

/-! ## What a call does -/

section Calls

variable {content : Fd → Nat → UInt8} {m m' : Nat → UInt8} {p : Pread} {ps : List Pread} {s : Span}

/-- A call reads at most as many bytes as it is asked for, and these are the disk's. -/
def Pread.Honest (content : Fd → Nat → UInt8) (p : Pread) : Prop :=
  ∀ data, p.result = .read data → data.length ≤ p.length.toNat ∧
    ∀ i (h : i < data.length), data[i] = content p.fd (p.offset.toNat + i)

/-- What a call does to the memory: it stores what it has read, and leaves everything outside its
target alone. -/
structure Pread.Stores (p : Pread) (m m' : Nat → UInt8) : Prop where
  outside : Set.EqOn m' m p.target.addressesᶜ
  data : ∀ data, p.result = .read data → ∀ i (h : i < data.length),
    m' (p.destination.toNat + i) = data[i]

/-- What a sequence of calls does to the memory. -/
def Stored : List Pread → (Nat → UInt8) → (Nat → UInt8) → Prop
  | [], m, m' => m' = m
  | p :: ps, m, m' => ∃ mid, p.Stores m mid ∧ Stored ps mid m'

theorem addresses_subset {t : Span} (h : s.Within t) : s.addresses ⊆ t.addresses :=
  Set.Ico_subset_Ico h.1 h.2

/-- Calls whose targets lie in a span leave everything outside it alone. -/
theorem stored_outside (h : Stored ps m m') (hwithin : ∀ p ∈ ps, p.target.Within s) :
    Set.EqOn m' m s.addressesᶜ := by
  induction ps generalizing m with
  | nil =>
    rw [show m' = m from h]
    exact Set.eqOn_refl m _
  | cons p ps ih =>
    obtain ⟨mid, hstores, h⟩ := h
    have hfirst : Set.EqOn mid m s.addressesᶜ := hstores.outside.mono
      (Set.compl_subset_compl.mpr (addresses_subset (hwithin p List.mem_cons_self)))
    exact (ih h fun q hq => hwithin q (List.mem_cons_of_mem _ hq)).trans hfirst

end Calls

/-! ## The bounds of the loop -/

section Bounds

variable {content : Fd → Nat → UInt8} {fd : Fd} {destination length offset done : UInt64}
  {results : List PreadResult} {m m' : Nat → UInt8}

/-- The memory behind the first `done` bytes of the destination. -/
def window (destination length : UInt64) (done : Nat) : Span :=
  ⟨destination.toNat + done, length.toNat - done⟩

/-- A read whose destination and source do not wrap. -/
structure ReadFits (destination length offset : UInt64) : Prop where
  memory : destination.toNat + length.toNat ≤ 2 ^ 64
  disk : offset.toNat + length.toNat < 2 ^ 63

theorem window_within {i j : Nat} (h : i ≤ j) (hj : j ≤ length.toNat) :
    (window destination length j).Within (window destination length i) := by
  constructor
  · exact Nat.add_le_add_left h _
  · simp only [window, Span.stop]
    omega

/-- The call that the loop makes after `done` bytes. -/
def readCall (fd : Fd) (destination length offset done : UInt64) (received : PreadResult) : Pread :=
  ⟨fd, destination + done, length - done, offset + done, received⟩

theorem readRounds_interrupted (h : done < length) :
    readRounds fd destination length offset done (.interrupted :: results) =
      (readCall fd destination length offset done .interrupted ::
        (readRounds fd destination length offset done results).1,
        (readRounds fd destination length offset done results).2) := by
  rw [readRounds, if_pos h]
  rfl

theorem readRounds_failed (h : done < length) :
    readRounds fd destination length offset done (.failed :: results) =
      ([readCall fd destination length offset done .failed], some .backendFailure) := by
  rw [readRounds, if_pos h]
  rfl

theorem readRounds_ended (h : done < length) :
    readRounds fd destination length offset done (.read [] :: results) =
      ([readCall fd destination length offset done (.read [])], some .backendFailure) := by
  rw [readRounds, if_pos h]
  rfl

theorem readRounds_read {data : Bytes} (h : done < length) (hdata : data ≠ []) :
    readRounds fd destination length offset done (.read data :: results) =
      (readCall fd destination length offset done (.read data) ::
        (readRounds fd destination length offset (done + .ofNat data.length) results).1,
        (readRounds fd destination length offset (done + .ofNat data.length) results).2) := by
  have hempty : ¬ data.isEmpty = true := by rwa [List.isEmpty_iff]
  rw [readRounds, if_pos h]
  dsimp only
  rw [if_neg hempty]
  rfl

theorem readRounds_done (h : ¬ done < length) :
    readRounds fd destination length offset done results = ([], some .ok) := by
  cases results with
  | nil => rw [readRounds, if_neg h]
  | cons received results => rw [readRounds, if_neg h]

/-- Each round of the loop makes a call, and either ends it or goes on: at the same place after an
interrupted call, behind what has been read after any other. -/
theorem readRounds_induction (length : UInt64)
    {motive : UInt64 → List PreadResult → Prop}
    (done : ∀ done results, ¬ done < length → motive done results)
    (waits : ∀ done, done < length → motive done [])
    (interrupted : ∀ done results, done < length → motive done results →
      motive done (.interrupted :: results))
    (failed : ∀ done results, done < length → motive done (.failed :: results))
    (ended : ∀ done results, done < length → motive done (.read [] :: results))
    (read : ∀ done data results, done < length → data ≠ [] →
      motive (done + .ofNat data.length) results → motive done (.read data :: results))
    (start : UInt64) (results : List PreadResult) : motive start results := by
  induction results generalizing start with
  | nil =>
    by_cases h : start < length
    · exact waits start h
    · exact done start [] h
  | cons received results ih =>
    by_cases h : start < length
    · cases received with
      | interrupted => exact interrupted start results h (ih start)
      | failed => exact failed start results h
      | read data =>
        by_cases hdata : data = []
        · subst hdata
          exact ended start results h
        · exact read start data results h hdata (ih _)
    · exact done start _ h

/-- A call names the rest of the window and of the range. -/
theorem readCall_spans (hfits : ReadFits destination length offset) (h : done < length)
    (received : PreadResult) :
    (readCall fd destination length offset done received).target =
        window destination length done.toNat ∧
      (readCall fd destination length offset done received).source =
        ⟨offset.toNat + done.toNat, length.toNat - done.toNat⟩ := by
  have hlt := UInt64.lt_iff_toNat_lt.mp h
  have hmemory := hfits.memory
  have hdisk := hfits.disk
  have hleft : (length - done).toNat = length.toNat - done.toNat :=
    UInt64.toNat_sub_of_le _ _ (UInt64.le_of_lt h)
  have hdestination : (destination + done).toNat = destination.toNat + done.toNat := by
    rw [UInt64.toNat_add]
    omega
  have hoffset : (offset + done).toNat = offset.toNat + done.toNat := by
    rw [UInt64.toNat_add]
    omega
  constructor
  · rw [Pread.target, window, readCall, hleft, hdestination]
  · rw [Pread.source, readCall, hleft, hoffset]

/-- A call that reads at most what it was asked for leaves the loop within its length. -/
theorem toNat_advance {data : Bytes} (hread : data.length ≤ (length - done).toNat)
    (h : done < length) :
    (done + .ofNat data.length).toNat = done.toNat + data.length ∧
      done.toNat + data.length ≤ length.toNat := by
  have hlt := UInt64.lt_iff_toNat_lt.mp h
  have hbound := length.toNat_lt
  rw [UInt64.toNat_sub_of_le _ _ (UInt64.le_of_lt h)] at hread
  have hcount : (UInt64.ofNat data.length).toNat = data.length :=
    UInt64.toNat_ofNat_of_lt' (show data.length < 2 ^ 64 by omega)
  constructor
  · rw [UInt64.toNat_add, hcount]
    omega
  · omega

/-- Where the calls of the loop read and write. -/
theorem readRounds_spans (hfits : ReadFits destination length offset) (start : UInt64)
    (results : List PreadResult)
    (hhonest : ∀ p ∈ (readRounds fd destination length offset start results).1, p.Honest content) :
    ∀ p ∈ (readRounds fd destination length offset start results).1, p.fd = fd ∧
      ∃ d, start.toNat ≤ d ∧ d < length.toNat ∧ p.target = window destination length d ∧
        p.source = ⟨offset.toNat + d, length.toNat - d⟩ := by
  have hcall (done : UInt64) (h : done < length) (received : PreadResult) (p : Pread)
      (hp : p = readCall fd destination length offset done received) : p.fd = fd ∧
        ∃ d, done.toNat ≤ d ∧ d < length.toNat ∧ p.target = window destination length d ∧
          p.source = ⟨offset.toNat + d, length.toNat - d⟩ := by
    subst hp
    exact ⟨rfl, done.toNat, Nat.le_refl _, UInt64.lt_iff_toNat_lt.mp h,
      readCall_spans hfits h received⟩
  -- the induction is on the answers of `pread`, one round for each
  induction start, results using readRounds_induction length with
  | done start results h =>
    rw [readRounds_done h]
    exact fun _ hp => absurd hp List.not_mem_nil
  | waits start h => exact fun _ hp => absurd hp List.not_mem_nil
  | interrupted start results h ih =>
    rw [readRounds_interrupted h] at hhonest ⊢
    intro p hp
    obtain hp | hp := List.mem_cons.mp hp
    · exact hcall start h _ p hp
    · exact ih (fun q hq => hhonest q (List.mem_cons_of_mem _ hq)) p hp
  | failed start results h =>
    -- the call that fails is the last one
    rw [readRounds_failed h]
    exact fun p hp => hcall start h _ p (List.mem_singleton.mp hp)
  | ended start results h =>
    -- the file ends here
    rw [readRounds_ended h]
    exact fun p hp => hcall start h _ p (List.mem_singleton.mp hp)
  | read start data results h hdata ih =>
    rw [readRounds_read h hdata] at hhonest ⊢
    have hread := (hhonest _ List.mem_cons_self data rfl).1
    have hadvance := (toNat_advance hread h).1
    intro p hp
    obtain hp | hp := List.mem_cons.mp hp
    · exact hcall start h _ p hp
    · -- a later round, which starts behind what this one has read
      obtain ⟨hfd, d, hle, hspans⟩ := ih (fun q hq => hhonest q (List.mem_cons_of_mem _ hq)) p hp
      exact ⟨hfd, d, by omega, hspans⟩

/-- When the loop answers `ok`, every byte of the window behind its start is the disk's. -/
theorem readRounds_complete (hfits : ReadFits destination length offset) (start : UInt64)
    (results : List PreadResult)
    (hhonest : ∀ p ∈ (readRounds fd destination length offset start results).1, p.Honest content)
    (hok : (readRounds fd destination length offset start results).2 = some .ok)
    (hstored : Stored (readRounds fd destination length offset start results).1 m m') :
    ∀ i, start.toNat ≤ i → i < length.toNat →
      m' (destination.toNat + i) = content fd (offset.toNat + i) := by
  induction start, results using readRounds_induction length generalizing m with
  | done start results h =>
    -- nothing is left to read
    rw [UInt64.lt_iff_toNat_lt] at h
    intro i hle hlt
    omega
  | waits start h =>
    rw [readRounds, if_pos h] at hok
    cases hok
  -- an interrupted call stores nothing
  | interrupted start results h ih =>
    rw [readRounds_interrupted h] at hhonest hok hstored
    obtain ⟨mid, -, hstored⟩ := hstored
    exact ih (fun q hq => hhonest q (List.mem_cons_of_mem _ hq)) hok hstored
  | failed start results h =>
    rw [readRounds_failed h] at hok
    cases hok
  | ended start results h =>
    rw [readRounds_ended h] at hok
    cases hok
  | read start data results h hdata ih =>
    rw [readRounds_read h hdata] at hhonest hok hstored
    obtain ⟨mid, hstores, hstored⟩ := hstored
    have hrest : ∀ q ∈ (readRounds fd destination length offset (start + .ofNat data.length)
        results).1, q.Honest content := fun q hq => hhonest q (List.mem_cons_of_mem _ hq)
    obtain ⟨hread, hcontent⟩ := hhonest _ List.mem_cons_self data rfl
    obtain ⟨hadvance, hwithin⟩ := toNat_advance hread h
    intro i hle hlt
    by_cases hlater : start.toNat + data.length ≤ i
    · -- what is read later
      exact ih hrest hok hstored i (by rw [hadvance]; exact hlater) hlt
    -- the later calls only write behind what this one has read
    have hbehind : ∀ q ∈ (readRounds fd destination length offset (start + .ofNat data.length)
        results).1, q.target.Within (window destination length (start.toNat + data.length)) := by
      intro q hq
      obtain ⟨-, d, hd, hdlt, htarget, -⟩ := readRounds_spans hfits _ _ hrest q hq
      rw [htarget]
      exact window_within (hadvance ▸ hd) (Nat.le_of_lt hdlt)
    have hkept := stored_outside hstored hbehind
    have hspans := @readCall_spans fd _ _ _ _ hfits h (.read data)
    have hstart : (offset + start).toNat = offset.toNat + start.toNat :=
      congrArg Span.start hspans.2
    have hto : (destination + start).toNat = destination.toNat + start.toNat :=
      congrArg Span.start hspans.1
    have hindex : i - start.toNat < data.length := by omega
    have hstore := hstores.data data rfl (i - start.toNat) hindex
    have hbyte := hcontent (i - start.toNat) hindex
    -- what this call has read stays
    rw [hkept]
    · rw [readCall, hto, Nat.add_assoc, Nat.add_sub_cancel' hle] at hstore
      rw [readCall, hstart, Nat.add_assoc, Nat.add_sub_cancel' hle] at hbyte
      rw [hstore, hbyte]
    · intro hmem
      have hge : destination.toNat + (start.toNat + data.length) ≤ destination.toNat + i := hmem.1
      omega

/-- When the loop answers `ok`, exactly the bytes behind its start have been transferred. -/
theorem readRounds_transferred (start : UInt64) (results : List PreadResult)
    (hstart : start ≤ length)
    (hhonest : ∀ p ∈ (readRounds fd destination length offset start results).1, p.Honest content)
    (hok : (readRounds fd destination length offset start results).2 = some .ok) :
    start.toNat + ((readRounds fd destination length offset start results).1.map
      Pread.transferred).sum = length.toNat := by
  induction start, results using readRounds_induction length with
  | done start results h =>
    -- all of the length has been read
    rw [readRounds_done h]
    exact congrArg UInt64.toNat (UInt64.le_antisymm hstart (UInt64.not_lt.mp h))
  | waits start h =>
    rw [readRounds, if_pos h] at hok
    cases hok
  | interrupted start results h ih =>
    rw [readRounds_interrupted h] at hhonest hok ⊢
    -- an interrupted call transfers nothing
    rw [List.map_cons, List.sum_cons, ← ih hstart
      (fun q hq => hhonest q (List.mem_cons_of_mem _ hq)) hok]
    exact congrArg (start.toNat + ·) (Nat.zero_add _)
  | failed start results h =>
    rw [readRounds_failed h] at hok
    cases hok
  | ended start results h =>
    rw [readRounds_ended h] at hok
    cases hok
  | read start data results h hdata ih =>
    rw [readRounds_read h hdata] at hhonest hok ⊢
    obtain ⟨hadvance, hwithin⟩ := toNat_advance (hhonest _ List.mem_cons_self data rfl).1 h
    have hnext : start + .ofNat data.length ≤ length := by
      rw [UInt64.le_iff_toNat_le, hadvance]
      exact hwithin
    rw [List.map_cons, List.sum_cons, ← ih hnext
      (fun q hq => hhonest q (List.mem_cons_of_mem _ hq)) hok, hadvance]
    exact (Nat.add_assoc _ _ _).symm

/-- An interrupted call is made again with the same arguments, so that it makes no difference to the
answer. -/
theorem readRounds_reissued (start : UInt64) (results : List PreadResult) :
    (readRounds fd destination length offset start (results.filter (· ≠ .interrupted))).2 =
      (readRounds fd destination length offset start results).2 := by
  induction start, results using readRounds_induction length with
  | done start results h => rw [readRounds_done h, readRounds_done h]
  | waits => rfl
  | interrupted start results h ih =>
    rw [readRounds_interrupted h, ← ih]
    rfl
  | failed start results h =>
    rw [List.filter_cons_of_pos (by decide), readRounds_failed h, readRounds_failed h]
  | ended start results h =>
    rw [List.filter_cons_of_pos (by decide), readRounds_ended h, readRounds_ended h]
  | read start data results h hdata ih =>
    have hfilter : (PreadResult.read data :: results).filter (· ≠ .interrupted) =
        .read data :: results.filter (· ≠ .interrupted) :=
      List.filter_cons_of_pos (decide_eq_true PreadResult.noConfusion)
    rw [hfilter, readRounds_read h hdata, readRounds_read h hdata]
    exact ih

end Bounds

/-! ## The service -/

/-- A call that was not interrupted, as the service sees it. -/
def Pread.event (p : Pread) : Event Sys :=
  ⟨.pread p.fd p.destination p.length p.offset,
    match p.result with
    | .read data => some data
    | _ => none⟩

/-- What `pread` promises of a reply. -/
def PreadReply (content : Fd → Nat → UInt8) : (c : Call) → c.Reply → Prop
  | .pread fd _ length offset, some data => data.length ≤ length.toNat ∧
    ∀ i (h : i < data.length), data[i] = content fd (offset.toNat + i)
  | _, _ => True

/-- The contract that records the events and assumes that `pread` keeps its promise. -/
def preads (content : Fd → Nat → UInt8) : Contract Sys (List (Event Sys)) where
  allows _ _ := True
  assumes _ := PreadReply content
  next h c r := h ++ [⟨c, r⟩]

theorem preads_assumed {content : Fd → Nat → UInt8} {past es : List (Event Sys)}
    (h : ∀ e ∈ es, PreadReply content e.1 e.2) : (preads content).Assumed past es := by
  induction es generalizing past with
  | nil => trivial
  | cons e es ih =>
    exact ⟨h e List.mem_cons_self, ih fun e' he' => h e' (List.mem_cons_of_mem _ he')⟩

section Service

variable {content : Fd → Nat → UInt8} {disk : PhysicalDisk} {destination length offset : UInt64}
  {b : Backend} {es : List (Event Sys)}

/-- The loop of the service makes the calls of `readRounds`, for the results that these get. -/
structure Looped (disk : PhysicalDisk) (destination length offset done : UInt64)
    (results : List PreadResult) (status : Status) (es : List (Event Sys)) : Prop where
  answered : ∀ received ∈ results, received ≠ .interrupted
  status : (readRounds disk.fd destination length offset done results).2 = some status
  events : es = (readRounds disk.fd destination length offset done results).1.map Pread.event

theorem looped_done {done : UInt64} (h : ¬ done < length) :
    Looped disk destination length offset done [] .ok [] where
  answered _ hmem := absurd hmem List.not_mem_nil
  status := by rw [readRounds_done h]
  events := by rw [readRounds_done h]; rfl

theorem readLoop_looped (rounds : Nat) (done : UInt64) (hle : done ≤ length)
    (hrounds : length.toNat - done.toNat ≤ rounds) :
    (readLoop disk destination length offset rounds done).wp (preads content) (fun status b' es' =>
      b' = b ∧ ∃ results es'', es' = es ++ es'' ∧
        Looped disk destination length offset done results status es'') b es := by
  -- each round reads at least one byte, so there are rounds enough
  induction rounds generalizing done es with
  | zero =>
    have hdone : ¬ done < length := by
      rw [UInt64.lt_iff_toNat_lt]
      omega
    exact ⟨rfl, [], [], (List.append_nil es).symm, looped_done hdone⟩
  | succ rounds ih =>
    rw [readLoop, wp_ite]
    split
    next h =>
      exact ⟨rfl, [], [], (List.append_nil es).symm, looped_done (UInt64.not_lt.mpr h)⟩
    rename_i h
    have hlt : done < length := UInt64.not_le.mp h
    -- the call, whatever it returns
    rw [wp_bind]
    refine wp_issue (c := .pread disk.fd (destination + done) (length - done) (offset + done))
      trivial
      fun (r : Option Bytes) hreply => ?_
    have hsingle {received : PreadResult} (hreceived : received ≠ .interrupted) :
        ∀ other ∈ [received], other ≠ .interrupted := by
      intro other hother
      rw [List.mem_singleton.mp hother]
      exact hreceived
    cases r with
    | none =>
      refine ⟨rfl, [.failed], _, rfl, hsingle PreadResult.noConfusion, ?_, ?_⟩
      · rw [readRounds_failed hlt]
      · rw [readRounds_failed hlt]
        rfl
    | some data =>
      dsimp only
      rw [wp_ite]
      split
      -- `pread` returned 0
      next hdata =>
        obtain rfl := List.isEmpty_iff.mp hdata
        refine ⟨rfl, [.read []], _, rfl, hsingle PreadResult.noConfusion, ?_, ?_⟩
        · rw [readRounds_ended hlt]
        · rw [readRounds_ended hlt]
          rfl
      rename_i hdata
      rw [List.isEmpty_iff] at hdata
      obtain ⟨hadvance, hwithin⟩ := toNat_advance hreply.1 hlt
      have hpos := List.length_pos_iff.mpr hdata
      -- the rounds behind this one
      refine wp_mono (ih (done + .ofNat data.length) ?_ ?_) fun status b' es' hpost => ?_
      · rw [UInt64.le_iff_toNat_le, hadvance]
        exact hwithin
      · omega
      · obtain ⟨rfl, results, es'', rfl, hlooped⟩ := hpost
        refine ⟨rfl, .read data :: results, _, List.append_assoc _ _ _, ?_, ?_, ?_⟩
        · exact List.forall_mem_cons.mpr ⟨PreadResult.noConfusion, hlooped.answered⟩
        · rw [readRounds_read hlt hdata]
          exact hlooped.status
        · rw [readRounds_read hlt hdata, List.map_cons, ← hlooped.events]
          rfl

end Service

/-! ## A request -/

def Call.isPread : Call → Bool
  | .pread .. => true
  | _ => false

/-- A read that its checks let through: of a disk of the table, into the live mapping at `memory`,
within both. -/
structure ReadAdmitted (b : Backend) (k : Outside) (request : BlockRead) (disk : PhysicalDisk)
    (memory : UInt64) : Prop where
  id : request.disk ≠ 0
  selected : b.disks[request.disk.toNat - 1]? = some disk
  mapped : b.memory = some memory
  live : k.maps memory = some b.region.length
  fits : memory.toNat + b.region.length.toNat ≤ 2 ^ 64
  target : request.memoryOffset.toNat + request.length.toNat ≤ b.region.length.toNat
  source : request.offset.toNat + request.length.toNat ≤ disk.bytes.toNat
  signed : request.offset.toNat + request.length.toNat < 2 ^ 63
  nonempty : request.length ≠ 0

/-- The loop of a read stays within the window of the request and the range of the disk, and when it
answers `ok` the window holds the range. -/
structure ReadBounded (content : Fd → Nat → UInt8) (request : BlockRead) (disk : PhysicalDisk)
    (memory : UInt64) (calls : List Pread) (status : Option Status) : Prop where
  spans : ∀ p ∈ calls, p.fd = disk.fd ∧
    p.target.Within ⟨memory.toNat + request.memoryOffset.toNat, request.length.toNat⟩ ∧
    p.source.Within ⟨request.offset.toNat, request.length.toNat⟩
  outside : ∀ m m', Stored calls m m' → ∀ address,
    address ∉ (⟨memory.toNat + request.memoryOffset.toNat, request.length.toNat⟩ : Span).addresses →
      m' address = m address
  complete : status = some .ok → (∀ m m', Stored calls m m' → ∀ i < request.length.toNat,
      m' (memory.toNat + request.memoryOffset.toNat + i) =
        content disk.fd (request.offset.toNat + i)) ∧
    (calls.map Pread.transferred).sum = request.length.toNat

/-- The answer to a `BLOCK_READ` and the events of its turn: it is refused without a call of
`pread`, or its loop runs, and stays within its bounds whatever the calls return. -/
inductive ReadAnswer (content : Fd → Nat → UInt8) (b : Backend) (k : Outside)
    (request : BlockRead) : Status → List (Event Sys) → Prop where
  | refused {status : Status} {es : List (Event Sys)} (hstatus : status ≠ .ok)
      (hnone : ∀ e ∈ es, e.1.isPread = false) : ReadAnswer content b k request status es
  | read {status : Status} {disk : PhysicalDisk} {memory : UInt64} {results : List PreadResult}
      {es : List (Event Sys)} (hadmitted : ReadAdmitted b k request disk memory)
      (hlooped : Looped disk (memory + request.memoryOffset) request.length request.offset 0
        results status es)
      (hreissued : ∀ results' : List PreadResult,
        results'.filter (· ≠ .interrupted) = results →
          (readRounds disk.fd (memory + request.memoryOffset) request.length request.offset 0
            results').2 = some status)
      (hbounded : ∀ results' calls status',
        readRounds disk.fd (memory + request.memoryOffset) request.length request.offset 0
          results' = (calls, status') → (∀ p ∈ calls, p.Honest content) →
            ReadBounded content request disk memory calls status') :
      ReadAnswer content b k request status (disk.currency ++ es)

section Requests

variable {content : Fd → Nat → UInt8} {b : Backend} {k : Outside} {request : BlockRead}
  {disk : PhysicalDisk} {memory : UInt64}

theorem ReadAdmitted.destination (h : ReadAdmitted b k request disk memory) :
    (memory + request.memoryOffset).toNat = memory.toNat + request.memoryOffset.toNat := by
  have hpos : request.length.toNat ≠ 0 := fun hzero => h.nonempty (UInt64.toNat_inj.mp hzero)
  have hfits := h.fits
  have htarget := h.target
  rw [UInt64.toNat_add]
  omega

theorem ReadAdmitted.bounded (h : ReadAdmitted b k request disk memory)
    {results : List PreadResult} {calls : List Pread} {status : Option Status}
    (hrun : readRounds disk.fd (memory + request.memoryOffset) request.length request.offset 0
      results = (calls, status)) (hhonest : ∀ p ∈ calls, p.Honest content) :
    ReadBounded content request disk memory calls status := by
  have hdestination := h.destination
  -- the checks keep the range within the region and the offset signed
  have hfits : ReadFits (memory + request.memoryOffset) request.length request.offset := by
    refine ⟨?_, h.signed⟩
    have hmemory := h.fits
    have htarget := h.target
    rw [hdestination]
    omega
  obtain ⟨rfl, rfl⟩ := Prod.mk.inj hrun
  have hspans := readRounds_spans hfits 0 results hhonest
  have hcalls : ∀ p ∈ (readRounds disk.fd (memory + request.memoryOffset) request.length
      request.offset 0 results).1, p.fd = disk.fd ∧
        p.target.Within ⟨memory.toNat + request.memoryOffset.toNat, request.length.toNat⟩ ∧
        p.source.Within ⟨request.offset.toNat, request.length.toNat⟩ := by
    intro p hp
    obtain ⟨hfd, d, -, hd, htarget, hsource⟩ := hspans p hp
    rw [htarget, hsource, ← hdestination]
    refine ⟨hfd, window_within (Nat.zero_le d) (Nat.le_of_lt hd), Nat.le_add_right _ _, ?_⟩
    simp only [Span.stop]
    omega
  refine ⟨hcalls, fun m m' hstored address haddress => ?_, fun hok => ⟨fun m m' hstored i hi => ?_,
    ?_⟩⟩
  · -- nothing outside of the destination changes
    exact stored_outside hstored (fun p hp => (hcalls p hp).2.1) haddress
  · -- every byte of it comes from the disk
    rw [← hdestination]
    exact readRounds_complete hfits 0 results hhonest hok hstored i (Nat.zero_le i) hi
  · -- the calls transfer as many bytes as were asked for
    have hsum := readRounds_transferred 0 results (UInt64.le_iff_toNat_le.mpr (Nat.zero_le _))
      hhonest hok
    exact (Nat.zero_add _).symm.trans hsum

/-- What the checks of a request establish. -/
theorem admitted_of_checks (hid : request.disk ≠ 0)
    (hdisk : b.disks[request.disk.toNat - 1]? = some disk) (hmemory : b.memory = some memory)
    (hlive : k.maps memory = some b.region.length ∧
      memory.toNat + b.region.length.toNat ≤ 2 ^ 64)
    (hvalid : ¬ (!hyperBlockReadValid disk.bytes disk.logical request.offset request.length
      b.region.length request.memoryOffset || request.offset > 0x7fffffffffffffff ||
        request.length > 0x7fffffffffffffff - request.offset) = true) :
    ReadAdmitted b k request disk memory := by
  have hlimit : (0x7fffffffffffffff : UInt64).toNat = 2 ^ 63 - 1 := by decide
  simp only [hyperBlockReadValid, Bool.or_eq_true, Bool.not_eq_true', decide_eq_true_eq, not_or,
    Bool.not_eq_false, Bool.and_eq_true, bne_iff_ne, gt_iff_lt, UInt64.not_lt] at hvalid
  obtain ⟨⟨⟨⟨⟨⟨⟨⟨⟨⟨-, hnonempty⟩, -⟩, -⟩, -⟩, hbytes⟩, hoffset⟩, hregion⟩, htarget⟩, hsigned⟩,
    hend⟩ :=
    hvalid
  rw [UInt64.le_iff_toNat_le, UInt64.toNat_sub_of_le _ _ hbytes] at hoffset
  rw [UInt64.le_iff_toNat_le, UInt64.toNat_sub_of_le _ _ hregion] at htarget
  rw [UInt64.le_iff_toNat_le, UInt64.toNat_sub_of_le _ _ hsigned, hlimit] at hend
  rw [UInt64.le_iff_toNat_le] at hbytes hregion hsigned
  refine ⟨hid, hdisk, hmemory, hlive.1, hlive.2, ?_, ?_, ?_, hnonempty⟩
  · omega
  · omega
  · omega

theorem queries_isPread {es : List (Event Sys)} (h : disk.Queries es) :
    ∀ e ∈ es, e.1.isPread = false := by
  intro e he
  obtain heq | heq := h e he
  · rw [heq]
    rfl
  · rw [heq]
    rfl

theorem currency_queries (disk : PhysicalDisk) : disk.Queries disk.currency := by
  intro e he
  simp only [PhysicalDisk.currency, List.mem_cons, List.not_mem_nil, or_false] at he
  obtain rfl | rfl := he
  · exact .inl rfl
  · exact .inr rfl

theorem blockRead_answers {owner : BlockOwner} (hb : b.blocks = some owner)
    (hlive : ∀ memory, b.memory = some memory → k.maps memory = some b.region.length ∧
      memory.toNat + b.region.length.toNat ≤ 2 ^ 64) :
    (blockRead owner request).wp (preads content) (fun status _ es =>
      ReadAnswer content b k request status es) b [] := by
  have hrefused {status : Status} (hstatus : status ≠ .ok) :
      ReadAnswer content b k request status [] :=
        .refused hstatus fun _ h => absurd h List.not_mem_nil
  have hinvalid : Status.invalid ≠ .ok := by decide
  have hfailure : Status.backendFailure ≠ .ok := by decide
  have hdisks : b.disks = owner.disks := by
    rw [Backend.disks, hb]
    rfl
  rw [blockRead, wp_bind, wp_get]
  -- no memory was prepared
  split
  · exact hrefused hinvalid
  rename_i memory hmemory
  rw [wp_ite]
  -- there is no disk of this number
  split
  · exact hrefused hinvalid
  rename_i hid
  split
  · exact hrefused hinvalid
  rename_i disk hdisk
  rw [wp_bind]
  have hcurrent := wp_weaken (D := preads content) (diskCurrent_history disk b)
    (fun _ _ _ => trivial) (fun _ _ _ _ => trivial) fun _ _ _ => rfl
  refine wp_mono hcurrent fun r b₁ es hpost => ?_
  obtain ⟨rfl, hes⟩ := hpost
  cases r with
  -- the disk is no longer the one that was discovered
  | false => exact .refused hfailure (queries_isPread hes.1)
  | true =>
    replace hes := hes.2.mp rfl
    subst hes
    rw [if_neg (by decide), wp_ite]
    -- the range is not within the disk, or not within the memory
    split
    · exact .refused hinvalid (queries_isPread (currency_queries disk))
    rename_i hvalid
    have hadmitted : ReadAdmitted b₁ k request disk memory :=
      admitted_of_checks hid (hdisks ▸ hdisk) hmemory (hlive memory hmemory) hvalid
    refine wp_mono (readLoop_looped request.length.toNat 0 (UInt64.le_iff_toNat_le.mpr
      (Nat.zero_le _)) (Nat.sub_le _ _)) fun status b₂ es hpost => ?_
    obtain ⟨-, results, loop, rfl, hlooped⟩ := hpost
    refine .read hadmitted hlooped (fun results' hfilter => ?_) fun results' calls status' hrun
      hhonest => hadmitted.bounded hrun hhonest
    rw [← hlooped.status, ← hfilter, readRounds_reissued]

theorem dispatch_answers {m : Bytes} (hop : operationOf m = .blockRead) (session : Session)
    (hlive : ∀ memory, b.memory = some memory → k.maps memory = some b.region.length ∧
      memory.toNat + b.region.length.toNat ≤ 2 ^ 64) :
    (dispatch session m).wp (preads content) (fun r _ es =>
      ReadAnswer content b k (.decode m) r.1.status es) b [] := by
  have hrefused (status : Status) (hstatus : status = .invalid ∨ status = .unsupported) :
      ReadAnswer content b k (.decode m) status [] := by
    refine .refused ?_ fun _ h => absurd h List.not_mem_nil
    obtain rfl | rfl := hstatus <;> decide
  refine wp_dispatch_block (by rw [hop]; rfl) (hrefused _ (.inl rfl)) ?_
  refine wp_blockDispatch (Q := fun r _ es => ReadAnswer content b k (.decode m) r.status es)
    hrefused (fun hop' => ?_) (fun _ _ hop' => ?_) (fun owner hb _ => blockRead_answers hb hlive)
    fun _ _ hop' => ?_
  · simp [hop] at hop'
  · simp [hop] at hop'
  · simp [hop] at hop'

/-- A diagnostic changes nothing that a read depends on. -/
theorem ReadAnswer.of_diagnostic {status : Status} {es : List (Event Sys)}
    (h : ReadAnswer content b.diagnostic k request status es) :
    ReadAnswer content b k request status es := by
  have hwithin : Within [] b b.diagnostic := .diagnostic [] b
  cases h with
  | refused hstatus hnone => exact .refused hstatus hnone
  | read hadmitted hlooped hreissued hbounded =>
    have hmemory := hwithin.memory List.not_mem_nil
    have hregion := hwithin.region List.not_mem_nil
    refine .read ⟨hadmitted.id, ?_, ?_, ?_, ?_, ?_, hadmitted.source, hadmitted.signed,
      hadmitted.nonempty⟩ hlooped hreissued hbounded
    · rw [← disks_diagnostic]
      exact hadmitted.selected
    · rw [← hmemory]
      exact hadmitted.mapped
    · rw [← hregion]
      exact hadmitted.live
    · rw [← hregion]
      exact hadmitted.fits
    · rw [← hregion]
      exact hadmitted.target

end Requests

/-! ## Runs -/

/-- What `mmap` promises: a mapping does not wrap. -/
def MmapReply : (c : Call) → c.Reply → Prop
  | .mmap _ length, some address => address.toNat + length.toNat ≤ 2 ^ 64
  | _, _ => True

/-- No live mapping wraps. -/
def Outside.MapsFit (k : Outside) : Prop :=
  ∀ address length, k.maps address = some length → address.toNat + length.toNat ≤ 2 ^ 64

theorem mapsFit_next {k : Outside} (h : k.MapsFit) {c : Call} {r : c.Reply}
    (hreply : MmapReply c r) :
    (k.next c r).MapsFit := by
  unfold Outside.next
  split
  case h_6 fd length address =>
    intro other size hmap
    dsimp only at hmap
    by_cases heq : other = address
    · subst heq
      rw [Function.update_self] at hmap
      rw [← Option.some_inj.mp hmap]
      exact hreply
    · rw [Function.update_of_ne heq] at hmap
      exact h other size hmap
  case h_7 address length =>
    intro other size hmap
    dsimp only at hmap
    by_cases heq : other = address
    · subst heq
      rw [Function.update_self] at hmap
      exact absurd hmap.symm (Option.some_ne_none _)
    · rw [Function.update_of_ne heq] at hmap
      exact h other size hmap
  all_goals exact h

theorem mapsFit_after {k : Outside} (h : k.MapsFit) {es : List (Event Sys)}
    (hes : ∀ e ∈ es, MmapReply e.1 e.2) : (linux.after k es).MapsFit := by
  induction es generalizing k with
  | nil => exact h
  | cons e es ih =>
    exact ih (mapsFit_next h (hes e List.mem_cons_self)) fun e' he' =>
      hes e' (List.mem_cons_of_mem _ he')

/-- Metadata reads are bounded. In every state a managed service reaches, whatever its calls
answered, and for every `BLOCK_READ`: the request is refused without a call of `pread`, or every
call is within the window of the live mapping and within the range of the disk that it selects,
memory outside the window keeps its contents, and `ok` means that the window holds the range of the
disk. -/
theorem block_reads_bounded (setup : Setup) {env : Environment Sys} {ms : List Bytes}
    {pre post : List Turn} {t : Turn} {content : Fd → Nat → UInt8}
    (hts : turns env [] setup.serving ms = pre ++ t :: post) (hread : t.Executes .blockRead)
    (hmmap : ∀ e ∈ turnEvents pre, MmapReply e.1 e.2)
    (hpread : ∀ e ∈ t.events, PreadReply content e.1 e.2) :
    ∃ status, t.served.response.status = status.code ∧
      ReadAnswer content t.before.backend (linux.after setup.outside (turnEvents pre))
        (.decode t.record) status t.events := by
  have hcustody := (turns_wp (J := fun s k => Custody s.backend k) (R := fun _ _ _ _ _ _ => True)
    (fun _ _ _ hwell h => Program.wp_mono (serveRecord_custody (framed_of_wellFramed hwell) h)
      fun _ _ hpost => ⟨hpost.1, trivial⟩) setup.custody (linux_assumed _ _) hts).1
  have hfit : (linux.after setup.outside (turnEvents pre)).MapsFit :=
    mapsFit_after (fun _ _ hmap => absurd hmap.symm (Option.some_ne_none _)) hmmap
  have hdiagnostic := hcustody.quietly (Within.diagnostic [] t.before.backend)
  have hlive (memory : UInt64) (hmemory : t.before.backend.diagnostic.memory = some memory) :
      (linux.after setup.outside (turnEvents pre)).maps memory =
        some t.before.backend.diagnostic.region.length ∧
      memory.toNat + t.before.backend.diagnostic.region.length.toNat ≤ 2 ^ 64 := by
    have hmap := hdiagnostic.holds.maps.live () memory
      t.before.backend.diagnostic.region.length (by rw [Backend.mapping, hmemory]; rfl)
    exact ⟨hmap, hfit _ _ hmap⟩
  have hmem : t ∈ turns env [] setup.serving ms := by
    rw [hts]
    exact List.mem_append_right _ List.mem_cons_self
  obtain ⟨-, r, b', hanswer, hresponse, -⟩ := turns_executed_wp (C := preads content) (k := [])
    hmem hread.1 (preads_assumed hpread) fun session => dispatch_answers hread.2 session hlive
  have hafter (past es : List (Event Sys)) : (preads content).after past es = past ++ es :=
    Contract.history_after past es
  rw [hafter, List.nil_append] at hanswer
  exact ⟨r.1.status, by rw [hresponse]; rfl, hanswer.of_diagnostic⟩

/-! ### A read in two parts -/

/-- The events of a turn are replies of the environment. -/
theorem turn_events {env : Environment Sys} {past : List (Event Sys)} {s : Serving}
    {ms : List Bytes} {t : Turn} (ht : t ∈ turns env past s ms) {e : Event Sys}
    (he : e ∈ t.events) :
    ∃ past', e.2 = env past' e.1 := by
  obtain ⟨-, past', hexec⟩ := turns_exec ht
  have hevents : ((serveRecord t.before t.record).exec env past').2 = t.events :=
    congrArg Prod.snd hexec
  rw [← hevents] at he
  exact Program.mem_exec he

/-- A host with one disk of 4096 bytes, all of them 7, that reads at most 300 bytes at a time. -/
def diskHost : Environment Sys := fun _ c =>
  match c with
  | .openNode _ => .ok 10
  | .ioctl .. => Outcome.ok
  | .memoryInfo _ => some (⟨0, 4096⟩ : MemoryInfo)
  | .mmap _ length => (if length ≤ 4096 then some 0x10000 else none : Option UInt64)
  | .scandir _ => some ["sda"]
  | .access path => if path = "/sys/class/block/sda/device" then Outcome.ok else .failed
  | .fstat _ => some (⟨true, ⟨8, 0⟩⟩ : Stat)
  | .blkGetSize64 _ => some (4096 : UInt64)
  | .blkGetDiskSeq _ => some (1 : UInt64)
  | .blkSszGet _ => some (512 : UInt32)
  | .blkPbszGet _ => some (512 : UInt32)
  | .blkRoGet _ => some (0 : UInt32)
  | .pread _ _ length _ => some (List.replicate (min length.toNat 300) 7 : Bytes)
  | c => c.refused

def diskOwner : Setup where
  memoryPath := "/dev/hyper-memory"
  role := .owner fun _ => false

/-- `BLOCK_HELLO`, a scratch mapping of one page, an enumeration, and a read of a sector. -/
def diskRecords : List Bytes :=
  [request 11 1 [], request 5 2 (htole64 0 ++ htole64 0 ++ htole64 4096 ++ htole64 0),
    request 12 3 (htole32 0 ++ htole32 0),
    request 13 4 (htole64 1 ++ htole64 512 ++ htole64 512 ++ htole64 1024)]

theorem diskHost_pread (past : List (Event Sys)) (c : Call) :
    PreadReply (fun _ _ => 7) c (diskHost past c) := by
  cases c with
  | pread fd destination length offset =>
    refine ⟨?_, fun i h => List.getElem_replicate _⟩
    rw [List.length_replicate]
    exact Nat.min_le_left _ _
  | _ => trivial

theorem diskHost_mmap (past : List (Event Sys)) (c : Call) : MmapReply c (diskHost past c) := by
  cases c with
  | mmap fd length =>
    by_cases hlength : length ≤ 4096
    · have hreply : diskHost past (.mmap fd length) = (some 0x10000 : Option UInt64) :=
        if_pos hlength
      have hpage : length.toNat ≤ 4096 := UInt64.le_iff_toNat_le.mp hlength
      have haddress : (0x10000 : UInt64).toNat = 0x10000 := by decide
      rw [hreply]
      show (0x10000 : UInt64).toNat + length.toNat ≤ 2 ^ 64
      omega
    · have hreply : diskHost past (.mmap fd length) = (none : Option UInt64) := if_neg hlength
      rw [hreply]
      trivial
  | _ => trivial

/-- The sector is read in two parts. -/
theorem block_reads_bounded_parts : ∃ t ∈ turns diskHost [] diskOwner.serving diskRecords,
    ReadAnswer (fun _ _ => 7) t.before.backend (linux.after diskOwner.outside
      (turnEvents ((turns diskHost [] diskOwner.serving diskRecords).take 3)))
      (.decode t.record) .ok t.events := by
  have hlast : ((turns diskHost [] diskOwner.serving diskRecords)[3]?.map fun t =>
      (t.served.dispatched, operationOf t.record, t.served.response.status)) =
        some (true, .blockRead, Status.ok.code) := by decide +kernel
  obtain ⟨t, ht, hfields⟩ := Option.map_eq_some_iff.mp hlast
  simp only [Prod.mk.injEq] at hfields
  obtain ⟨hdispatched, hop, hok⟩ := hfields
  obtain ⟨hlt, hget⟩ := List.getElem?_eq_some_iff.mp ht
  have hsplit : turns diskHost [] diskOwner.serving diskRecords =
      (turns diskHost [] diskOwner.serving diskRecords).take 3 ++ t ::
        (turns diskHost [] diskOwner.serving diskRecords).drop 4 := by
    rw [← hget, List.getElem_cons_drop, List.take_append_drop]
  have hmem : t ∈ turns diskHost [] diskOwner.serving diskRecords := List.mem_of_getElem? ht
  have hmmap : ∀ e ∈ turnEvents ((turns diskHost [] diskOwner.serving diskRecords).take 3),
      MmapReply e.1 e.2 := by
    intro e he
    obtain ⟨u, hu, he⟩ := List.mem_flatMap.mp he
    obtain ⟨past, hreply⟩ := turn_events (List.mem_of_mem_take hu) he
    rw [hreply]
    exact diskHost_mmap past e.1
  have hpread : ∀ e ∈ t.events, PreadReply (fun _ _ => 7) e.1 e.2 := by
    intro e he
    obtain ⟨past, hreply⟩ := turn_events hmem he
    rw [hreply]
    exact diskHost_pread past e.1
  obtain ⟨status, hstatus, hanswer⟩ :=
    block_reads_bounded diskOwner hsplit ⟨hdispatched, hop⟩ hmmap hpread
  obtain rfl := Status.code_injective (hok.symm.trans hstatus)
  exact ⟨t, hmem, hanswer⟩

end HyperIoVm
