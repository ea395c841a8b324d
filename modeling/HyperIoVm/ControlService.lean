import HyperIoVm.ControlExchange
import HyperIoVm.Effects.Beside
import HyperIoVm.Setup

/-!
# The service on its mailbox (`serve` of `service/hyper-io-service.c`)

`serve` reads a record, answers it and writes the reply, over the mailbox and with every call
repeated that a signal interrupts. In every run the records it serves are those the owner posted,
in order and each once, and the replies the device takes are the replies to them, in the same order.
-/

namespace HyperIoVm

open Effects Program

/-! ## The loop -/

/-- How the loop ended, if it did. -/
inductive ServeEnd where
  | exited (code : Int)
  | waiting
  deriving DecidableEq, Repr

/-- The value of `stopping`. -/
def isStopping : Program Control Bool := Program.perform (I := Control) .stopping

/-- `m` is repeated while a signal interrupts it and the service is not to stop. -/
def retried {α : Type} [DecidableEq α] (m : Program Control (Transfer α)) :
    Nat → Program Control (Transfer α)
  | 0 => return .waiting
  | tries + 1 => do
    let result ← m
    if result = .failed .restart then do
      let stopping ← isStopping
      if stopping then return result else retried m tries
    else return result

/-- `serve` over the mailbox, for so many records; `rounds` bounds every wait. -/
def serveControl (rounds : Nat) : Nat → Serving → Program (Sys.sum Control) (ServeEnd × Serving)
  | 0, s => return (.waiting, s)
  | records + 1, s => do
    let stopping ← isStopping.right
    if stopping then return (.exited 0, s)
    let size ← (retried (controlRead true rounds hyperIoRecord) rounds).right
    if size = .waiting then return (.waiting, s)
    let stopping ← isStopping.right
    if stopping ∨ size = .failed .pipe then return (.exited 0, s)
    match size with
    | .failed _ | .waiting => return (.exited (-1), s)
    | .done m => do
      if !wellFramed m then return (.exited (-1), s)
      let (served, s) ← (serveRecord s m).left
      let reply := served.response
      let written ← (retried (controlWrite true rounds reply.written) rounds).right
      if written = .waiting then return (.waiting, s)
      let stopping ← isStopping.right
      if stopping ∨ written = .failed .pipe then return (.exited 0, s)
      if written ≠ .done reply.header.length.toNat then return (.exited (-1), s)
      serveControl rounds records s

section Serving

variable {posted : Posted} {k : ControlLedger}

/-! ## Calls that are repeated -/

theorem ReadSpec.trans {capacity : Nat} {e : ControlError} {r : Transfer Bytes}
    {k' k'' : ControlLedger} (h : ReadSpec posted capacity k (.failed e) k')
    (h' : ReadSpec posted capacity k' r k'') : ReadSpec posted capacity k r k'' := by
  have hsame : k'.consumed = k.consumed := h.other (by rintro _ ⟨⟩)
  refine ⟨?_, ?_, h'.sent.trans h.sent, fun hk => h'.closed (h.closed hk), h'.locked⟩
  · rw [← hsame]
    exact h'.done
  · rw [← hsame]
    exact h'.other

theorem WriteSpec.trans {bytes : Bytes} {r : Transfer Nat} {k' k'' : ControlLedger}
    (h : WriteSpec bytes k (.failed .restart) k') (h' : WriteSpec bytes k' r k'') :
    WriteSpec bytes k r k'' := by
  have hsame : k'.sent = k.sent := by
    rcases h.other (by rintro _ ⟨⟩) with hsent | ⟨hio, -⟩
    · exact hsent
    · cases hio
  refine ⟨?_, ?_, h'.consumed.trans h.consumed, fun hk => h'.closed (h.closed hk), h'.locked⟩
  · rw [← hsame]
    exact h'.done
  · rw [← hsame]
    exact h'.other

/-- A call that is repeated does what its last attempt does: attempts that a signal interrupted
leave no trace. -/
theorem retried_wp {α : Type} [DecidableEq α] {m : Program Control (Transfer α)}
    {S : ControlLedger → Transfer α → ControlLedger → Prop}
    (hm : ∀ k, k.locked = false → m.wp (mailbox posted) (S k) k)
    (hnone : ∀ k, S k .waiting k)
    (hlocked : ∀ k r k', S k r k' → r ≠ .waiting → k'.locked = false)
    (htrans : ∀ k k' r k'', S k (.failed .restart) k' → S k' r k'' → S k r k'')
    (tries : Nat) (hfree : k.locked = false) :
    (retried m tries).wp (mailbox posted) (S k) k := by
  induction tries generalizing k with
  | zero => exact hnone k
  | succ tries ih =>
    rw [retried, wp_bind]
    refine wp_mono (hm k hfree) fun result k' hresult => ?_
    split
    next hrestart =>
      rw [hrestart] at hresult
      refine ⟨trivial, fun (stopping : Bool) _ => ?_⟩
      cases stopping with
      | true =>
        rw [hrestart]
        exact hresult
      | false =>
        have hunlocked : k'.locked = false := hlocked k _ k' hresult (by rintro ⟨⟩)
        exact wp_mono (ih hunlocked) fun r k'' h => htrans k k' r k'' hresult h
    next => exact hresult

theorem readRecord_wp (hfree : k.locked = false) (rounds tries capacity : Nat) :
    (retried (controlRead true rounds capacity) tries).wp (mailbox posted)
      (ReadSpec posted capacity k) k :=
  retried_wp (S := ReadSpec posted capacity) (fun _ h => controlRead_wp h true rounds capacity)
    (fun _ => ⟨by rintro _ ⟨⟩, fun _ => rfl, rfl, id, fun h => absurd rfl h⟩)
    (fun _ _ _ h => h.locked) (fun _ _ _ _ h h' => h.trans h') tries hfree

theorem writeReply_wp (hfree : k.locked = false) (rounds tries : Nat) (bytes : Bytes) :
    (retried (controlWrite true rounds bytes) tries).wp (mailbox posted) (WriteSpec bytes k) k :=
  retried_wp (S := WriteSpec bytes) (fun _ h => controlWrite_wp h true rounds bytes)
    (fun _ => ⟨by rintro _ ⟨⟩, fun _ => .inl rfl, rfl, id, fun h => absurd rfl h⟩)
    (fun _ _ _ h => h.locked) (fun _ _ _ _ h h' => h.trans h') tries hfree

/-! ## The turns of the loop -/

instance : DecidableEq Sys.Call := inferInstanceAs (DecidableEq Call)

/-- Serving one record more makes one turn more. -/
theorem turns_concat {env : Environment Sys} {past : List (Event Sys)} {s : Serving}
    {ms : List Bytes} {m : Bytes} (hms : ∀ m ∈ ms, wellFramed m = true) :
    turns env past s (ms ++ [m]) = turns env past s ms ++
      turns env (past ++ turnEvents (turns env past s ms)) (endState s (turns env past s ms))
        [m] := by
  induction ms generalizing past s with
  | nil => rw [turns, turnEvents_nil, List.append_nil]; rfl
  | cons m' ms ih =>
    have hm' : wellFramed m' = true := hms m' List.mem_cons_self
    have hcons (rest : List Bytes) : turns env past s (m' :: rest) =
        ⟨s, m', ((serveRecord s m').exec env past).1.1, ((serveRecord s m').exec env past).2,
          ((serveRecord s m').exec env past).1.2⟩ ::
            turns env (past ++ ((serveRecord s m').exec env past).2)
              ((serveRecord s m').exec env past).1.2 rest := by
      rw [turns, if_pos hm']
    rw [List.cons_append, hcons, hcons, ih fun m hm => hms m (List.mem_cons_of_mem _ hm),
      turnEvents_cons, List.cons_append, ← List.append_assoc]
    rfl

/-- The turns `ts` are what the service did from `s₀` on: its system calls `es` are theirs, and
`s` is the state they leave. -/
structure Aligned (s₀ : Serving) (ts : List Turn) (es : List (Event Sys)) (s : Serving) : Prop where
  turns : ∀ rest,
    turns (Environment.replay Call.refused (es ++ rest)) [] s₀ (ts.map (·.record)) = ts
  events : turnEvents ts = es
  state : endState s₀ ts = s

theorem Aligned.start (s₀ : Serving) : Aligned s₀ [] [] s₀ := ⟨fun _ => rfl, rfl, rfl⟩

theorem Aligned.serve {s₀ s s' : Serving} {ts : List Turn} {es es' : List (Event Sys)} {m : Bytes}
    {served : Served} (h : Aligned s₀ ts es s) (hm : wellFramed m = true)
    (hexec : ∀ rest, (serveRecord s m).exec (Environment.replay Call.refused (es ++ es' ++ rest))
      es = ((served, s'), es')) :
    Aligned s₀ (ts ++ [⟨s, m, served, es', s'⟩]) (es ++ es') s' := by
  refine ⟨fun rest => ?_, ?_, ?_⟩
  · have hturns : HyperIoVm.turns (Environment.replay Call.refused (es ++ es' ++ rest)) [] s₀
        (ts.map (·.record)) = ts := by
      rw [List.append_assoc]
      exact h.turns (es' ++ rest)
    have hframed : ∀ m ∈ ts.map (·.record), wellFramed m = true := by
      rintro _ hmem
      obtain ⟨t, ht, rfl⟩ := List.mem_map.mp hmem
      rw [← hturns] at ht
      exact (turns_exec ht).1
    rw [List.map_append, List.map_singleton, turns_concat hframed, hturns, List.nil_append,
      h.events, h.state, HyperIoVm.turns, if_pos hm, hexec rest]
    rfl
  · rw [turnEvents_append, h.events, turnEvents_cons, turnEvents_nil, List.append_nil]
  · rw [endState, List.foldl_append]
    rfl

/-- The replies of turns, as they are written. -/
def repliesOf (ts : List Turn) : List Bytes := ts.map (·.served.response.written)

/-- The mailbox after the turns `ts`: the records served are the ones posted, in order, and the
replies sent are theirs. The last reply may not be sent; and one record more may be consumed by a
service that ends without serving it. -/
structure InOrder (posted : Posted) (ts : List Turn) (ledger : ControlLedger) (ending : ServeEnd) :
    Prop where
  records : ts.map (·.record) = (List.range ts.length).map posted.record
  exchanged : ledger.consumed = ts.length ∧
      (ledger.sent = repliesOf ts ∨ ledger.sent = (repliesOf ts).dropLast) ∨
    ledger.consumed = ts.length + 1 ∧ ledger.sent = repliesOf ts ∧ ending ≠ .waiting

/-- The mailbox between two records. -/
structure Between (posted : Posted) (ts : List Turn) (k : ControlLedger) : Prop where
  unlocked : k.locked = false
  records : ts.map (·.record) = (List.range ts.length).map posted.record
  consumed : k.consumed = ts.length
  sent : k.sent = repliesOf ts

theorem Between.inOrder {ts : List Turn} (h : Between posted ts k) (ending : ServeEnd) :
    InOrder posted ts k ending := ⟨h.records, .inl ⟨h.consumed, .inl h.sent⟩⟩

/-- Whatever a read was answered, what was served is in order. -/
theorem Between.read {ts : List Turn} {size : Transfer Bytes} {k' : ControlLedger}
    {ending : ServeEnd} (h : Between posted ts k) (hread : ReadSpec posted hyperIoRecord k size k')
    (hending : size = .waiting ∨ ending ≠ .waiting) : InOrder posted ts k' ending := by
  have hsent : k'.sent = repliesOf ts := hread.sent.trans h.sent
  refine ⟨h.records, ?_⟩
  cases size with
  | done m =>
    refine .inr ⟨?_, hsent, hending.resolve_left (by rintro ⟨⟩)⟩
    rw [(hread.done m rfl).2.2, h.consumed]
  | failed e => exact .inl ⟨(hread.other (by rintro _ ⟨⟩)).trans h.consumed, .inl hsent⟩
  | waiting => exact .inl ⟨(hread.other (by rintro _ ⟨⟩)).trans h.consumed, .inl hsent⟩

/-- A turn that serves the record which was read, and whatever became of its reply. -/
theorem Between.write {ts : List Turn} {t : Turn} {k' k'' : ControlLedger}
    {written : Transfer Nat} (h : Between posted ts k)
    (hread : ReadSpec posted hyperIoRecord k (.done t.record) k')
    (hwrite : WriteSpec t.served.response.written k' written k'') :
    (∀ ending, InOrder posted (ts ++ [t]) k'' ending) ∧
      ∀ n, written = .done n → Between posted (ts ++ [t]) k'' := by
  obtain ⟨hrecord, -, hconsumed⟩ := hread.done _ rfl
  have hreplies : repliesOf (ts ++ [t]) = k'.sent ++ [t.served.response.written] := by
    rw [hread.sent, h.sent, repliesOf, List.map_append]
    rfl
  have hlast : (repliesOf (ts ++ [t])).dropLast = k'.sent := by
    rw [hreplies, List.dropLast_concat]
  have hcount : k''.consumed = (ts ++ [t]).length := by
    rw [hwrite.consumed, hconsumed, h.consumed, List.length_append, List.length_singleton]
  have hrecords : (ts ++ [t]).map (·.record) =
      (List.range (ts ++ [t]).length).map posted.record := by
    rw [List.length_append, List.length_singleton, List.range_succ, List.map_append,
      List.map_append, h.records, ← h.consumed]
    exact congrArg (fun m => (List.range k.consumed).map posted.record ++ [m]) hrecord
  have hdone : ∀ n, written = .done n → k''.sent = repliesOf (ts ++ [t]) := fun n hn => by
    rw [(hwrite.done n hn).2, hreplies]
  refine ⟨fun ending => ⟨hrecords, .inl ⟨hcount, ?_⟩⟩, fun n hn => ?_⟩
  · by_cases hreturned : ∃ n, written = .done n
    · obtain ⟨n, hn⟩ := hreturned
      exact .inl (hdone n hn)
    · rcases hwrite.other fun n hn => hreturned ⟨n, hn⟩ with hsent | ⟨-, hsent, -⟩
      · exact .inr (hsent.trans hlast.symm)
      · exact .inl (hsent.trans hreplies.symm)
  · exact ⟨hwrite.locked (by rw [hn]; rintro ⟨⟩), hrecords, hcount, hdone n hn⟩

/-- The loop keeps what was served in order. -/
theorem serveControl_wp (rounds records : Nat) {s₀ s : Serving} {ts : List Turn}
    {es : List (Event Sys)} (haligned : Aligned s₀ ts es s) (h : Between posted ts k) :
    (serveControl rounds records s).wp (mailbox posted).beside (fun r after =>
      ∃ ts, Aligned s₀ ts after.1 r.2 ∧ InOrder posted ts after.2 r.1) (es, k) := by
  induction records generalizing s ts es k with
  | zero => exact ⟨ts, haligned, h.inOrder _⟩
  | succ records ih =>
    rw [serveControl, wp_bind, wp_right]
    refine ⟨trivial, fun (stopping : Bool) _ => ?_⟩
    show Program.wp _ (if stopping = true then _ else _) _ (es, k)
    split
    · exact ⟨ts, haligned, h.inOrder _⟩
    rw [wp_bind, wp_right]
    refine wp_mono (readRecord_wp h.unlocked rounds rounds hyperIoRecord) fun size k' hread => ?_
    split
    next hwaiting =>
      exact ⟨ts, haligned, h.read hread (.inl hwaiting)⟩
    rw [wp_bind, wp_right]
    refine ⟨trivial, fun (stopping : Bool) _ => ?_⟩
    show Program.wp _ (if stopping = true ∨ size = .failed .pipe then _ else _) _ (es, k')
    split
    · exact ⟨ts, haligned, h.read hread (.inr (by rintro ⟨⟩))⟩
    cases size with
    | failed e => exact ⟨ts, haligned, h.read hread (.inr (by rintro ⟨⟩))⟩
    | waiting => exact ⟨ts, haligned, h.read hread (.inl rfl)⟩
    | done m =>
      show Program.wp _ (if (!wellFramed m) = true then _ else _) _ (es, k')
      split
      · exact ⟨ts, haligned, h.read hread (.inr (by rintro ⟨⟩))⟩
      rename_i hframed
      rw [Bool.not_eq_true', Bool.not_eq_false] at hframed
      rw [wp_bind]
      refine wp_mono (wp_left (I := Sys) Call.refused) fun r after hleft => ?_
      obtain ⟨served, s'⟩ := r
      obtain ⟨es', rfl, hexec⟩ := hleft
      have haligned' := haligned.serve hframed hexec
      show Program.wp _ ((retried _ rounds).right >>= _) _ (es ++ es', k')
      rw [wp_bind, wp_right]
      have hunlocked : k'.locked = false := hread.locked (by rintro ⟨⟩)
      refine wp_mono (writeReply_wp hunlocked rounds rounds _) fun written k'' hwrite => ?_
      obtain ⟨horder, hbetween⟩ := h.write (t := ⟨s, m, served, es', s'⟩) hread hwrite
      split
      · exact ⟨_, haligned', horder _⟩
      rw [wp_bind, wp_right]
      refine ⟨trivial, fun (stopping : Bool) _ => ?_⟩
      show Program.wp _ (if stopping = true ∨ written = .failed .pipe then _ else _) _
        (es ++ es', k'')
      split
      · exact ⟨_, haligned', horder _⟩
      show Program.wp _ (if written ≠ .done served.response.header.length.toNat then _ else _) _
        (es ++ es', k'')
      split
      next => exact ⟨_, haligned', horder _⟩
      next hwritten =>
        exact ih haligned' (hbetween _ (not_not.mp hwritten))

/-! ## Runs -/

/-- The service on its mailbox, from the start, in an environment. -/
def mailboxRun (rounds records : Nat) (s₀ : Serving) (env : Environment (Sys.sum Control)) :
    (ServeEnd × Serving) × List (Event (Sys.sum Control)) :=
  (serveControl rounds records s₀).exec env []

/-- Records and replies cross the mailbox in order and once. Whatever the system calls answer,
however the calls on the mailbox are interrupted or fail and wherever the service stops, what it did
are the turns of the first records that the owner posted, each served once, with no other system
call; and the replies that the device took are the replies of these turns, in their order, with the
last one missing at most. -/
theorem served_once_in_order (posted : Posted) (rounds records : Nat) (s₀ : Serving)
    (env : Environment (Sys.sum Control)) :
    let run := mailboxRun rounds records s₀ env
    let later := (mailbox posted).beside.after ([], {}) run.2
    (mailbox posted).beside.Assumed ([], {}) run.2 →
      (mailbox posted).beside.Obeyed ([], {}) run.2 ∧ ∃ env' : Environment Sys, ∃ count,
        let ts := turns env' [] s₀ ((List.range count).map posted.record)
        ts.length = count ∧ turnEvents ts = later.1 ∧ endState s₀ ts = run.1.2 ∧
          InOrder posted ts later.2 run.1.1 := by
  intro run later hassumed
  have hstart : Between posted [] {} := ⟨rfl, rfl, rfl, rfl⟩
  obtain ⟨hobeyed, ts, haligned, horder⟩ := Program.wp_exec env []
    (serveControl_wp rounds records (.start s₀) hstart) hassumed
  refine ⟨hobeyed, Environment.replay Call.refused later.1, ts.length, ?_⟩
  have hturns := haligned.turns []
  rw [List.append_nil, horder.records] at hturns
  show (turns _ [] s₀ _).length = ts.length ∧ _
  rw [show turns (Environment.replay Call.refused later.1) [] s₀
    ((List.range ts.length).map posted.record) = ts from hturns]
  exact ⟨rfl, haligned.events, haligned.state, horder⟩

end Serving

/-- The owner posts `BLOCK_HELLO`, each with a transaction of its own. -/
def helloPosted : Posted where
  record i := Header.encode ⟨hyperIoMagic, hyperIoVersion, 11, 40, 0, 1, 1, .ofNat (i + 1)⟩
  sequence i := .ofNat i

/-- The owner's service, on a Linux that refuses every call. -/
def helloSetup : Setup where
  memoryPath := "/dev/hyper-memory-0"
  role := .owner fun _ => false

/-- Linux beside a mailbox that always has a record and space. -/
def readyHost (posted : Posted) : Environment (Sys.sum Control) := fun past c =>
  match c with
  | .inl c => Call.refused c
  | .inr c => readyReply posted ((mailbox posted).beside.after ([], {}) past).2 c

theorem served_once_in_order_hello :
    let run := mailboxRun 1 2 helloSetup.serving (readyHost helloPosted)
    let later := (mailbox helloPosted).beside.after ([], {}) run.2
    ∃ env' : Environment Sys, ∃ count,
      let ts := turns env' [] helloSetup.serving ((List.range count).map helloPosted.record)
      ts.length = count ∧ InOrder helloPosted ts later.2 run.1.1 := by
  intro run later
  have hsize : ∀ i, (helloPosted.record i).length < 2 ^ 32 := fun _ =>
    lt_of_eq_of_lt (Header.length_encode _) (by decide)
  have hready : (mailbox helloPosted).beside.Assumed ([], {}) run.2 := by
    refine exec_assumed (C := (mailbox helloPosted).beside) (k := ([], {})) (fun past c => ?_) _ []
    cases c with
    | inl c => exact trivial
    | inr c => exact readyReply_assumed hsize _ c
  obtain ⟨-, env', count, hcount, -, -, horder⟩ :=
    served_once_in_order helloPosted 1 2 helloSetup.serving (readyHost helloPosted) hready
  exact ⟨env', count, hcount, horder⟩

/-- Both records are consumed, and the device has both replies. -/
example : (((mailbox helloPosted).beside.after ([], {})
    (mailboxRun 1 2 helloSetup.serving (readyHost helloPosted)).2).2.consumed,
    ((mailbox helloPosted).beside.after ([], {})
      (mailboxRun 1 2 helloSetup.serving (readyHost helloPosted)).2).2.sent.length) = (2, 2) := by
  decide +kernel

end HyperIoVm
