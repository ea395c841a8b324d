import HyperIoVm.Order

/-!
# Independence of the devices

The two devices of a client share a session, a transaction counter, the dispatch switch and
the guest memory. A record for one of them nevertheless leaves the other one, the memory and
the other epoch exactly as they were, whatever the record is answered and whichever calls
fail on the way.
-/

namespace HyperIoVm

open Effects

/-- Codes of the storage device: `HELLO`, `ACTIVATE`, `RESET` and `STOP_QUEUE`. -/
def Operation.isStorage : Operation → Bool
  | .hello | .activate | .reset | .stopQueue => true
  | _ => false

/-- The memory fields are unchanged. -/
structure Backend.SameMemory (b b' : Backend) : Prop where
  memory : b'.memory = b.memory
  memoryFd : b'.memoryFd = b.memoryFd
  region : b'.region = b.region
  token : b'.token = b.token

theorem Within.sameMemory {ps : List Part} {b b' : Backend} (h : Within ps b b')
    (hps : Part.memory ∉ ps) : b.SameMemory b' :=
  ⟨h.memory hps, h.memoryFd hps, h.region hps, h.token hps⟩

namespace Operation

theorem storage_not_touched {op : Operation} (h : op.isNetwork = true) (status : Status) :
    Part.storage ∉ op.touched status ∧ Part.memory ∉ op.touched status := by
  cases op <;> first
    | exact absurd h Bool.false_ne_true
    | simp [touched, parts, networkParts]

theorem network_not_touched {op : Operation} (h : op.isStorage = true) (status : Status) :
    Part.network ∉ op.touched status ∧ Part.tap ∉ op.touched status ∧
      Part.memory ∉ op.touched status := by
  cases op <;> first
    | exact absurd h Bool.false_ne_true
    | simp [touched, parts]

/-- The operations that may touch both devices. -/
theorem touches_both {op : Operation} {status : Status} (hs : Part.storage ∈ op.touched status)
    (hn : Part.network ∈ op.touched status ∨ Part.tap ∈ op.touched status) :
    op = .releaseMemory ∨ op = .prepareMemory ∧ status ≠ .ok := by
  unfold touched at hs hn
  split at hs
  next => simp at hs
  next hp =>
    rw [if_neg hp] at hn
    cases op with
    | releaseMemory => exact .inl rfl
    | prepareMemory => exact .inr ⟨rfl, fun hok => hp ⟨rfl, hok⟩⟩
    | _ => simp [parts, networkParts] at hs hn

end Operation

/-- What a round may touch, whether its record was executed or not. -/
theorem Round.within {s s' : Serving} {m : Bytes} {served : Served} (h : Round s m served s') :
    ∃ status : Status, Within ((operationOf m).touched status) s.backend s'.backend ∧
      (served.dispatched = true → served.response.status = status.code) ∧
      (served.dispatched = false → Within [] s.backend s'.backend) := by
  have hlogged : Within [] s.backend s.logged.backend :=
    (Within.diagnostic [] _).trans (.diagnostic [] _)
  cases h with
  | replayed _ => exact ⟨.ok, hlogged.mono (by simp), by simp, fun _ => hlogged⟩
  | rejected _ => exact ⟨.ok, hlogged.mono (by simp), by simp, fun _ => hlogged⟩
  | executed _ r b hb _ =>
    exact ⟨r.1.status, hb.trans (.diagnostic _ b), fun _ => rfl, by simp⟩

/-- Device independence. In every run, for every record that does not start a new binding: a
network operation leaves the storage endpoint, the memory and the storage epoch unchanged; a
storage operation leaves the network endpoint, the TAP, the memory and the network epoch
unchanged; and a record that changes both devices is a `RELEASE_MEMORY`, or a
`PREPARE_MEMORY` that was executed and failed. -/
theorem devices_independent (env : Environment Sys) (past : List (Event Sys)) (s : Serving)
    (ms : List Bytes) :
    (∀ t ∈ turns env past s ms, t.after.session.binding = t.before.session.binding →
      (operationOf t.record).isNetwork = true →
        t.after.backend.disk = t.before.backend.disk ∧
        t.before.backend.SameMemory t.after.backend ∧
        t.after.session.epoch 0 = t.before.session.epoch 0) ∧
    (∀ t ∈ turns env past s ms, t.after.session.binding = t.before.session.binding →
      (operationOf t.record).isStorage = true →
        t.after.backend.net = t.before.backend.net ∧
        t.after.backend.tap = t.before.backend.tap ∧
        t.before.backend.SameMemory t.after.backend ∧
        t.after.session.epoch 1 = t.before.session.epoch 1) ∧
    (∀ t ∈ turns env past s ms,
      t.after.backend.disk ≠ t.before.backend.disk →
      t.after.backend.net ≠ t.before.backend.net ∨ t.after.backend.tap ≠ t.before.backend.tap →
        operationOf t.record = .releaseMemory ∨
          operationOf t.record = .prepareMemory ∧ t.served.dispatched = true ∧
            t.served.response.status ≠ Status.ok.code) := by
  refine ⟨fun t ht hbinding hop => ?_, fun t ht hbinding hop => ?_, fun t ht hdisk hnet => ?_⟩
  all_goals
    have hround := (turns_round ht).2
    obtain ⟨status, hwithin, hstatus, hinert⟩ := hround.within
  · obtain ⟨hstorage, hmemory⟩ := Operation.storage_not_touched hop status
    refine ⟨hwithin.disk hstorage, hwithin.sameMemory hmemory, (hround.epoch hbinding).1 0 ?_⟩
    cases hcode : operationOf t.record <;> rw [hcode] at hop <;>
      first | exact absurd hop Bool.false_ne_true | simp [Backend.recordDevice, Operation.isNetwork]
  · obtain ⟨hnetwork, htap, hmemory⟩ := Operation.network_not_touched hop status
    refine ⟨hwithin.net hnetwork, hwithin.tap htap, hwithin.sameMemory hmemory,
      (hround.epoch hbinding).1 1 ?_⟩
    cases hcode : operationOf t.record <;> rw [hcode] at hop <;>
      first | exact absurd hop Bool.false_ne_true | simp [Backend.recordDevice, Operation.isNetwork]
  · have hs : Part.storage ∈ (operationOf t.record).touched status :=
      Decidable.not_not.mp fun h => hdisk (hwithin.disk h)
    have hn : Part.network ∈ (operationOf t.record).touched status ∨
        Part.tap ∈ (operationOf t.record).touched status :=
      hnet.imp (fun hn => Decidable.not_not.mp fun h => hn (hwithin.net h))
        fun ht => Decidable.not_not.mp fun h => ht (hwithin.tap h)
    refine (Operation.touches_both hs hn).imp_right fun htouched => ?_
    obtain ⟨hop, hfailed⟩ := htouched
    have hserved : t.served.dispatched = true := by
      by_contra h
      exact hdisk ((hinert (Bool.eq_false_iff.mpr h)).disk (by simp))
    refine ⟨hop, hserved, ?_⟩
    rw [hstatus hserved]
    exact fun h => hfailed (Status.code_injective h)

end HyperIoVm
