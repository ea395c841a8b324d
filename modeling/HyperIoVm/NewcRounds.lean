import HyperIoVm.NewcForm

/-!
# The rounds of `parse_newc`

A round of the loop raises, returns, or goes on behind its record. The sizes of a record are signed,
so the loop may come back to where it was, or to an offset before it; what makes it end is that a
round that goes on adds a name, and that there are only so many.
-/

namespace HyperIoVm

open Data

/-! ## A round -/

/-- What a round does when it does not raise. -/
inductive NewcRound where
  | returns (entries : Archive)
  | goesOn (next : Int) (entries : Archive)
  deriving DecidableEq

/-- What comes after a round. -/
def NewcRound.resume (rest : Int → Archive → Option Archive) : NewcRound → Option Archive
  | .returns entries => some entries
  | .goesOn next entries => rest next entries

/-- The body of the loop of `parse_newc`. -/
def parseRound (data : Bytes) (offset : Int) (entries : Archive) : Option NewcRound := do
  let (header, name, contents, next) ← parseRecord data offset
  if name = trailerName then
    if header.size ≠ 0 ∨ (sliceFrom data next).any (· ≠ 0) ∨ !validateTree entries then none
    else some (.returns entries)
  else do
    let entry ← parseEntry header name contents
    if (entries.lookup name).isSome ∨ entries.length ≥ maxEntries then none
    else some (.goesOn next (entries ++ [(name, entry)]))

/-- The loop comes to its round number `n`, which begins at `offset`. -/
inductive ReachesRound (data : Bytes) : (n : Nat) → (offset : Int) → Archive → Prop where
  | first : ReachesRound data 0 0 []
  | next {n : Nat} {offset next : Int} {entries entries' : Archive} :
    ReachesRound data n offset entries → offset + 110 ≤ data.length →
      parseRound data offset entries = some (.goesOn next entries') →
        ReachesRound data (n + 1) next entries'

/-- The loop ends at `offset` with a result: it has left, or its round raises or returns. -/
inductive EndsRound (data : Bytes) (offset : Int) (entries : Archive) : Option Archive → Prop where
  | leaves : offset + 110 > data.length → EndsRound data offset entries none
  | raises : offset + 110 ≤ data.length → parseRound data offset entries = none →
    EndsRound data offset entries none
  | returns {result : Archive} : offset + 110 ≤ data.length →
    parseRound data offset entries = some (.returns result) →
      EndsRound data offset entries (some result)

section Rounds

variable {data : Bytes} {rounds n : Nat} {offset next : Int} {entries entries' result : Archive}

/-- A round that goes on adds a new name. -/
theorem parseRound_goesOn (h : parseRound data offset entries = some (.goesOn next entries')) :
    ∃ header name contents entry, parseRecord data offset = some (header, name, contents, next) ∧
      name ≠ trailerName ∧ parseEntry header name contents = some entry ∧
        entries.lookup name = none ∧ entries.length < maxEntries ∧
          entries' = entries ++ [(name, entry)] := by
  obtain ⟨⟨header, name, contents, next'⟩, hrecord, h⟩ := Option.bind_eq_some_iff.mp h
  dsimp only at h
  split at h
  next =>
    split at h
    · cases h
    · exact NewcRound.noConfusion (Option.some_inj.mp h)
  next hname =>
    obtain ⟨entry, hentry, h⟩ := Option.bind_eq_some_iff.mp h
    split at h
    next => cases h
    next hnew =>
      rw [not_or, Bool.not_eq_true, Option.isSome_eq_false_iff, Option.isNone_iff_eq_none,
        ge_iff_le, Nat.not_le] at hnew
      obtain ⟨rfl, rfl⟩ := NewcRound.goesOn.inj (Option.some_inj.mp h)
      exact ⟨header, name, contents, entry, hrecord, hname, hentry, hnew.1, hnew.2, rfl⟩

/-- A round returns at the trailer. -/
theorem parseRound_returns (h : parseRound data offset entries = some (.returns result)) :
    ∃ header contents next, parseRecord data offset = some (header, trailerName, contents, next) ∧
      header.size = 0 ∧ (∀ b ∈ sliceFrom data next, b = 0) ∧ result = entries := by
  obtain ⟨⟨header, name, contents, next⟩, hrecord, h⟩ := Option.bind_eq_some_iff.mp h
  dsimp only at h
  split at h
  next hname =>
    split at h
    next => cases h
    next hend =>
      simp only [not_or, ne_eq, Decidable.not_not, Bool.not_eq_true, List.any_eq_false,
        decide_eq_true_eq] at hend
      obtain rfl := NewcRound.returns.inj (Option.some_inj.mp h)
      subst hname
      exact ⟨header, contents, next, hrecord, hend.1, hend.2.1, rfl⟩
  next =>
    obtain ⟨entry, -, h⟩ := Option.bind_eq_some_iff.mp h
    split at h
    · cases h
    · exact NewcRound.noConfusion (Option.some_inj.mp h)

/-- The loop is a round, and what comes after it. -/
theorem parseRounds_succ : parseRounds data (rounds + 1) offset entries =
    if offset + 110 > data.length then none
    else (parseRound data offset entries).bind (NewcRound.resume (parseRounds data rounds)) := by
  rw [parseRounds, parseRound]
  refine ite_congr rfl (fun _ => rfl) fun _ => ?_
  simp only [Option.bind_eq_bind, Option.bind_assoc]
  congr 1
  funext record
  obtain ⟨header, name, contents, next⟩ := record
  dsimp only
  split
  · split <;> rfl
  · rw [Option.bind_assoc]
    congr 1
    funext entry
    split <;> rfl

/-- Each round that the loop goes on from has added a name, so the loop does not go on for long. -/
theorem ReachesRound.length_eq (h : ReachesRound data n offset entries) :
    entries.length = n ∧ n ≤ maxEntries := by
  induction h with
  | first => exact ⟨rfl, Nat.zero_le _⟩
  | next _ _ hround ih =>
    obtain ⟨-, name, -, entry, -, -, -, -, hbound, rfl⟩ := parseRound_goesOn hround
    rw [List.length_append, List.length_singleton, ih.1]
    rw [ih.1] at hbound
    exact ⟨rfl, hbound⟩

/-- From a round that the loop comes to, it comes to the one it ends with. -/
theorem ReachesRound.ends (h : ReachesRound data n offset entries)
    (hrounds : maxEntries < n + rounds) : ∃ n' offset' entries',
      ReachesRound data n' offset' entries' ∧
        EndsRound data offset' entries' (parseRounds data rounds offset entries) := by
  induction rounds generalizing n offset entries with
  | zero =>
    have hbound := h.length_eq.2
    omega
  | succ rounds ih =>
    rw [parseRounds_succ]
    split
    next hroom =>
      exact ⟨n, offset, entries, h, .leaves hroom⟩
    rename_i hroom
    have hroom := Int.not_lt.mp hroom
    cases hround : parseRound data offset entries with
    | none => exact ⟨n, offset, entries, h, .raises hroom hround⟩
    | some round =>
      cases round with
      | returns result => exact ⟨n, offset, entries, h, .returns hroom hround⟩
      | goesOn next entries' => exact ih (h.next hroom hround) (by omega)

end Rounds

/-! ## Termination -/

/-- A header with a text in the place of its size, for a regular file. -/
def sizedHeader (size : String) : Bytes :=
  newcMagic ++ asciiBytes ("00000001" ++ "000081a4" ++ "00000000" ++ "00000000" ++ "00000001" ++
    "00000000" ++ size ++ "00000000" ++ "00000000" ++ "00000000" ++ "00000000" ++ "00000002" ++
      "00000000").toList

/-- A record of a file `a` whose size is given by a text. -/
def sizedRecord (size : String) : Bytes := sizedHeader size ++ asciiBytes ['a', '\x00']

/-- A size may bring the loop back to where it was, or to an offset before the archive. -/
theorem size_rewinds : ∃ entries,
    parseRound (sizedRecord "-0000070") 0 [] = some (.goesOn 0 entries) ∧
      parseRound (sizedRecord "-0000074") 0 [] = some (.goesOn (-4) entries) := by
  refine ⟨[("a", ⟨0o100644, 0, 0, 0, 0, []⟩)], ?_, ?_⟩ <;> decide +kernel

/-- `parse_newc` terminates. Although a round may stay where it is or go back, each round that goes
on adds one new name, so no more than `maxEntries` rounds go on; after these the loop ends, with the
result of `parse_newc`, and further rounds would change nothing. -/
theorem parseNewc_terminates (data : Bytes) :
    (∃ data entries entries', parseRound data 0 [] = some (.goesOn 0 entries) ∧
      ∃ data' next, parseRound data' 0 [] = some (.goesOn next entries') ∧ next < 0) ∧
    (∀ n offset entries, ReachesRound data n offset entries → n ≤ maxEntries ∧
      ∀ next entries', parseRound data offset entries = some (.goesOn next entries') →
        ∃ name entry, entries.lookup name = none ∧ entries' = entries ++ [(name, entry)]) ∧
    (∃ n offset entries, n ≤ maxEntries ∧ ReachesRound data n offset entries ∧
      EndsRound data offset entries (parseNewc data)) ∧
    ∀ more, parseRounds data (maxEntries + 1 + more) 0 [] = parseNewc data := by
  refine ⟨?_, fun n offset entries h => ⟨h.length_eq.2, fun next entries' hround => ?_⟩, ?_,
    fun more => ?_⟩
  · obtain ⟨entries, hstays, hback⟩ := size_rewinds
    exact ⟨_, entries, entries, hstays, _, -4, hback, by decide⟩
  · obtain ⟨-, name, -, entry, -, -, -, hnew, -, rfl⟩ := parseRound_goesOn hround
    exact ⟨name, entry, hnew, rfl⟩
  · obtain ⟨n, offset, entries, hreach, hends⟩ :=
      @ReachesRound.ends data (maxEntries + 1) 0 0 [] .first (by omega)
    exact ⟨n, offset, entries, hreach.length_eq.2, hreach, hends⟩
  · exact parseRounds_enough (Nat.zero_le _) (Nat.lt_succ_self _)

end HyperIoVm
