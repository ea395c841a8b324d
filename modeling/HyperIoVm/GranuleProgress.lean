import Mathlib.Algebra.Order.BigOperators.Group.Finset
import Mathlib.Algebra.GroupWithZero.Nat
import HyperIoVm.GranuleQueue
import HyperIoVm.GranuleSafety

/-!
# A put comes to its end (`modules/guest-memory/granules.c`)

A `hyper_granules_put` waits for the queue only. The queue may have the work of other callers before
it, and may run one callback at a time; but it has no more to do than what has been detached. So the
put returns without the help of any other caller, after a number of steps that its array and the
queue bound; and when every caller is through, nothing is claimed and nothing is allocated.
-/

namespace HyperIoVm

open Data GranuleRegistry

variable {ι : Type} [DecidableEq ι] [Fintype ι] {s s' : GranuleRegistry ι} {c : ι}
  {put put' : GranulesPut} {granule : GranulePtr} {g : Granule} {w : RetireWork}

/-! ## What is left to do -/

/-- The steps of the queue until the work has run. -/
def RetireWork.left (w : RetireWork) : Nat :=
  if w.pending then 3
  else
    match w.callback with
    | .unmapping => 2
    | .releasing => 1
    | .notRun | .ran => 0

/-- A bound for the steps of the caller until the round is over, with those that the queue gets. -/
def PutStage.left : PutStage → Nat
  | .detach entries => 10 * entries.length + 1
  | .queueWork queued unqueued => 6 * unqueued.length + 2 * queued.length + 3
  | .flushWork unflushed => 2 * unflushed.length + 2
  | .free _ unflushed => 2 * unflushed.length + 3

/-- A bound until the put returns. -/
def GranulesPut.left (put : GranulesPut) : Nat := 10 * put.rest.length + put.stage.left

namespace GranuleRegistry

def workLeft (s : GranuleRegistry ι) (granule : GranulePtr) : Nat :=
  (s.work granule).elim 0 RetireWork.left

/-- The steps of the queue for what the caller has detached. -/
def detachedLeft (s : GranuleRegistry ι) (c : ι) : Nat :=
  ((s.callers c).stage.detached.map s.workLeft).sum

/-- The steps of the queue until it has nothing to do. -/
def queueLeft (s : GranuleRegistry ι) : Nat := ∑ c, s.detachedLeft c

/-- A bound for the steps of the caller and the queue until both are done. -/
def left (s : GranuleRegistry ι) (c : ι) : Nat :=
  (s.callers c).put.elim 0 GranulesPut.left + s.queueLeft

end GranuleRegistry

omit [DecidableEq ι] [Fintype ι] in
/-- What is left of a put is bounded by the length of its array. -/
theorem left_le : put.left ≤ 10 * put.owned.length + 3 := by
  unfold GranulesPut.left GranulesPut.owned
  rw [List.length_append, List.length_append, List.length_map]
  cases put.stage with
  | detach entries =>
    simp only [PutStage.left, PutStage.entries]
    omega
  | queueWork queued unqueued =>
    simp only [PutStage.left, PutStage.entries, List.length_append]
    omega
  | flushWork unflushed =>
    simp only [PutStage.left, PutStage.entries]
    omega
  | free granule unflushed =>
    simp only [PutStage.left, PutStage.entries, List.length_cons]
    omega

namespace GranuleRegistry

/-! ## What the queue has left -/

section Queue

omit [DecidableEq ι] [Fintype ι]

theorem workLeft_congr (h : s'.work granule = s.work granule) :
    s'.workLeft granule = s.workLeft granule := congrArg (·.elim 0 RetireWork.left) h

theorem workLeft_of_work (hw : s.work granule = some w) : s.workLeft granule = w.left :=
  congrArg (·.elim 0 RetireWork.left) hw

theorem left_le_three (w : RetireWork) : w.left ≤ 3 := by
  unfold RetireWork.left
  split
  · exact Nat.le_refl 3
  · split <;> omega

/-- A caller has left what it had when its granules are the same, and their work. -/
theorem detachedLeft_congr (hdetached : (s'.callers c).stage.detached =
      (s.callers c).stage.detached)
    (hwork : ∀ granule ∈ (s.callers c).stage.detached, s'.work granule = s.work granule) :
    s'.detachedLeft c = s.detachedLeft c := by
  unfold detachedLeft
  rw [hdetached]
  exact congrArg List.sum (List.map_congr_left fun granule hmem =>
    workLeft_congr (hwork granule hmem))

/-- A sum changes with one of its terms by no more than that term. -/
theorem sum_map_le_add {f f' : GranulePtr → Nat} {n : Nat} {granules : List GranulePtr}
    (hnodup : granules.Nodup) (hothers : ∀ other ≠ granule, f' other = f other)
    (hself : f' granule ≤ f granule + n) :
    (granules.map f').sum ≤ (granules.map f).sum + n := by
  induction granules with
  | nil => exact Nat.zero_le _
  | cons other granules ih =>
    obtain ⟨hnot, hnodup⟩ := List.nodup_cons.mp hnodup
    rw [List.map_cons, List.map_cons, List.sum_cons, List.sum_cons]
    by_cases hne : other = granule
    · have hrest : granules.map f' = granules.map f :=
        List.map_congr_left fun other' hmem => hothers other' fun heq =>
          hnot (hne.trans heq.symm ▸ hmem)
      rw [hrest, hne]
      omega
    · have hrest := ih hnodup
      rw [hothers other hne]
      omega

end Queue

/-- The queue gets what one caller gives it. -/
theorem queueLeft_le_add {n : Nat} (hothers : ∀ c' ≠ c, s'.detachedLeft c' = s.detachedLeft c')
    (hself : s'.detachedLeft c ≤ s.detachedLeft c + n) : s'.queueLeft ≤ s.queueLeft + n := by
  unfold queueLeft
  rw [← Finset.add_sum_erase Finset.univ _ (Finset.mem_univ c),
    ← Finset.add_sum_erase Finset.univ s.detachedLeft (Finset.mem_univ c)]
  have hrest : ∑ c' ∈ Finset.univ.erase c, s'.detachedLeft c' =
      ∑ c' ∈ Finset.univ.erase c, s.detachedLeft c' :=
    Finset.sum_congr rfl fun c' hc' => hothers c' (Finset.ne_of_mem_erase hc')
  rw [hrest]
  omega

/-- Only the caller has changed, and the work of a granule that it has detached. -/
theorem Consistent.queueLeft_le (h : s.Consistent) {n : Nat}
    (hmem : granule ∈ (s.callers c).stage.detached)
    (hcallers : ∀ c' ≠ c, s'.callers c' = s.callers c')
    (hwork : ∀ other ≠ granule, s'.work other = s.work other)
    (hself : s'.detachedLeft c ≤ s.detachedLeft c + n) : s'.queueLeft ≤ s.queueLeft + n := by
  refine queueLeft_le_add (fun c' hc' => ?_) hself
  refine detachedLeft_congr (by rw [hcallers c' hc']) fun other hother => hwork other ?_
  rintro rfl
  exact hc' (h.apart c' c other hother hmem)

omit [DecidableEq ι] [Fintype ι] in
theorem Beside.detachedLeft (hbeside : Beside c s s') {c' : ι} (hc' : c' ≠ c) :
    s'.detachedLeft c' = s.detachedLeft c' :=
  detachedLeft_congr (by rw [hbeside.callers c' hc']) fun granule _ => hbeside.work granule

/-! ## Steps of the caller -/

omit [DecidableEq ι] in
theorem left_of_put (hput : (s.callers c).put = some put) :
    s.left c = put.left + s.queueLeft := by
  unfold GranuleRegistry.left
  rw [hput]
  rfl

omit [DecidableEq ι] in
/-- The caller has less to do, also with what it gives to the queue. -/
theorem left_lt {n : Nat} (hput : (s.callers c).put = some put)
    (hput' : (s'.callers c).put = some put') (hqueue : s'.queueLeft ≤ s.queueLeft + n)
    (hless : put'.left + n < put.left) : s'.left c < s.left c := by
  rw [left_of_put hput, left_of_put hput']
  omega

/-- A stage with the same granules. -/
theorem left_setPut (hput : (s.callers c).put = some put)
    (hdetached : put'.stage.detached = put.stage.detached) (hless : put'.left < put.left) :
    (s.setPut c put').left c < s.left c := by
  have hbeside := beside_setPut s c put'
  have hself : (s.setPut c put').detachedLeft c = s.detachedLeft c := by
    refine detachedLeft_congr ?_ fun granule _ => hbeside.work granule
    rw [setPut_callers_self, stage_of_put hput]
    exact hdetached
  refine left_lt (n := 0) hput (congrArg GranuleCaller.put (setPut_callers_self s c put')) ?_ hless
  exact queueLeft_le_add (fun c' hc' => hbeside.detachedLeft hc') (Nat.le_of_eq hself)

/-- The put returns. -/
theorem left_returned {caller : GranuleCaller} (hput : (s.callers c).put = some put)
    (hstage : put.stage = .detach []) (hcaller : caller.put = none) :
    (s.setCaller c caller).left c < s.left c := by
  have hself : (s.setCaller c caller).callers c = caller := Function.update_self ..
  have hqueue : (s.setCaller c caller).queueLeft ≤ s.queueLeft + 0 := by
    refine queueLeft_le_add (c := c)
      (fun c' hc' => (beside_setCaller s c caller).detachedLeft hc') ?_
    unfold detachedLeft GranuleCaller.stage
    rw [hself, hcaller]
    exact Nat.zero_le _
  rw [left_of_put hput]
  unfold GranuleRegistry.left
  rw [hself, hcaller]
  simp only [Option.elim, GranulesPut.left, hstage, PutStage.left]
  omega

/-- A round begins: what it has detached is not queued yet. -/
theorem Consistent.left_batch (h : s.Consistent) (hput : (s.callers c).put = some put)
    {entries : List (Option GranulePtr)} (hstage : put.stage = .detach entries)
    (hmore : ¬ (put.rest = [] ∧ entries = [])) : (s.detachBatch c put).left c < s.left c := by
  have hbatch := h.detachBatch hput hstage
  have hbeside := beside_detachBatch s c put
  obtain ⟨-, put₁, entries', hput₁, hstage₁, hlength, htotal⟩ :=
    h.detachGranules (min put.rest.length hyperGranuleRetireBatch) hput hstage
  have hput' : ((s.detachBatch c put).callers c).put =
      some { put₁ with stage := .queueWork [] put₁.stage.entries } := by
    unfold GranuleRegistry.detachBatch
    dsimp only
    rw [hput₁]
    exact congrArg GranuleCaller.put (setPut_callers_self _ c _)
  refine left_lt (n := 0) hput hput' ?_ ?_
  · -- what the round has detached is not queued yet
    refine queueLeft_le_add (fun c' hc' => hbeside.detachedLeft hc') ?_
    refine Nat.le_trans (Nat.le_of_eq ?_) (Nat.zero_le _)
    refine List.sum_eq_zero fun n hn => ?_
    obtain ⟨granule, hmem, rfl⟩ := List.mem_map.mp hn
    obtain ⟨-, g, hg, hmatches⟩ := hbatch.detached c granule hmem
    rw [stage_of_put hput'] at hmem hmatches
    rw [workLeft_of_work (work_of_heap hg), hmatches.unqueued hmem]
    rfl
  · simp only [GranulesPut.left, hstage, hstage₁, PutStage.left, PutStage.entries, List.length_nil]
    -- a round takes at least one entry, if there are any
    have hsome : put.rest.length ≠ 0 ∨ entries.length ≠ 0 := by
      by_contra hnone
      rw [not_or, not_not, not_not] at hnone
      exact hmore ⟨List.length_eq_zero_iff.mp hnone.1, List.length_eq_zero_iff.mp hnone.2⟩
    have hlimit : hyperGranuleRetireBatch = 32 := rfl
    omega

/-- The caller gives the queue a callback. -/
theorem Consistent.left_queue (h : s.Consistent) (hput : (s.callers c).put = some put)
    {queued unqueued : List (Option GranulePtr)}
    (hstage : put.stage = .queueWork queued (some granule :: unqueued)) :
    ((s.queueWork granule).setPut c
      { put with stage := .queueWork (queued ++ [some granule]) unqueued }).left c < s.left c := by
  obtain ⟨g, hg, -⟩ := h.unqueued hput hstage
  have hmem : granule ∈ (s.callers c).stage.detached := by
    rw [stage_of_put hput, hstage]
    show granule ∈ (queued ++ some granule :: unqueued).reduceOption
    rw [List.reduceOption_append]
    exact List.mem_append_right _ (List.reduceOption_mem_iff.mpr List.mem_cons_self)
  have hbeside := beside_setPut (s.queueWork granule) c
    { put with stage := .queueWork (queued ++ [some granule]) unqueued }
  have hothers (other : GranulePtr) (hne : other ≠ granule) :
      ((s.queueWork granule).setPut c { put with
        stage := .queueWork (queued ++ [some granule]) unqueued }).work other = s.work other := by
    rw [hbeside.work, work_queueWork hg, if_neg hne]
  refine left_lt (n := 3) hput (congrArg GranuleCaller.put (setPut_callers_self _ c _)) ?_ ?_
  · -- the queue gets no more than the three steps of this callback
    refine h.queueLeft_le hmem (fun c' hc' => ?_) hothers ?_
    · rw [hbeside.callers c' hc', callers_queueWork]
    · unfold detachedLeft
      have hdetached : (PutStage.queueWork (queued ++ [some granule]) unqueued).detached =
          (s.callers c).stage.detached := by
        rw [stage_of_put hput, hstage]
        simp [PutStage.detached, PutStage.entries]
      rw [setPut_callers_self]
      show ((PutStage.queueWork (queued ++ [some granule]) unqueued).detached.map _).sum ≤ _
      rw [hdetached]
      refine sum_map_le_add (h.nodup c) (fun other hne => workLeft_congr (hothers other hne)) ?_
      refine Nat.le_trans ?_ (Nat.le_add_left 3 _)
      unfold workLeft
      rw [hbeside.work, work_queueWork hg, if_pos rfl]
      exact left_le_three _
  · -- the caller had counted them as its own
    simp only [GranulesPut.left, hstage, PutStage.left, List.length_append, List.length_cons,
      List.length_nil]
    omega

/-- The caller frees what has run. -/
theorem Consistent.left_free (h : s.Consistent) (hput : (s.callers c).put = some put)
    {unflushed : List (Option GranulePtr)} (hstage : put.stage = .free granule unflushed) :
    ((s.kfree granule).setPut c { put with
      passed := put.passed ++ [none], stage := .flushWork unflushed }).left c < s.left c := by
  obtain ⟨g, hg, hpending, hran⟩ := h.flushed hput hstage
  have hidle : g.work.idle = true := by simp [RetireWork.idle, hpending, hran]
  have hdetached : (s.callers c).stage.detached = granule :: unflushed.reduceOption := by
    rw [stage_of_put hput, hstage]
    rfl
  have hbeside := beside_setPut (s.kfree granule) c
    { put with passed := put.passed ++ [none], stage := .flushWork unflushed }
  have hothers (other : GranulePtr) (hne : other ≠ granule) :
      ((s.kfree granule).setPut c { put with
        passed := put.passed ++ [none], stage := .flushWork unflushed }).work other =
          s.work other := by
    rw [hbeside.work, work_kfree hg hidle, if_neg hne]
  have hmem : granule ∈ (s.callers c).stage.detached := by
    rw [hdetached]
    exact List.mem_cons_self
  refine left_lt (n := 0) hput (congrArg GranuleCaller.put (setPut_callers_self _ c _)) ?_ ?_
  · -- what is freed had run, so the queue has lost nothing
    refine h.queueLeft_le hmem (fun c' hc' => ?_) hothers ?_
    · rw [hbeside.callers c' hc', callers_kfree]
    · unfold detachedLeft
      have hnodup := h.nodup c
      rw [hdetached] at hnodup ⊢
      rw [setPut_callers_self]
      show (unflushed.reduceOption.map _).sum ≤ _
      have hsame : unflushed.reduceOption.map ((s.kfree granule).setPut c { put with
          passed := put.passed ++ [none], stage := .flushWork unflushed }).workLeft =
          unflushed.reduceOption.map s.workLeft :=
        List.map_congr_left fun other hmem => workLeft_congr (hothers other fun heq =>
          (List.nodup_cons.mp hnodup).1 (heq ▸ hmem))
      rw [hsame, List.map_cons, List.sum_cons]
      omega
  · simp only [GranulesPut.left, hstage, PutStage.left]
    omega

/-- Every step of the caller leaves less to do. -/
theorem Consistent.left_advance (h : s.Consistent) (hput : (s.callers c).put = some put)
    (hs' : s.advance c put = some s') : s'.left c < s.left c := by
  cases h.advances hput hs' with
  | returned hstage _ => exact left_returned hput hstage rfl
  | batch hstage hmore => exact h.left_batch hput hstage hmore
  | queue hstage => exact h.left_queue hput hstage
  | free hstage => exact h.left_free hput hstage
  | allQueued hstage =>
    refine left_setPut hput ?_ ?_
    · rw [hstage]
      exact congrArg List.reduceOption (List.append_nil _).symm
    · simp only [GranulesPut.left, hstage, PutStage.left, List.length_nil]
      omega
  | skipQueue hstage =>
    refine left_setPut hput ?_ ?_
    · rw [hstage]
      simp [PutStage.detached, PutStage.entries]
    · simp only [GranulesPut.left, hstage, PutStage.left, List.length_append, List.length_cons,
        List.length_nil]
      omega
  | allFlushed hstage =>
    refine left_setPut hput (by rw [hstage]; rfl) ?_
    simp only [GranulesPut.left, hstage, PutStage.left, List.length_nil]
    omega
  | skipFlush hstage =>
    refine left_setPut hput (by rw [hstage]; rfl) ?_
    simp only [GranulesPut.left, hstage, PutStage.left, List.length_cons]
    omega
  | flush hstage _ _ =>
    refine left_setPut hput (by rw [hstage]; rfl) ?_
    simp only [GranulesPut.left, hstage, PutStage.left, List.length_cons]
    omega

/-! ## Steps of the queue -/

omit [DecidableEq ι] in
/-- The queue goes on with the work of a granule, which somebody waits for. -/
theorem Consistent.left_work (h : s.Consistent) (hg : s.heap granule = some g)
    (hqueued : g.work ≠ {}) (hcallers : s'.callers = s.callers)
    (hwork : ∀ other, s'.work other = if other = granule then some w else s.work other)
    (hless : w.left < g.work.left) : s'.left c < s.left c := by
  have hself : s'.workLeft granule < s.workLeft granule := by
    rw [workLeft_of_work ((hwork granule).trans (if_pos rfl)), workLeft_of_work (work_of_heap hg)]
    exact hless
  have hmono (other : GranulePtr) : s'.workLeft other ≤ s.workLeft other := by
    by_cases hne : other = granule
    · rw [hne]
      exact Nat.le_of_lt hself
    · exact Nat.le_of_eq (workLeft_congr ((hwork other).trans (if_neg hne)))
  have hqueue : s'.queueLeft < s.queueLeft := by
    rcases h.placed granule g hg with ⟨index, hindex⟩ | ⟨c', hmem⟩
    · obtain ⟨g', hg', -, -, -, -, hfresh⟩ := h.registered index granule hindex
      obtain rfl := Option.some_inj.mp (hg'.symm.trans hg)
      exact absurd hfresh hqueued
    refine Finset.sum_lt_sum (fun c₁ _ => ?_) ⟨c', Finset.mem_univ c', ?_⟩
    · unfold detachedLeft
      rw [hcallers]
      exact List.sum_le_sum fun other _ => hmono other
    · unfold detachedLeft
      rw [hcallers]
      exact List.sum_lt_sum _ _ (fun other _ => hmono other) ⟨granule, hmem, hself⟩
  unfold GranuleRegistry.left
  rw [hcallers]
  omega

omit [DecidableEq ι] in
theorem Consistent.left_startWork (h : s.Consistent) (hs' : s.startWork granule = some s') :
    s'.left c < s.left c := by
  obtain ⟨g, hg, -, hpending, -, rfl⟩ := startWork_eq_some hs'
  refine h.left_work hg (fun heq => ?_) rfl (work_setGranule s granule · _) ?_
  · rw [heq] at hpending
    exact Bool.false_ne_true hpending
  · show 2 < g.work.left
    rw [RetireWork.left, if_pos hpending]
    exact Nat.lt_succ_self 2

omit [DecidableEq ι] in
theorem Consistent.left_granuleRetire (h : s.Consistent)
    (hs' : s.granuleRetire granule = some s') : s'.left c < s.left c := by
  obtain ⟨g, hg, hcases⟩ := granuleRetire_eq_some hs'
  have hcallback : g.work.callback ≠ .notRun := by
    rcases hcases with ⟨hcallback, -⟩ | ⟨hcallback, -⟩ <;> rw [hcallback] <;>
      exact RetireCallback.noConfusion
  have hqueued : g.work ≠ {} := fun heq => hcallback (congrArg RetireWork.callback heq)
  have hpending := h.running hg hcallback
  rcases hcases with ⟨hcallback, rfl⟩ | ⟨hcallback, rfl⟩
  · refine h.left_work hg hqueued rfl (work_setGranule _ granule · _) ?_
    simp [RetireWork.left, hpending, hcallback]
  · refine h.left_work hg hqueued rfl (work_setGranule _ granule · _) ?_
    simp [RetireWork.left, hpending, hcallback]

end GranuleRegistry

/-- A step of this caller, or of the queue. -/
def GranuleAction.Serves (c : ι) : GranuleAction ι → Prop
  | .advance c' => c' = c
  | .startWork _ | .granuleRetire _ => True
  | .get _ _ _ | .put _ _ => False

namespace GranuleRegistry

/-- Whatever the caller or the queue does leaves less to do. -/
theorem Consistent.left_step (h : s.Consistent) {a : GranuleAction ι} (hserves : a.Serves c)
    (hs' : s.step a = some s') : s'.left c < s.left c := by
  cases a with
  | get c' address answers => exact hserves.elim
  | put c' owned => exact hserves.elim
  | advance c' =>
    obtain rfl := hserves
    obtain ⟨put, hput, hs'⟩ := Option.bind_eq_some_iff.mp hs'
    exact h.left_advance hput hs'
  | startWork granule => exact h.left_startWork hs'
  | granuleRetire granule => exact h.left_granuleRetire hs'

/-- A run of the caller and the queue is no longer than what there was to do. -/
theorem Consistent.left_run (h : s.Consistent) {bs : List (GranuleAction ι)}
    (hserves : ∀ b ∈ bs, b.Serves c) (hs' : runSteps GranuleRegistry.step s bs = some s') :
    bs.length + s'.left c ≤ s.left c := by
  induction bs generalizing s with
  | nil =>
    obtain rfl := Option.some_inj.mp hs'
    exact Nat.le_of_eq (Nat.zero_add _)
  | cons b bs ih =>
    obtain ⟨s₁, hs₁, hs'⟩ := runSteps_cons.mp hs'
    have hfirst := h.left_step (hserves b List.mem_cons_self) hs₁
    have hrest := ih (h.step hs₁) (fun b' hb' => hserves b' (List.mem_cons_of_mem b hb')) hs'
    rw [List.length_cons]
    omega

/-! ## The next step -/

/-- The work of the granule waits in the queue. -/
def Pending (s : GranuleRegistry ι) (granule : GranulePtr) : Prop :=
  ∃ w, s.work granule = some w ∧ w.pending = true

/-- The caller can take its next step, or a callback that runs can; or none runs, and the queue can
take up whatever waits in it, which is not nothing. -/
def CanGoOn (s : GranuleRegistry ι) (c : ι) : Prop :=
  (s.step (.advance c)).isSome = true ∨
    (∃ granule ∈ s.active, (s.step (.granuleRetire granule)).isSome = true) ∨
      s.active = [] ∧ (∃ granule, s.Pending granule) ∧
        ∀ granule, s.Pending granule → (s.step (.startWork granule)).isSome = true

omit [DecidableEq ι] [Fintype ι] in
theorem heap_of_work (hw : s.work granule = some w) : ∃ g, s.heap granule = some g ∧ g.work = w :=
  Option.map_eq_some_iff.mp hw

/-- A caller takes its next step, unless it waits for a granule. -/
theorem Consistent.advance_or_waits (h : s.Consistent) (hput : (s.callers c).put = some put) :
    (s.step (.advance c)).isSome = true ∨
      ∃ granule g, s.heap granule = some g ∧ g.work.idle = false := by
  show ((s.callers c).put.bind (s.advance c)).isSome = true ∨ _
  rw [hput]
  show (s.advance c put).isSome = true ∨ _
  unfold GranuleRegistry.advance
  cases hstage : put.stage with
  -- it detaches a round, or returns
  | detach entries =>
    left
    dsimp only
    split
    · rfl
    · rfl
  -- it queues the next entry
  | queueWork queued unqueued =>
    left
    cases unqueued with
    | nil => rfl
    | cons entry unqueued =>
      cases entry with
      | none => rfl
      | some granule => rfl
  -- it waits for the next entry until that is idle
  | flushWork unflushed =>
    cases unflushed with
    | nil => exact Or.inl rfl
    | cons entry unflushed =>
      cases entry with
      | none => exact Or.inl rfl
      | some granule =>
        obtain ⟨g, hg, -⟩ := h.flush_heap hput hstage
        cases hidle : g.work.idle with
        | false => exact Or.inr ⟨granule, g, hg, hidle⟩
        | true =>
          left
          dsimp only
          unfold GranuleRegistry.flushWork
          rw [hg]
          dsimp only
          rw [if_pos hidle]
          rfl
  | free granule unflushed => exact Or.inl rfl

omit [Fintype ι] in
/-- What runs makes its next call. -/
theorem Working.retires (h : s.Working) (hmem : granule ∈ s.active) :
    (s.step (.granuleRetire granule)).isSome = true := by
  obtain ⟨w, hw, hcallback⟩ := (h.running granule).mp hmem
  obtain ⟨g, hg, rfl⟩ := heap_of_work hw
  show (s.granuleRetire granule).isSome = true
  unfold GranuleRegistry.granuleRetire
  rw [hg]
  dsimp only
  rcases hcallback with hcallback | hcallback
  · rw [hcallback]
    rfl
  · rw [hcallback]
    rfl

/-- What waits is taken up when nothing runs. -/
theorem Consistent.starts (h : s.Consistent) (hactive : s.active = [])
    (hpending : s.Pending granule) : (s.step (.startWork granule)).isSome = true := by
  obtain ⟨w, hw, hpending⟩ := hpending
  obtain ⟨g, hg, rfl⟩ := heap_of_work hw
  show (s.startWork granule).isSome = true
  unfold GranuleRegistry.startWork
  rw [hg]
  dsimp only
  rw [if_pos ⟨by rw [hactive]; decide, hpending, Or.inl (h.pending hg hpending)⟩]
  rfl

/-- From every state a caller in `hyper_granules_put` can go on, or the queue for it. -/
theorem Working.can_go_on (h : s.Working) (hconsistent : s.Consistent)
    (hput : (s.callers c).put = some put) : s.CanGoOn c := by
  rcases hconsistent.advance_or_waits hput with hadvance | ⟨granule, g, hg, hidle⟩
  · exact Or.inl hadvance
  right
  cases hactive : s.active with
  | cons other active =>
    left
    exact ⟨other, List.mem_cons_self, h.retires (hactive ▸ List.mem_cons_self)⟩
  | nil =>
    right
    refine ⟨rfl, ⟨granule, g.work, work_of_heap hg, ?_⟩, fun other => hconsistent.starts hactive⟩
    have hnot : ¬ s.Running granule := by
      rw [← h.running, hactive]
      exact List.not_mem_nil
    by_contra hpending
    refine hnot ⟨g.work, work_of_heap hg, ?_⟩
    rw [Bool.not_eq_true] at hpending
    cases hcallback : g.work.callback <;> simp [RetireWork.idle, hpending, hcallback] at hidle ⊢

/-! ## The end -/

omit [DecidableEq ι] in
/-- Nothing is left when every caller has put what it got and returned. -/
theorem Consistent.nothing_left (h : s.Consistent) (hcallers : ∀ c, s.callers c = {}) :
    (∀ granule, s.heap granule = none) ∧ (∀ index, s.granules index = none) ∧
      ∀ start, regionAfter s.calls start = .free := by
  have hheap : ∀ granule, s.heap granule = none := by
    intro granule
    cases hg : s.heap granule with
    | none => rfl
    | some g =>
      rcases h.placed granule g hg with ⟨index, hindex⟩ | ⟨c, hmem⟩
      · obtain ⟨g, -, -, -, husers, hpos, -⟩ := h.registered index granule hindex
        rw [husers] at hpos
        obtain ⟨c, -, hc⟩ := Finset.exists_ne_zero_of_sum_ne_zero (Nat.ne_of_gt hpos)
        rw [hcallers c] at hc
        exact absurd (Multiset.count_zero granule) hc
      · rw [hcallers c] at hmem
        exact absurd hmem List.not_mem_nil
  refine ⟨hheap, fun index => ?_, fun start => ?_⟩
  · cases hindex : s.granules index with
    | none => rfl
    | some granule =>
      obtain ⟨g, hg, -⟩ := h.registered index granule hindex
      rw [hheap granule] at hg
      cases hg
  · by_contra hbusy
    obtain ⟨granule, g, hg, -⟩ := h.occupied start hbusy
    rw [hheap granule] at hg
    cases hg

/-- Whatever has happened, a caller in `hyper_granules_put` comes back by its own steps and those of
the queue, whatever the queue runs first and however few at a time: there are not many of them, and
as long as it has not returned there is one more. -/
theorem put_returns_alone {as bs : List (GranuleAction ι)}
    (hs : runSteps GranuleRegistry.step {} as = some s) (hput : (s.callers c).put = some put)
    (hserves : ∀ b ∈ bs, b.Serves c) (hs' : runSteps GranuleRegistry.step s bs = some s') :
    bs.length ≤ 10 * put.count + 3 + s.queueLeft ∧
      ((s'.callers c).put = none ∨ s'.CanGoOn c) := by
  obtain ⟨hconsistent, hworking⟩ := reachable_working hs
  have hkeep : s'.Consistent ∧ s'.Working :=
    runSteps_invariant (J := fun s => s.Consistent ∧ s.Working)
      (fun _ _ _ h hs' => ⟨h.1.step hs', h.2.step h.1 hs'⟩) ⟨hconsistent, hworking⟩ hs'
  constructor
  · have hrun := hconsistent.left_run hserves hs'
    have hbound : put.left ≤ 10 * put.count + 3 := by
      rw [← (hconsistent.puts c put hput).length]
      exact left_le
    rw [left_of_put hput] at hrun
    omega
  · cases hput' : (s'.callers c).put with
    | none => exact Or.inl rfl
    | some put' => exact Or.inr (hkeep.2.can_go_on hkeep.1 hput')

/-- Two callers retire a granule each: the second one waits while the queue has both. -/
def queuedRun : List (GranuleAction Bool) :=
  [.get false 0x201000 (grants 7), .get true 0x400000 (grants 8), .put false [7], .put true [8],
    .advance false, .advance false, .advance true, .advance true, .advance true]

/-- The queue takes up the other granule first. -/
def servingRun : List (GranuleAction Bool) :=
  [.startWork 7, .startWork 8, .granuleRetire 7, .granuleRetire 7, .granuleRetire 8,
    .granuleRetire 8, .advance true, .advance true, .advance true, .advance true]

theorem queuedRun_runs :
    (runSteps GranuleRegistry.step ({} : GranuleRegistry Bool) queuedRun).isSome = true := by
  decide +kernel

theorem queuedRun_flushing : ((((runSteps GranuleRegistry.step {} queuedRun).get
    queuedRun_runs).callers true).put).isSome = true := by
  decide +kernel

theorem servingRun_runs : (runSteps GranuleRegistry.step
    ((runSteps GranuleRegistry.step {} queuedRun).get queuedRun_runs)
      servingRun).isSome = true := by
  decide +kernel

theorem servingRun_serves : ∀ b ∈ servingRun, b.Serves true := by
  simp [servingRun, GranuleAction.Serves]

theorem put_returns_alone_queued : ∃ s s' : GranuleRegistry Bool, ∃ put,
    (s.callers true).put = some put ∧ runSteps GranuleRegistry.step s servingRun = some s' ∧
      servingRun.length ≤ 10 * put.count + 3 + s.queueLeft ∧
        ((s'.callers true).put = none ∨ s'.CanGoOn true) :=
  have hs := (Option.some_get queuedRun_runs).symm
  have hput := (Option.some_get queuedRun_flushing).symm
  have hs' := (Option.some_get servingRun_runs).symm
  ⟨_, _, _, hput, hs', put_returns_alone hs hput servingRun_serves hs'⟩

/-- When all callers have put what they got, every import is unmapped, every claim released and
every granule freed. -/
theorem all_put_all_released {as : List (GranuleAction ι)}
    (hs : runSteps GranuleRegistry.step {} as = some s) (hcallers : ∀ c, s.callers c = {}) :
    (∀ granule, s.heap granule = none) ∧ (∀ index, s.granules index = none) ∧
      ∀ start, s.calls.count (.memremapPages start) = s.calls.count (.memunmapPages start) ∧
        s.calls.count (.requestMemRegion start) = s.calls.count (.releaseMemRegion start) := by
  have h := reachable_consistent hs
  obtain ⟨hheap, hgranules, hfree⟩ := h.nothing_left hcallers
  refine ⟨hheap, hgranules, fun start => ⟨?_, ?_⟩⟩
  · have hcount := h.legal.count_memunmapPages start
    rw [hfree start] at hcount
    exact hcount
  · have hcount := h.legal.count_releaseMemRegion start
    rw [hfree start] at hcount
    exact hcount

/-- Both callers are through. -/
theorem sharedRun_through : ∀ c, ((runSteps GranuleRegistry.step {} (sharedRun.take 21)).get
    (sharedRun_runs 21 (by decide))).callers c = {} := by
  decide +kernel

theorem all_put_all_released_shared : ∃ s : GranuleRegistry Bool,
    runSteps GranuleRegistry.step {} (sharedRun.take 21) = some s ∧
      ∀ index, s.granules index = none :=
  have hs := (Option.some_get (sharedRun_runs 21 (by decide))).symm
  ⟨_, hs, (all_put_all_released hs sharedRun_through).2.1⟩

end GranuleRegistry

end HyperIoVm
