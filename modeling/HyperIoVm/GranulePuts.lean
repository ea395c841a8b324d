import HyperIoVm.GranuleWorkers

/-!
# The rounds of a put (`modules/guest-memory/granules.c`)

A round of `hyper_granules_put` counts the users down and takes out of the registry what has no
users left, queues it, waits for it and frees it. Every step of it keeps the registry consistent.
-/

namespace HyperIoVm

open GranuleRegistry

variable {ι : Type} [DecidableEq ι] [Fintype ι] {s s' : GranuleRegistry ι} {c : ι}
  {caller : GranuleCaller} {put put' : GranulesPut} {granule : GranulePtr} {g : Granule}
  {w : RetireWork} {m : List RegionCall}

namespace GranuleRegistry

/-! ## The round of a put -/

/-- An entry that is not null is queued. -/
theorem Consistent.queueWork (h : s.Consistent) (hput : (s.callers c).put = some put)
    {queued unqueued : List (Option GranulePtr)}
    (hstage : put.stage = .queueWork queued (some granule :: unqueued)) :
    ((s.queueWork granule).setPut c
      { put with stage := .queueWork (queued ++ [some granule]) unqueued }).Consistent := by
  have hcaller : (s.callers c).stage = .queueWork queued (some granule :: unqueued) :=
    (stage_of_put hput).trans hstage
  have hunqueued : granule ∈ (s.callers c).stage.unqueued := by
    rw [hcaller]
    exact List.reduceOption_mem_iff.mpr List.mem_cons_self
  have hmem : granule ∈ (s.callers c).stage.detached :=
    PutStage.mem_detached.mpr (Or.inl hunqueued)
  obtain ⟨-, g, hg, hmatches⟩ := h.detached c granule hmem
  -- its callback has not been queued since it was detached
  have hfresh := hmatches.unqueued hunqueued
  have hran : g.work.callback ≠ .ran := by
    rw [hfresh]
    exact RetireCallback.noConfusion
  have hregion := h.region granule g hg hran
  have haccounts := h.puts c put hput
  have howned : ({ put with stage := .queueWork (queued ++ [some granule]) unqueued } :
      GranulesPut).owned = put.owned := by
    simp [GranulesPut.owned, hstage, PutStage.entries]
  have hdetached : (PutStage.queueWork (queued ++ [some granule]) unqueued).detached =
      put.stage.detached := by
    simp [PutStage.detached, hstage, PutStage.entries]
  have hnodup := h.nodup c
  rw [hcaller] at hnodup
  unfold GranuleRegistry.queueWork modifyGranule
  rw [hg]
  refine h.setWork (w := { g.work with pending := true }) (c := c) hmem hg hran rfl rfl
    rfl rfl (List.append_nil s.calls).symm h.legal (acquired_with_put hput rfl) ?_ ?_ ?_ ?_ ?_
    fun _ _ => rfl
  · -- the same granules are detached
    rw [stage_of_put hput]
    exact hdetached
  · -- the accounts of the put
    intro put' hput'
    obtain rfl := Option.some_inj.mp hput'
    refine accounts_setWork haccounts hg rfl (List.append_nil s.calls).symm ?_ haccounts.passed rfl
      hdetached ?_
    · rw [howned]
      exact haccounts.length
    · intro n _ _
      rw [hfresh]
      trivial
  · refine ⟨fun hagain => ?_, fun _ => ?_, fun hflushed => ?_⟩
    · -- the entries of a round are different granules
      have hdup : (granule :: unqueued.reduceOption).Nodup := by
        refine List.Nodup.sublist ?_ hnodup
        show List.Sublist _ (queued ++ some granule :: unqueued).reduceOption
        rw [List.reduceOption_append]
        exact List.sublist_append_right _ _
      exact absurd hagain (List.nodup_cons.mp hdup).1
    · rw [hfresh]
      exact ⟨fun _ => rfl, fun _ => rfl⟩
    · exact absurd hflushed List.not_mem_nil
  · -- the others are queued as before
    intro other hne w' hold
    rw [hcaller] at hold
    refine ⟨fun hmem' => hold.unqueued ?_, fun hmem' => hold.queued ?_, fun hmem' => ?_⟩
    · exact List.mem_cons_of_mem _ hmem'
    · have hmem' : other ∈ (queued ++ [some granule]).reduceOption := hmem'
      rw [List.reduceOption_append] at hmem'
      rcases List.mem_append.mp hmem' with hq | hnew
      · exact hq
      · exact absurd (List.mem_singleton.mp hnew) hne
    · exact absurd hmem' List.not_mem_nil
  · -- no call to the kernel
    show regionAfter s.calls g.start = _
    rw [hregion]

/-- A granule whose work is done is freed. -/
theorem Consistent.free (h : s.Consistent) (hput : (s.callers c).put = some put)
    {unflushed : List (Option GranulePtr)} (hstage : put.stage = .free granule unflushed) :
    ((s.kfree granule).setPut c
      { put with passed := put.passed ++ [none], stage := .flushWork unflushed }).Consistent := by
  have hcaller : (s.callers c).stage = .free granule unflushed :=
    (stage_of_put hput).trans hstage
  have hflushed : granule ∈ (s.callers c).stage.flushed := by
    rw [hcaller]
    exact List.mem_singleton_self _
  have hmem : granule ∈ (s.callers c).stage.detached :=
    PutStage.mem_detached.mpr (Or.inr (Or.inr hflushed))
  obtain ⟨hnot, g, hg, hmatches⟩ := h.detached c granule hmem
  obtain ⟨hpending, hran⟩ := hmatches.flushed hflushed
  have hidle : g.work.idle = true := by simp [RetireWork.idle, hpending, hran]
  have haccounts := h.puts c put hput
  have hnodup := h.nodup c
  rw [hcaller] at hnodup
  have hdetached : (PutStage.free granule unflushed).detached =
      granule :: (PutStage.flushWork unflushed).detached := rfl
  rw [hdetached, List.nodup_cons] at hnodup
  have hnone : Function.update s.heap granule none granule = none := Function.update_self ..
  unfold kfree
  rw [hg]
  dsimp only
  rw [if_pos hidle]
  refine h.change granule (c := c) ⟨rfl, rfl, (List.append_nil s.calls).symm,
    h.legal, fun other hne => Function.update_of_ne hne _ _, fun _ _ _ => Iff.rfl, ?_, ?_, ?_,
    hnodup.2, ?_,
    fun _ _ _ _ _ => rfl, ?_, ?_, ?_⟩
  · -- what is acquired is as before
    intro other _
    exact congrArg (Multiset.count other) (acquired_with_put hput rfl)
  · -- it is the only granule that is no longer detached
    intro other hne
    rw [hcaller, hdetached, List.mem_cons]
    exact ⟨Or.inr, fun hor => hor.resolve_left hne⟩
  · -- nothing is unqueued or flushed now
    intro other hne w' hold
    rw [hcaller] at hold
    exact ⟨fun hmem' => absurd hmem' List.not_mem_nil, hold.queued,
      fun hmem' => absurd hmem' List.not_mem_nil⟩
  · -- the accounts of the put
    intro put' hput'
    obtain rfl := Option.some_inj.mp hput'
    refine haccounts.follow ?_ ?_ rfl (List.append_nil s.calls).symm ?_
    · rw [← haccounts.length]
      simp [GranulesPut.owned, hstage, PutStage.entries]
    · intro entry hentry
      rcases List.mem_append.mp hentry with hold | hnew
      · exact haccounts.passed entry hold
      · exact List.mem_singleton.mp hnew
    · intro other hother g' hg' n hn hprogress
      rw [hstage, hdetached] at hother
      rcases List.mem_cons.mp hother with rfl | hother
      · left
        obtain rfl := Option.some_inj.mp (hg.symm.trans hg')
        rw [hran] at hprogress
        exact hprogress
      · right
        refine ⟨other, hother, g', ?_, rfl, hprogress⟩
        refine (Function.update_of_ne ?_ _ _).trans hg'
        exact fun heq => hnodup.1 (heq ▸ hother)
  · -- a range that is claimed is that of another granule: this one has let go of its own
    intro start hfree
    right
    obtain ⟨other, g', hg', hstart, hran'⟩ := h.occupied start hfree
    refine ⟨other, ?_, g', hg', hstart, hran'⟩
    rintro rfl
    obtain rfl := Option.some_inj.mp (hg.symm.trans hg')
    exact hran' hran
  · -- no other caller has detached it
    exact fun c' hc' hmem' => hc' (h.apart c' c granule hmem' hmem)
  · -- it is in no table, nobody has acquired it and nobody waits for it
    have hself : ∀ g', Function.update s.heap granule none granule ≠ some g' := by
      intro g' hg'
      rw [hnone] at hg'
      cases hg'
    refine ⟨fun index hindex => absurd ⟨index, hindex⟩ hnot, fun c' hmem' => ?_, fun hmem' => ?_,
      fun g' hg' => absurd hg' (hself g'), fun g' hg' => absurd hg' (hself g'),
      fun g' hg' => absurd hg' (hself g')⟩
    · refine absurd (h.acquired c' granule ?_) hnot
      rwa [acquired_setPut (s := s.setGranule granule none) hput
        { put with passed := put.passed ++ [none], stage := .flushWork unflushed } rfl] at hmem'
    · rw [setPut_callers_self] at hmem'
      exact absurd hmem' hnodup.1

/-! ## Users -/

/-- A granule of the registry gets or loses a user, and is not left without. -/
theorem Consistent.setUsers (h : s.Consistent) {index : UInt64} (users : Nat)
    (hindex : s.granules index = some granule) (hg : s.heap granule = some g)
    (hcallers : s'.callers = Function.update s.callers c caller)
    (hgranules : s'.granules = s.granules) (hfault : s'.fault = s.fault)
    (hcalls : s'.calls = s.calls)
    (hheap : s'.heap = Function.update s.heap granule (some { g with users }))
    (husers : users = s'.outstanding granule) (hpos : 0 < users)
    (hcount : ∀ other ≠ granule,
      caller.acquired.count other = (s.callers c).acquired.count other)
    (hdetached : caller.stage.detached = (s.callers c).stage.detached)
    (hmatches : ∀ other w, (s.callers c).stage.Matches other w → caller.stage.Matches other w)
    (hput : ∀ put, caller.put = some put → put.Accounts s') : s'.Consistent := by
  have hreg : s.Registered granule := ⟨index, hindex⟩
  have hreg' : s'.Registered granule := ⟨index, by rw [hgranules]; exact hindex⟩
  have hself : s'.heap granule = some { g with users } := by rw [hheap, Function.update_self]
  -- the other granules are as before
  have hothers : ∀ other ≠ granule, s'.heap other = s.heap other := by
    intro other hne
    rw [hheap, Function.update_of_ne hne]
  have hnot : ∀ c, granule ∉ (s.callers c).stage.detached := fun c hmem =>
    (h.detached c granule hmem).1 hreg
  refine h.change granule ⟨hcallers, hfault, hcalls.trans (List.append_nil s.calls).symm,
    hcalls ▸ h.legal,
    hothers, fun _ _ index => by rw [hgranules], hcount, fun other _ => by rw [hdetached],
    fun other _ => hmatches other, hdetached ▸ h.nodup c, hput,
    fun other _ g' _ _ => by rw [hcalls],
    ?_, fun c' _ => hnot c', ?_⟩
  · -- a claimed range still has its granule
    intro start hfree
    rw [hcalls] at hfree
    obtain ⟨other, g', hg', hstart, hran⟩ := h.occupied start hfree
    by_cases hne : other = granule
    · subst hne
      obtain rfl := Option.some_inj.mp (hg.symm.trans hg')
      exact Or.inl ⟨_, hself, hstart, hran⟩
    · exact Or.inr ⟨other, hne, g', hg', hstart, hran⟩
  · constructor
    case registered =>
      intro index' hindex'
      rw [hgranules] at hindex'
      obtain ⟨g', hg', hdiv, hstart, -, -, hfresh⟩ := h.registered index' granule hindex'
      obtain rfl := Option.some_inj.mp (hg.symm.trans hg')
      exact ⟨_, hself, hdiv, hstart, husers, hpos, hfresh⟩
    case acquired => exact fun _ _ => hreg'
    case detached =>
      intro hmem
      rw [hcallers, Function.update_self, hdetached] at hmem
      exact absurd hmem (hnot c)
    case placed => exact fun _ _ => Or.inl hreg'
    case region =>
      intro g' hg' hran
      obtain rfl := Option.some_inj.mp (hself.symm.trans hg')
      rw [hcalls]
      exact h.region granule g hg hran
    case sole =>
      intro g' hg' hran other hne g₁ hg₁ hran₁ hstart
      obtain rfl := Option.some_inj.mp (hself.symm.trans hg')
      rw [hothers other hne] at hg₁
      exact hne (h.sole granule g other g₁ hg hg₁ hran hran₁ hstart).symm

omit [DecidableEq ι] [Fintype ι] in
/-- The first entry that is not reached yet is an acquisition like the others. -/
theorem acquired_cons (hput : (s.callers c).put = some put) (put' : GranulesPut)
    {rest : List GranulePtr}
    (hrest : put.rest = granule :: rest) (hrest' : put'.rest = rest) :
    (s.callers c).acquired =
      granule ::ₘ ({ s.callers c with put := some put' } : GranuleCaller).acquired := by
  unfold GranuleCaller.acquired
  rw [hput]
  show _ + (put.rest : Multiset GranulePtr) = granule ::ₘ (_ + (put'.rest : Multiset GranulePtr))
  rw [hrest, hrest', ← Multiset.cons_coe, Multiset.add_cons]

/-- A caller that puts an acquisition leaves one less. -/
theorem outstanding_cons (s s' : GranuleRegistry ι)
    (hcallers : s'.callers = Function.update s.callers c caller)
    (hacquired : (s.callers c).acquired = granule ::ₘ caller.acquired) :
    s'.outstanding granule + 1 = s.outstanding granule := by
  have hcount := outstanding_update hcallers granule
  rw [hacquired, Multiset.count_cons_self] at hcount
  omega

omit [DecidableEq ι] in
/-- What a round of the loop comes to is in the registry, and nobody has detached it. -/
theorem Consistent.registered_rest (h : s.Consistent) (hput : (s.callers c).put = some put)
    {rest : List GranulePtr} (hrest : put.rest = granule :: rest) : ∃ index g,
    s.granules index = some granule ∧ s.heap granule = some g ∧ g.start / sz2M = index ∧
      g.users = s.outstanding granule ∧ 0 < g.users ∧ g.work = {} ∧
        ∀ c, granule ∉ (s.callers c).stage.detached := by
  have hacquired : granule ∈ (s.callers c).acquired := by
    rw [acquired_cons hput { put with rest } hrest rfl]
    exact Multiset.mem_cons_self _ _
  obtain ⟨index, hindex⟩ := h.acquired c granule hacquired
  obtain ⟨g, hg, hdiv, -, husers, hpos, hfresh⟩ := h.registered index granule hindex
  exact ⟨index, g, hindex, hg, hdiv, husers, hpos, hfresh, fun c hmem =>
    (h.detached c granule hmem).1 ⟨index, hindex⟩⟩

omit [DecidableEq ι] in
/-- The accounts of what has been detached before. -/
theorem Consistent.accounts_detach (h : s.Consistent) (hput : (s.callers c).put = some put)
    {entries : List (Option GranulePtr)} (hstage : put.stage = .detach entries)
    {rest : List GranulePtr} (hrest : put.rest = granule :: rest)
    (hnot : granule ∉ (s.callers c).stage.detached) (entry : Option GranulePtr)
    (hcalls : s'.calls = s.calls) (hheap : ∀ other ≠ granule, s'.heap other = s.heap other) :
    ({ put with rest, stage := .detach (entries ++ [entry]) } : GranulesPut).Accounts s' := by
  have haccounts := h.puts c put hput
  refine haccounts.follow ?_ haccounts.passed rfl (hcalls.trans (List.append_nil s.calls).symm) ?_
  · rw [← haccounts.length]
    simp [GranulesPut.owned, hstage, hrest, PutStage.entries]
  · intro other hother g' hg' n _ hprogress
    right
    have hne : other ≠ granule := by
      rintro rfl
      exact hnot (stage_of_put hput ▸ hother)
    refine ⟨other, ?_, g', (hheap other hne).trans hg', rfl, by rwa [hcalls]⟩
    rw [hstage] at hother
    show other ∈ (entries ++ [entry]).reduceOption
    rw [List.reduceOption_append]
    exact List.mem_append_left _ hother

/-- An entry more is not queued either. -/
theorem matches_detach {entries : List (Option GranulePtr)} {entry : Option GranulePtr}
    {other : GranulePtr} (hne : entry ≠ some other)
    (hmatches : (PutStage.detach entries).Matches other w) :
    (PutStage.detach (entries ++ [entry])).Matches other w := by
  refine ⟨fun hmem => hmatches.unqueued ?_, fun hmem => absurd hmem List.not_mem_nil,
    fun hmem => absurd hmem List.not_mem_nil⟩
  have hmem : other ∈ (entries ++ [entry]).reduceOption := hmem
  rw [List.reduceOption_append] at hmem
  refine (List.mem_append.mp hmem).resolve_right fun hnew => hne ?_
  exact (List.mem_singleton.mp (List.reduceOption_mem_iff.mp hnew)).symm

/-- The granule has other users: it stays in the registry. -/
theorem Consistent.detachShared (h : s.Consistent) (hput : (s.callers c).put = some put)
    {entries : List (Option GranulePtr)} (hstage : put.stage = .detach entries)
    {rest : List GranulePtr} (hrest : put.rest = granule :: rest)
    (hg : s.heap granule = some g) (hshared : g.users - 1 ≠ 0) :
    ((s.setGranule granule (some { g with users := g.users - 1 })).setPut c
      { put with rest, stage := .detach (entries ++ [none]) }).Consistent := by
  obtain ⟨index, g', hindex, hg', -, husers, hpos, -, hnot⟩ := h.registered_rest hput hrest
  obtain rfl := Option.some_inj.mp (hg'.symm.trans hg)
  have hcaller := stage_of_put hput
  have hless := outstanding_cons s ((s.setGranule granule
    (some { g' with users := g'.users - 1 })).setPut c
      { put with rest, stage := .detach (entries ++ [none]) }) rfl
    (acquired_cons hput _ hrest rfl)
  refine h.setUsers (g'.users - 1) (c := c) hindex hg rfl rfl rfl rfl rfl (by omega) (by omega) ?_
    ?_ ?_ ?_
  · -- what this caller has acquired of the others
    intro other hne
    rw [acquired_cons hput { put with rest, stage := .detach (entries ++ [none]) } hrest rfl,
      Multiset.count_cons_of_ne hne]
    rfl
  · -- no entry is left for a shared granule
    rw [hcaller, hstage]
    show (entries ++ [none]).reduceOption = entries.reduceOption
    rw [List.reduceOption_append]
    exact List.append_nil _
  · -- the others are detached as before
    intro other w hmatches
    rw [hcaller, hstage] at hmatches
    exact matches_detach (Option.some_ne_none other).symm hmatches
  · -- the accounts of the put
    intro put' hput'
    obtain rfl := Option.some_inj.mp hput'
    exact h.accounts_detach hput hstage hrest (hnot c) none rfl fun other hne =>
      Function.update_of_ne hne _ _

/-! ### The last user -/

/-- The put when it has taken a granule out of the registry. -/
def takeOut (s : GranuleRegistry ι) (put : GranulesPut) (granule : GranulePtr) (g : Granule)
    (entries : List (Option GranulePtr)) (rest : List GranulePtr) : GranulesPut :=
  { put with
    rest
    stage := .detach (entries ++ [some granule])
    detached := put.detached ++ [(g.start, s.calls.length)] }

/-- The registry then. -/
def detachLast (s : GranuleRegistry ι) (c : ι) (put : GranulesPut) (granule : GranulePtr)
    (g : Granule) (entries : List (Option GranulePtr)) (rest : List GranulePtr) :
    GranuleRegistry ι :=
  { (s.setGranule granule (some { g with users := g.users - 1 })).setPut c
      (takeOut s put granule g entries rest) with
    granules := Function.update s.granules (g.start / sz2M) none }

section DetachLast

variable {entries : List (Option GranulePtr)} {rest : List GranulePtr} {index : UInt64}

omit [Fintype ι] in
theorem heap_detachLast_self : (s.detachLast c put granule g entries rest).heap granule =
    some { g with users := g.users - 1 } := Function.update_self ..

omit [Fintype ι] in
theorem heap_detachLast_of_ne {other : GranulePtr} (hne : other ≠ granule) :
    (s.detachLast c put granule g entries rest).heap other = s.heap other :=
  Function.update_of_ne hne ..

/-- The granule is not in the registry any more. -/
theorem Consistent.not_registered_detachLast (h : s.Consistent) (hg : s.heap granule = some g) :
    ¬ (s.detachLast c put granule g entries rest).Registered granule := by
  rintro ⟨index, hindex⟩
  by_cases heq : index = g.start / sz2M
  · have hnone : (s.detachLast c put granule g entries rest).granules index = none := by
      rw [heq]
      exact Function.update_self ..
    rw [hnone] at hindex
    cases hindex
  · have hold : s.granules index = some granule := by
      rw [← hindex]
      exact (Function.update_of_ne heq ..).symm
    obtain ⟨g', hg', hdiv, -⟩ := h.registered index granule hold
    obtain rfl := Option.some_inj.mp (hg.symm.trans hg')
    exact heq hdiv.symm

omit [Fintype ι] in
/-- All others stay there. -/
theorem granules_detachLast (hindex : s.granules index = some granule)
    (hdiv : g.start / sz2M = index) {other : GranulePtr} (hne : other ≠ granule)
    (index' : UInt64) :
    (s.detachLast c put granule g entries rest).granules index' = some other ↔
      s.granules index' = some other := by
  show Function.update s.granules (g.start / sz2M) none index' = _ ↔ _
  by_cases heq : index' = g.start / sz2M
  · rw [heq, Function.update_self, hdiv, hindex]
    constructor
    · exact fun hnone => absurd hnone.symm (Option.some_ne_none _)
    · exact fun hsome => absurd (Option.some_inj.mp hsome).symm hne
  · rw [Function.update_of_ne heq]

omit [DecidableEq ι] [Fintype ι] in
/-- The round has one granule more. -/
theorem detached_takeOut (hstage : put.stage = .detach entries) :
    (takeOut s put granule g entries rest).stage.detached = put.stage.detached ++ [granule] := by
  rw [hstage]
  exact List.reduceOption_append _ _

omit [DecidableEq ι] [Fintype ι] in
theorem mem_detached_takeOut (hstage : put.stage = .detach entries) :
    granule ∈ (takeOut s put granule g entries rest).stage.detached := by
  rw [detached_takeOut hstage]
  exact List.mem_append_right _ (List.mem_singleton_self _)

/-- The granule fits in where it is. -/
theorem Consistent.fits_detachLast (h : s.Consistent) (hput : (s.callers c).put = some put)
    (hstage : put.stage = .detach entries) (hrest : put.rest = granule :: rest)
    (hg : s.heap granule = some g) (hlast : g.users - 1 = 0) :
    (s.detachLast c put granule g entries rest).Fits granule c := by
  obtain ⟨-, g', -, hg', -, husers, hpos, hfresh, -⟩ := h.registered_rest hput hrest
  obtain rfl := Option.some_inj.mp (hg'.symm.trans hg)
  have hnot : ¬ (s.detachLast c put granule g' entries rest).Registered granule :=
    h.not_registered_detachLast hg
  have hlost : (s.detachLast c put granule g' entries rest).outstanding granule + 1 =
      s.outstanding granule := outstanding_cons s _ rfl (acquired_cons hput _ hrest rfl)
  have hran : g'.work.callback ≠ .ran := by
    rw [hfresh]
    exact RetireCallback.noConfusion
  have hself : (s.detachLast c put granule g' entries rest).heap granule =
      some { g' with users := g'.users - 1 } := heap_detachLast_self
  have hstage' : ((s.detachLast c put granule g' entries rest).callers c).stage =
      (takeOut s put granule g' entries rest).stage := by
    unfold detachLast
    exact congrArg GranuleCaller.stage (setPut_callers_self _ c _)
  constructor
  case registered => exact fun index hindex => absurd ⟨index, hindex⟩ hnot
  -- nobody has acquired it: its last user was the caller
  case acquired =>
    intro c' hmem
    refine absurd (outstanding_pos hmem) (Nat.not_lt.mpr ?_)
    omega
  case detached =>
    intro _
    refine ⟨hnot, _, hself, ?_⟩
    rw [hstage']
    show PutStage.Matches _ granule g'.work
    rw [hfresh]
    exact ⟨fun _ => rfl, fun hmem => absurd hmem List.not_mem_nil,
      fun hmem => absurd hmem List.not_mem_nil⟩
  -- it waits for the queue
  case placed =>
    intro _ _
    right
    rw [hstage']
    exact mem_detached_takeOut hstage
  case region =>
    intro g₁ hg₁ _
    obtain rfl := Option.some_inj.mp (hself.symm.trans hg₁)
    exact h.region granule g' hg hran
  -- a range belongs to one granule
  case sole =>
    intro g₁ hg₁ _ other hne g₂ hg₂ hran₂ hstart
    obtain rfl := Option.some_inj.mp (hself.symm.trans hg₁)
    rw [heap_detachLast_of_ne hne] at hg₂
    exact hne (h.sole granule g' other g₂ hg hg₂ hran hran₂ hstart).symm

/-- The accounts with the granule that is detached now. -/
theorem Consistent.accounts_takeOut (h : s.Consistent) (hput : (s.callers c).put = some put)
    (hstage : put.stage = .detach entries) (hrest : put.rest = granule :: rest)
    (hg : s.heap granule = some g) : (takeOut s put granule g entries rest).Accounts
      (s.detachLast c put granule g entries rest) := by
  obtain ⟨-, g', -, hg', -, -, -, hfresh, hnot⟩ := h.registered_rest hput hrest
  obtain rfl := Option.some_inj.mp (hg'.symm.trans hg)
  have hcalls : (s.detachLast c put granule g' entries rest).calls = s.calls := rfl
  have hbefore := h.accounts_detach hput hstage hrest (hnot c) (some granule) hcalls
    fun other hne => heap_detachLast_of_ne hne
  refine ⟨hbefore.length, hbefore.passed, fun start n hmark => ?_⟩
  rcases List.mem_append.mp hmark with hold | hnew
  · exact hbefore.detached start n hold
  · obtain ⟨rfl, rfl⟩ := Prod.mk.inj (List.mem_singleton.mp hnew)
    refine ⟨Nat.le_refl _, Or.inr ⟨granule, mem_detached_takeOut hstage, _, heap_detachLast_self,
      rfl, ?_⟩⟩
    show g'.work.callback.Progress _ _
    rw [hfresh]
    trivial

/-- The last user takes the granule out of the registry, and has it in the array. -/
theorem Consistent.detachLast (h : s.Consistent) (hput : (s.callers c).put = some put)
    (hstage : put.stage = .detach entries) (hrest : put.rest = granule :: rest)
    (hg : s.heap granule = some g) (hlast : g.users - 1 = 0) :
    (s.detachLast c put granule g entries rest).Consistent := by
  obtain ⟨index, g', hindex, hg', hdiv, -, -, -, hnot⟩ := h.registered_rest hput hrest
  obtain rfl := Option.some_inj.mp (hg'.symm.trans hg)
  have hcaller := stage_of_put hput
  refine h.change granule (c := c) ⟨rfl, rfl, (List.append_nil s.calls).symm, h.legal,
    fun other hne => heap_detachLast_of_ne hne,
    fun other hne => granules_detachLast hindex hdiv hne,
    ?_, ?_, ?_, ?_, ?_, fun _ _ _ _ _ => rfl, ?_, fun c' _ => hnot c',
    h.fits_detachLast hput hstage hrest hg hlast⟩
  · -- what this caller has acquired of the others
    intro other hne
    rw [acquired_cons hput (takeOut s put granule g' entries rest) hrest rfl,
      Multiset.count_cons_of_ne hne]
    rfl
  · -- it is the only granule that is newly detached
    intro other hne
    show other ∈ (takeOut s put granule g' entries rest).stage.detached ↔ _
    rw [detached_takeOut hstage, hcaller, List.mem_append, List.mem_singleton]
    exact ⟨fun hor => hor.resolve_right hne, Or.inl⟩
  · intro other hne w hmatches
    rw [hcaller, hstage] at hmatches
    exact matches_detach (fun heq => hne (Option.some_inj.mp heq).symm) hmatches
  · show (takeOut s put granule g' entries rest).stage.detached.Nodup
    rw [detached_takeOut hstage, ← hcaller]
    refine List.Nodup.append (h.nodup c) (List.nodup_singleton granule) ?_
    intro other hmem hnew
    rw [List.mem_singleton.mp hnew] at hmem
    exact hnot c hmem
  · -- the accounts of the put
    intro put' hput'
    obtain rfl := Option.some_inj.mp hput'
    exact h.accounts_takeOut hput hstage hrest hg
  · -- a claimed range still has its granule
    intro start hfree
    obtain ⟨other, g₁, hg₁, hstart, hran⟩ := h.occupied start hfree
    by_cases hne : other = granule
    · subst hne
      obtain rfl := Option.some_inj.mp (hg.symm.trans hg₁)
      exact Or.inl ⟨_, heap_detachLast_self, hstart, hran⟩
    · exact Or.inr ⟨other, hne, g₁, hg₁, hstart, hran⟩

end DetachLast

/-- A round of the loop under the lock. -/
theorem Consistent.detachGranule (h : s.Consistent) (hput : (s.callers c).put = some put)
    {entries : List (Option GranulePtr)} (hstage : put.stage = .detach entries)
    {rest : List GranulePtr} (hrest : put.rest = granule :: rest) :
    (s.detachGranule c { put with rest } granule entries).Consistent := by
  obtain ⟨-, g, -, hg, -, -, hpos, -, -⟩ := h.registered_rest hput hrest
  unfold GranuleRegistry.detachGranule
  rw [hg]
  dsimp only
  rw [if_neg (by omega)]
  split
  next hshared => exact h.detachShared hput hstage hrest hg hshared
  next hlast => exact h.detachLast hput hstage hrest hg (not_not.mp hlast)

/-- A round leaves the caller in the loop. -/
theorem detachGranule_put (h : s.Consistent) (hput : (s.callers c).put = some put)
    (entries : List (Option GranulePtr)) {rest : List GranulePtr}
    (hrest : put.rest = granule :: rest) : ∃ entry put',
    ((s.detachGranule c { put with rest } granule entries).callers c).put = some put' ∧
      put'.stage = .detach (entries ++ [entry]) ∧ put'.rest = rest := by
  obtain ⟨-, g, -, hg, -, -, hpos, -, -⟩ := h.registered_rest hput hrest
  unfold GranuleRegistry.detachGranule
  rw [hg]
  dsimp only
  rw [if_neg (by omega)]
  split
  next => exact ⟨none, _, congrArg GranuleCaller.put (setPut_callers_self _ c _), rfl, rfl⟩
  next =>
    exact ⟨some granule, _, congrArg GranuleCaller.put (setPut_callers_self _ c _), rfl, rfl⟩

/-- The loop under the lock moves entries from what is not reached to the round. -/
theorem Consistent.detachGranules (rounds : Nat) (h : s.Consistent)
    (hput : (s.callers c).put = some put) {entries : List (Option GranulePtr)}
    (hstage : put.stage = .detach entries) :
    (detachGranules c rounds s).Consistent ∧ ∃ put' entries',
      ((detachGranules c rounds s).callers c).put = some put' ∧ put'.stage = .detach entries' ∧
        put'.rest.length = put.rest.length - rounds ∧
          entries'.length + put'.rest.length = entries.length + put.rest.length := by
  induction rounds generalizing s put entries with
  | zero => exact ⟨h, put, entries, hput, hstage, rfl, rfl⟩
  | succ rounds ih =>
    unfold GranuleRegistry.detachGranules
    rw [hput]
    dsimp only
    rw [hstage]
    cases hrest : put.rest with
    -- the array ends before the round is full
    | nil =>
      refine ⟨h, put, entries, hput, hstage, ?_, by rw [hrest]⟩
      rw [hrest]
      exact (Nat.zero_sub _).symm
    | cons granule rest =>
      -- this granule, and then those behind it
      obtain ⟨entry, put', hput', hstage', hrest'⟩ :=
        detachGranule_put h hput entries hrest
      obtain ⟨hloop, put₁, entries₁, hput₁, hstage₁, hlength, htotal⟩ :=
        ih (h.detachGranule hput hstage hrest) hput' hstage'
      refine ⟨hloop, put₁, entries₁, hput₁, hstage₁, ?_, ?_⟩
      · rw [hlength, hrest', List.length_cons, Nat.add_sub_add_right]
      · rw [htotal, hrest', List.length_append, List.length_cons]
        simp only [List.length_cons, List.length_nil]
        omega

theorem Consistent.detachBatch (h : s.Consistent) (hput : (s.callers c).put = some put)
    {entries : List (Option GranulePtr)} (hstage : put.stage = .detach entries) :
    (s.detachBatch c put).Consistent := by
  obtain ⟨hloop, put', entries', hput', hstage', -⟩ :=
    h.detachGranules (min put.rest.length hyperGranuleRetireBatch) hput hstage
  unfold GranuleRegistry.detachBatch
  dsimp only
  rw [hput']
  refine hloop.stage hput' rfl rfl ?_ rfl (fun _ hold => Or.inl hold) ?_ ?_
  · simp [GranulesPut.owned, hstage', PutStage.entries]
  · rw [hstage']
    rfl
  · intro other _ g _ hmatches
    rw [hstage'] at hmatches ⊢
    exact ⟨hmatches.unqueued, fun hmem => absurd hmem List.not_mem_nil,
      fun hmem => absurd hmem List.not_mem_nil⟩

/-- Work that has been queued and is idle has run. -/
theorem idle_of_queued (hidle : w.idle = true)
    (hqueued : w.pending = true ↔ w.callback = .notRun) :
    w.pending = false ∧ w.callback = .ran := by
  obtain ⟨pending, callback⟩ := w
  cases pending <;> cases callback <;> simp_all [RetireWork.idle]

/-! ## What a caller does next -/

/-- What a caller in `hyper_granules_put` can do next. -/
inductive Advances (s : GranuleRegistry ι) (c : ι) (put : GranulesPut) : GranuleRegistry ι → Prop
  | returned (stage : put.stage = .detach []) (rest : put.rest = []) :
    Advances s c put (s.setCaller c { s.callers c with put := none })
  | batch {entries} (stage : put.stage = .detach entries)
    (more : ¬ (put.rest = [] ∧ entries = [])) :
    Advances s c put (s.detachBatch c put)
  | allQueued {queued} (stage : put.stage = .queueWork queued []) :
    Advances s c put (s.setPut c { put with stage := .flushWork queued })
  | skipQueue {queued unqueued} (stage : put.stage = .queueWork queued (none :: unqueued)) :
    Advances s c put (s.setPut c { put with stage := .queueWork (queued ++ [none]) unqueued })
  | queue {granule queued unqueued}
    (stage : put.stage = .queueWork queued (some granule :: unqueued)) :
    Advances s c put ((s.queueWork granule).setPut c
      { put with stage := .queueWork (queued ++ [some granule]) unqueued })
  | allFlushed (stage : put.stage = .flushWork []) :
    Advances s c put (s.setPut c { put with stage := .detach [] })
  | skipFlush {unflushed} (stage : put.stage = .flushWork (none :: unflushed)) :
    Advances s c put (s.setPut c
      { put with passed := put.passed ++ [none], stage := .flushWork unflushed })
  | flush {granule unflushed g} (stage : put.stage = .flushWork (some granule :: unflushed))
    (heap : s.heap granule = some g) (idle : g.work.idle = true) :
    Advances s c put (s.setPut c { put with stage := .free granule unflushed })
  | free {granule unflushed} (stage : put.stage = .free granule unflushed) :
    Advances s c put ((s.kfree granule).setPut c
      { put with passed := put.passed ++ [none], stage := .flushWork unflushed })

omit [DecidableEq ι] in
/-- The granule that a flush waits for is allocated. -/
theorem Consistent.flush_heap (h : s.Consistent) (hput : (s.callers c).put = some put)
    {unflushed : List (Option GranulePtr)}
    (hstage : put.stage = .flushWork (some granule :: unflushed)) :
    ∃ g, s.heap granule = some g ∧ (s.callers c).stage.Matches granule g.work := by
  have hmem : granule ∈ (s.callers c).stage.detached := by
    rw [stage_of_put hput, hstage]
    exact List.reduceOption_mem_iff.mpr List.mem_cons_self
  exact (h.detached c granule hmem).2

theorem Consistent.advances (h : s.Consistent) (hput : (s.callers c).put = some put)
    (hs' : s.advance c put = some s') : Advances s c put s' := by
  unfold GranuleRegistry.advance at hs'
  cases hstage : put.stage with
  | detach entries =>
    rw [hstage] at hs'
    dsimp only at hs'
    split at hs' <;> obtain rfl := Option.some_inj.mp hs'
    next hdone => exact .returned (by rw [hstage, hdone.2]) hdone.1
    next hmore => exact .batch hstage hmore
  | queueWork queued unqueued =>
    rw [hstage] at hs'
    cases unqueued with
    | nil =>
      obtain rfl := Option.some_inj.mp hs'
      exact .allQueued hstage
    | cons entry unqueued =>
      cases entry with
      | none =>
        obtain rfl := Option.some_inj.mp hs'
        exact .skipQueue hstage
      | some granule =>
        obtain rfl := Option.some_inj.mp hs'
        exact .queue hstage
  | flushWork unflushed =>
    rw [hstage] at hs'
    cases unflushed with
    | nil =>
      obtain rfl := Option.some_inj.mp hs'
      exact .allFlushed hstage
    | cons entry unflushed =>
      cases entry with
      | none =>
        obtain rfl := Option.some_inj.mp hs'
        exact .skipFlush hstage
      | some granule =>
        obtain ⟨g, hg, -⟩ := h.flush_heap hput hstage
        dsimp only at hs'
        unfold GranuleRegistry.flushWork at hs'
        rw [hg] at hs'
        dsimp only at hs'
        split at hs'
        next hidle =>
          obtain rfl := Option.some_inj.mp hs'
          exact .flush hstage hg hidle
        next => cases hs'
  | free granule unflushed =>
    rw [hstage] at hs'
    obtain rfl := Option.some_inj.mp hs'
    exact .free hstage

/-- A put returns when nothing is left of its array. -/
theorem Consistent.returned (h : s.Consistent) (hput : (s.callers c).put = some put)
    (hstage : put.stage = .detach []) (hrest : put.rest = []) :
    (s.setCaller c { s.callers c with put := none }).Consistent := by
  have hcaller := (stage_of_put hput).trans hstage
  refine h.move ?_ ?_ (fun put' hput' => by cases hput') ?_
  · unfold GranuleCaller.acquired
    rw [hput]
    show _ = _ + (put.rest : Multiset GranulePtr)
    rw [hrest]
    rfl
  · rw [hcaller]
    rfl
  · intro granule hmem
    rw [hcaller] at hmem
    exact absurd hmem List.not_mem_nil

/-- Entries of a round are passed on to the flush. -/
theorem Consistent.allQueued (h : s.Consistent) (hput : (s.callers c).put = some put)
    {queued : List (Option GranulePtr)} (hstage : put.stage = .queueWork queued []) :
    (s.setPut c { put with stage := .flushWork queued }).Consistent := by
  refine h.stage hput rfl rfl ?_ rfl (fun _ hold => Or.inl hold) ?_ ?_
  · simp [GranulesPut.owned, hstage, PutStage.entries]
  · rw [hstage]
    show queued.reduceOption = (queued ++ []).reduceOption
    rw [List.append_nil]
  · intro other _ g _ hmatches
    rw [hstage] at hmatches
    exact ⟨fun hmem => absurd hmem List.not_mem_nil, hmatches.queued,
      fun hmem => absurd hmem List.not_mem_nil⟩

/-- An entry that is null is not queued. -/
theorem Consistent.skipQueue (h : s.Consistent) (hput : (s.callers c).put = some put)
    {queued unqueued : List (Option GranulePtr)}
    (hstage : put.stage = .queueWork queued (none :: unqueued)) :
    (s.setPut c { put with stage := .queueWork (queued ++ [none]) unqueued }).Consistent := by
  refine h.stage hput rfl rfl ?_ rfl (fun _ hold => Or.inl hold) ?_ ?_
  · simp [GranulesPut.owned, hstage, PutStage.entries]
  · rw [hstage]
    show (queued ++ [none] ++ unqueued).reduceOption = (queued ++ none :: unqueued).reduceOption
    rw [List.append_assoc]
    rfl
  · intro other _ g _ hmatches
    rw [hstage] at hmatches
    refine ⟨hmatches.unqueued, fun hmem => hmatches.queued ?_,
      fun hmem => absurd hmem List.not_mem_nil⟩
    have hmem : other ∈ (queued ++ [none]).reduceOption := hmem
    rw [List.reduceOption_append] at hmem
    exact (List.mem_append.mp hmem).resolve_right List.not_mem_nil

/-- The round is over. -/
theorem Consistent.allFlushed (h : s.Consistent) (hput : (s.callers c).put = some put)
    (hstage : put.stage = .flushWork []) :
    (s.setPut c { put with stage := .detach [] }).Consistent := by
  refine h.stage hput rfl rfl ?_ rfl (fun _ hold => Or.inl hold) ?_ ?_
  · simp [GranulesPut.owned, hstage, PutStage.entries]
  · rw [hstage]
    rfl
  · intro other hmem
    rw [hstage] at hmem
    exact absurd hmem List.not_mem_nil

/-- An entry that is null is not flushed. -/
theorem Consistent.skipFlush (h : s.Consistent) (hput : (s.callers c).put = some put)
    {unflushed : List (Option GranulePtr)} (hstage : put.stage = .flushWork (none :: unflushed)) :
    (s.setPut c
      { put with passed := put.passed ++ [none], stage := .flushWork unflushed }).Consistent := by
  refine h.stage hput rfl rfl ?_ rfl ?_ ?_ ?_
  · simp [GranulesPut.owned, hstage, PutStage.entries]
  · intro entry hentry
    exact (List.mem_append.mp hentry).imp id List.mem_singleton.mp
  · rw [hstage]
    rfl
  · intro other _ g _ hmatches
    rw [hstage] at hmatches
    exact ⟨hmatches.unqueued, hmatches.queued, hmatches.flushed⟩

/-- A flush returns: the granule has been queued, and its callback has run. -/
theorem Consistent.flush (h : s.Consistent) (hput : (s.callers c).put = some put)
    {unflushed : List (Option GranulePtr)}
    (hstage : put.stage = .flushWork (some granule :: unflushed)) (hg : s.heap granule = some g)
    (hidle : g.work.idle = true) :
    (s.setPut c { put with stage := .free granule unflushed }).Consistent := by
  refine h.stage hput rfl rfl ?_ rfl (fun _ hold => Or.inl hold) ?_ ?_
  · simp [GranulesPut.owned, hstage, PutStage.entries]
  · rw [hstage]
    rfl
  · intro other _ g' hg' hmatches
    rw [hstage] at hmatches
    refine ⟨hmatches.unqueued, fun hmem => hmatches.queued (List.mem_cons_of_mem _ hmem),
      fun hmem => ?_⟩
    obtain rfl := List.mem_singleton.mp hmem
    obtain rfl := Option.some_inj.mp (hg.symm.trans hg')
    exact idle_of_queued hidle (hmatches.queued List.mem_cons_self)

theorem Consistent.advance (h : s.Consistent) (hput : (s.callers c).put = some put)
    (hs' : s.advance c put = some s') : s'.Consistent := by
  cases h.advances hput hs' with
  | returned hstage hrest => exact h.returned hput hstage hrest
  | batch hstage _ => exact h.detachBatch hput hstage
  | allQueued hstage => exact h.allQueued hput hstage
  | skipQueue hstage => exact h.skipQueue hput hstage
  | queue hstage => exact h.queueWork hput hstage
  | allFlushed hstage => exact h.allFlushed hput hstage
  | skipFlush hstage => exact h.skipFlush hput hstage
  | flush hstage hg hidle => exact h.flush hput hstage hg hidle
  | free hstage => exact h.free hput hstage

end GranuleRegistry

end HyperIoVm
