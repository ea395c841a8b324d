import HyperIoVm.Effects.Points
import HyperIoVm.Exports
import HyperIoVm.Frame

/-!
# Publication of a LUN, all or nothing (`service/block-target.c`)

The objects of a target are made one inside the other, and undone in reverse order. `Above` says
that some objects are those of a base with a stack of directories made on top of it; each step of
`target_create` pushes a directory or writes an attribute below one, and each step of its rollback
pops one. With the mapper around it, a publication ends with everything in place, or with what it
found.
-/

namespace HyperIoVm

open Data Effects Routine

variable {ready : Exports → String → String → Prop} {exclusive rollsBack : Prop} {b : Backend}
  {w : Storage}

/-! ## Objects on top of others -/

namespace Exports

/-- The objects are those of `e` with the directories `dirs` made on top, the last one first. -/
structure Above (e : Exports) (dirs : List String) (e' : Exports) : Prop where
  mappers : e'.mappers = e.mappers
  nodes : e'.nodes = e.nodes
  links : e'.links = e.links
  directories : ∀ d, e'.directories d = (decide (d ∈ dirs) || e.directories d)
  fresh : ∀ d ∈ dirs, e.directories d = false
  nodup : dirs.Nodup
  attributes : ∀ path, (∀ d ∈ dirs, ¬ Under d path) → e'.attributes path = e.attributes path

variable {e e' : Exports} {dirs : List String} {d path : String}

theorem Above.refl (e : Exports) : Above e [] e where
  mappers := rfl
  nodes := rfl
  links := rfl
  directories d := by simp
  fresh d hd := absurd hd List.not_mem_nil
  nodup := List.nodup_nil
  attributes _ _ := rfl

theorem Above.eq (h : Above e [] e') : e' = e := by
  have hdirectories : e'.directories = e.directories := by
    funext d
    rw [h.directories]
    simp
  have hattributes : e'.attributes = e.attributes := by
    funext path
    exact h.attributes path fun d hd => absurd hd List.not_mem_nil
  cases e
  cases e'
  simp only [mk.injEq]
  exact ⟨h.mappers, h.nodes, hdirectories, hattributes, h.links⟩

/-- A directory that did not exist goes on top. -/
theorem Above.makeDirectory (h : Above e dirs e') (hnew : e'.directories d = false) :
    Above e (d :: dirs) (e'.makeDirectory d) := by
  rw [h.directories, Bool.or_eq_false_iff, decide_eq_false_iff_not] at hnew
  obtain ⟨hout, hfresh⟩ := hnew
  refine ⟨h.mappers, h.nodes, h.links, fun x => ?_, ?_, List.nodup_cons.mpr ⟨hout, h.nodup⟩, ?_⟩
  · show Function.update e'.directories d true x = _
    by_cases hx : x = d
    · rw [hx, Function.update_self]
      simp
    · rw [Function.update_of_ne hx, h.directories]
      simp [hx]
  · intro x hx
    obtain rfl | hx := List.mem_cons.mp hx
    · exact hfresh
    · exact h.fresh x hx
  · exact fun path hpath => h.attributes path fun x hx => hpath x (List.mem_cons_of_mem d hx)

/-- An attribute of an object on top. -/
theorem Above.setAttribute (h : Above e dirs e') (hd : d ∈ dirs) (hunder : Under d path)
    (value : String) : Above e dirs (e'.setAttribute path value) := by
  refine ⟨h.mappers, h.nodes, h.links, h.directories, h.fresh, h.nodup, fun other hother => ?_⟩
  have hne : other ≠ path := by
    intro hsame
    exact hother d hd (hsame ▸ hunder)
  show Function.update e'.attributes path (some value) other = _
  rw [Function.update_of_ne hne]
  exact h.attributes other hother

/-- The object on top goes, with all its attributes. -/
theorem Above.removeDirectory (hsound : e.Sound) (h : Above e (d :: dirs) e') :
    Above e dirs (e'.removeDirectory d) := by
  obtain ⟨hout, hnodup⟩ := List.nodup_cons.mp h.nodup
  have hfresh := h.fresh d List.mem_cons_self
  refine ⟨h.mappers, h.nodes, h.links, fun x => ?_, ?_, hnodup, fun path hpath => ?_⟩
  · show Function.update e'.directories d false x = _
    by_cases hx : x = d
    · rw [hx, Function.update_self, hfresh]
      simp [hout]
    · rw [Function.update_of_ne hx, h.directories]
      simp [hx]
  · exact fun x hx => h.fresh x (List.mem_cons_of_mem d hx)
  · show (if Under d path then none else e'.attributes path) = _
    split
    next hunder =>
      exact (hsound d hfresh path hunder).symm
    next hunder =>
      refine h.attributes path fun x hx => ?_
      obtain rfl | hx := List.mem_cons.mp hx
      · exact hunder
      · exact hpath x hx

theorem setMapper_setMapper (e : Exports) (name : String) (m m' : Option Mapper) :
    (e.setMapper name m).setMapper name m' = e.setMapper name m' := by
  unfold setMapper
  rw [Function.update_idem]

theorem setMapper_self (e : Exports) {name : String} {m : Option Mapper} (h : e.mappers name = m) :
    e.setMapper name m = e := by
  unfold setMapper
  rw [← h, Function.update_eq_self]

theorem modifyMapper_setMapper (e : Exports) (name : String) (m : Mapper) (f : Mapper → Mapper) :
    (e.setMapper name (some m)).modifyMapper name f = e.setMapper name (some (f m)) := by
  unfold modifyMapper
  rw [setMapper_setMapper]
  congr 1
  show (Function.update e.mappers name (some m) name).map f = _
  rw [Function.update_self]
  rfl

theorem setNode_setNode (e : Exports) (path : String) (d d' : Option Dev) :
    (e.setNode path d).setNode path d' = e.setNode path d' := by
  unfold setNode
  rw [Function.update_idem]

theorem setNode_self (e : Exports) {path : String} {d : Option Dev} (h : e.nodes path = d) :
    e.setNode path d = e := by
  unfold setNode
  rw [← h, Function.update_eq_self]

end Exports

/-! ## Steps -/

theorem makeDirectory_wp (path : String) :
    (makeDirectory path).wp (storage ready exclusive rollsBack) (fun r b' w' => b' = b ∧
      ((r = .ok ∧ (exclusive → w.directories path = false) ∧
          w'.toExports = w.makeDirectory path) ∨
        (r = .failed ∧ w'.toExports = w.toExports))) b w := by
  rw [makeDirectory, wp_bind]
  refine wp_issue (c := .mkdir path) trivial fun r hr => ?_
  cases r with
  | ok _ => exact ⟨rfl, .inl ⟨rfl, hr.1, rfl⟩⟩
  | error errno => exact ⟨rfl, .inr ⟨rfl, rfl⟩⟩

/-- An attribute may be written although the write is reported as a failure: when the descriptor
does not close. -/
theorem writeAttribute_wp (path value : String) :
    (writeAttribute path value).wp (storage ready exclusive rollsBack) (fun r b' w' => b' = b ∧
      (w'.toExports = w.setAttribute path value ∨
        (r = .failed ∧ w'.toExports = w.toExports))) b w := by
  rw [writeAttribute, wp_bind]
  refine wp_issue (c := .openNode (.attribute path)) trivial fun r _ => ?_
  cases r with
  | error errno => exact ⟨rfl, .inr ⟨rfl, rfl⟩⟩
  | ok fd =>
    rw [wp_bind]
    refine wp_issue (c := .write fd value) trivial fun written _ => ?_
    rw [wp_bind]
    refine wp_issue (c := .close fd) trivial fun closed _ => ?_
    rw [wp_pure]
    refine ⟨rfl, ?_⟩
    cases written with
    | none =>
      exact .inr ⟨if_neg fun h => absurd h.1.symm (Option.some_ne_none _), rfl⟩
    | some written =>
      -- the descriptor that `open` returned is that of the attribute
      have hfile : Function.update w.files fd (some path) fd = some path := Function.update_self ..
      have hstore :
          (Storage.store { w with files := Function.update w.files fd (some path) } fd value
          written).toExports =
          if written = value.utf8ByteSize then w.setAttribute path value else w.toExports := by
        rw [Storage.store]
        dsimp only
        rw [hfile]
        dsimp only
        split <;> rfl
      by_cases hwhole : written = value.utf8ByteSize
      · rw [if_pos hwhole] at hstore
        exact .inl hstore
      · rw [if_neg hwhole] at hstore
        exact .inr ⟨if_neg fun h => hwhole (Option.some_inj.mp h.1), hstore⟩

theorem rmdir_wp (path : String) {Q : Outcome → Backend → Storage → Prop}
    (hok : Q .ok b (w.setExports (w.removeDirectory path)))
    (hfailed : ¬ rollsBack → Q .failed b w) :
    (rmdir path).wp (storage ready exclusive rollsBack) Q b w := by
  refine wp_issue (c := .rmdir path) trivial fun r hr => ?_
  cases r with
  | ok => exact hok
  | failed =>
    refine hfailed fun h => ?_
    have hsame : Outcome.failed = .ok := hr.2 h
    cases hsame

/-! ## The rollback of `target_create` -/

/-- Where the rollback of a target is: the objects that are left to undo are on top of `e`. -/
structure Undoing (e : Exports) (strict : Prop) (dirs : List String) (e' : Exports) : Prop where
  mappers : e'.mappers = e.mappers
  nodes : e'.nodes = e.nodes
  links : e'.links = e.links
  above : strict → e.Above dirs e'

theorem Undoing.refl (e : Exports) (strict : Prop) : Undoing e strict [] e :=
  ⟨rfl, rfl, rfl, fun _ => .refl e⟩

theorem Undoing.setAttribute {e e' : Exports} {strict : Prop} {dirs : List String} {d path : String}
    (h : Undoing e strict dirs e') (hd : d ∈ dirs) (hunder : Under d path) (value : String) :
    Undoing e strict dirs (e'.setAttribute path value) :=
  ⟨h.mappers, h.nodes, h.links, fun hs => (h.above hs).setAttribute hd hunder value⟩

theorem Undoing.makeDirectory {e e' : Exports} {strict : Prop} {dirs : List String} {d : String}
    (h : Undoing e strict dirs e') (hnew : strict → e'.directories d = false) :
    Undoing e strict (d :: dirs) (e'.makeDirectory d) :=
  ⟨h.mappers, h.nodes, h.links, fun hs => (h.above hs).makeDirectory (hnew hs)⟩

theorem Undoing.removeDirectory {e e' : Exports} {strict : Prop} {dirs : List String} {d : String}
    (hsound : strict → e.Sound) (h : Undoing e strict (d :: dirs) e') :
    Undoing e strict dirs (e'.removeDirectory d) :=
  ⟨h.mappers, h.nodes, h.links, fun hs => (h.above hs).removeDirectory (hsound hs)⟩

/-- The objects that the rollback undoes from a stage on. -/
def TargetPaths.undone (p : TargetPaths) (made : Nat) : List String :=
  (if made ≥ 4 then [p.lun] else []) ++ ((if made ≥ 3 then [p.group] else []) ++
    ((if made ≥ 2 then [p.target] else []) ++ (if made ≥ 1 then [p.core] else [])))

section Undo

variable {e : Exports} {strict : Prop} {dirs : List String}

/-- One stage of the rollback. -/
theorem undo_wp {c : Prop} [Decidable c] {path : String} {Q : Outcome → Backend → Storage → Prop}
    (hstrict : strict → rollsBack ∧ e.Sound)
    (h : Undoing e strict ((if c then [path] else []) ++ dirs) w.toExports)
    (hQ : ∀ r w', Undoing e strict dirs w'.toExports → Q r b w') :
    (if c then rmdir path else pure .ok).wp (storage ready exclusive rollsBack) Q b w := by
  rw [wp_ite]
  split
  next hc =>
    rw [if_pos hc] at h
    refine rmdir_wp path ?_ fun hback => ?_
    · exact hQ _ _ (h.removeDirectory fun hs => (hstrict hs).2)
    · exact hQ _ _ ⟨h.mappers, h.nodes, h.links, fun hs => absurd (hstrict hs).1 hback⟩
  next hc =>
    rw [if_neg hc] at h
    exact hQ _ _ h

/-- The nexus is below the group, which is undone after it. -/
theorem undoNexus_wp (p : TargetPaths) (made : Nat)
    (h : Undoing e strict (p.undone made) w.toExports) :
    (if made ≥ 5 then writeAttribute (p.group ++ "/nexus") "NULL\n" else pure .ok).wp
      (storage ready exclusive rollsBack)
      (fun _ b' w' => b' = b ∧ Undoing e strict (p.undone made) w'.toExports) b w := by
  rw [wp_ite]
  split
  next hmade =>
    have hgroup : p.group ∈ p.undone made := by
      rw [TargetPaths.undone, if_pos (show made ≥ 3 from Nat.le_trans (by decide) hmade)]
      simp
    refine wp_mono (writeAttribute_wp (p.group ++ "/nexus") "NULL\n") ?_
    rintro r b' w' ⟨rfl, hwritten | ⟨-, hwritten⟩⟩
    · rw [hwritten]
      exact ⟨rfl, h.setAttribute hgroup (under_append rfl) _⟩
    · rw [hwritten]
      exact ⟨rfl, h⟩
  next => exact ⟨rfl, h⟩

/-- The rollback undoes what was made, and touches nothing else whether it succeeds or not. -/
theorem targetRollback_wp (p : TargetPaths) (made : Nat) (hstrict : strict → rollsBack ∧ e.Sound)
    (h : Undoing e strict (p.undone made) w.toExports) :
    (targetRollback p made).wp (storage ready exclusive rollsBack) (fun r b' w' => b' = b ∧
      r = .failed ∧ Undoing e strict [] w'.toExports) b w := by
  rw [targetRollback, wp_bind]
  refine wp_mono (undoNexus_wp p made h) ?_
  rintro _ b' w₀ ⟨rfl, h₀⟩
  rw [wp_bind]
  refine undo_wp hstrict h₀ fun _ w₁ h₁ => ?_
  rw [wp_bind]
  refine undo_wp hstrict h₁ fun _ w₂ h₂ => ?_
  rw [wp_bind]
  refine undo_wp hstrict h₂ fun _ w₃ h₃ => ?_
  rw [wp_bind]
  rw [← List.append_nil (if made ≥ 1 then [p.core] else [])] at h₃
  refine undo_wp hstrict h₃ fun _ w₄ h₄ => ?_
  exact ⟨rfl, rfl, h₄⟩

end Undo

/-! ## The target -/

/-- The objects of a LUN: all that its symlink makes visible. -/
def lunObjects (client : UInt32) (mapper : String) (readOnly : UInt32) (e : Exports) : Exports :=
  let p := targetPaths client mapper
  let core := e.makeDirectory p.core
  let control := core.setAttribute (p.core ++ "/control")
    s!"udev_path=/dev/mapper/{mapper},readonly={readOnly.toNat}\n"
  let enable := control.setAttribute (p.core ++ "/enable") "1\n"
  let lun := ((enable.makeDirectory p.target).makeDirectory p.group).makeDirectory p.lun
  lun.setAttribute (p.group ++ "/nexus") "naa.5001405000000002\n"

/-- How a step of a publication ends: with `whole`, or with what it started from. -/
def MadeOrUndone (strict : Prop) (e whole : Exports) (r : Outcome) (e' : Exports) : Prop :=
  (r = .ok ∧ e' = whole) ∨ (r = .failed ∧ Undoing e strict [] e')

/-- The backstore is configured and enabled, and the target made. -/
theorem backstore_wp {strict : Prop} {e : Exports} (p : TargetPaths) (value : String)
    (hstrict : strict → exclusive) (h : Undoing e strict [p.core] w.toExports) :
    (firstFailure [writeAttribute (p.core ++ "/control") value,
      writeAttribute (p.core ++ "/enable") "1\n", makeDirectory p.target]).wp
      (storage ready exclusive rollsBack) (fun r b' w' => b' = b ∧
        ((r = .ok ∧ Undoing e strict [p.target, p.core] w'.toExports ∧ w'.toExports =
            ((w.setAttribute (p.core ++ "/control") value).setAttribute (p.core ++ "/enable")
              "1\n").makeDirectory p.target) ∨
          (r = .failed ∧ Undoing e strict [p.core] w'.toExports))) b w := by
  have hcore : p.core ∈ [p.core] := List.mem_singleton_self _
  have hunder : Under p.core (p.core ++ "/control") := under_append rfl
  have hunder' : Under p.core (p.core ++ "/enable") := under_append rfl
  have hcontrol := h.setAttribute hcore hunder value
  have henable := hcontrol.setAttribute hcore hunder' "1\n"
  -- the write to `control`; a write that is reported as a failure may have taken place
  refine firstFailure_cons (wp_mono (writeAttribute_wp _ _) ?_)
  intro r b₁ w₁ h₁
  obtain ⟨rfl, hw₁⟩ := h₁
  split
  · refine ⟨rfl, .inr ⟨rfl, ?_⟩⟩
    obtain hw₁ | ⟨-, hw₁⟩ := hw₁
    · rw [hw₁]; exact hcontrol
    · rw [hw₁]; exact h
  rename_i hok
  obtain hw₁ | ⟨hfailed, -⟩ := hw₁
  swap
  · exact absurd hfailed hok
  -- the write to `enable`
  refine firstFailure_cons (wp_mono (writeAttribute_wp _ _) ?_)
  intro r b₂ w₂ h₂
  rw [hw₁] at h₂
  obtain ⟨rfl, hw₂⟩ := h₂
  split
  · refine ⟨rfl, .inr ⟨rfl, ?_⟩⟩
    obtain hw₂ | ⟨-, hw₂⟩ := hw₂
    · rw [hw₂]; exact henable
    · rw [hw₂]; exact hcontrol
  rename_i hok
  obtain hw₂ | ⟨hfailed, -⟩ := hw₂
  swap
  · exact absurd hfailed hok
  -- the directory of the target
  refine firstFailure_cons (wp_mono (makeDirectory_wp _) ?_)
  intro r b₃ w₃ h₃
  rw [hw₂] at h₃
  obtain ⟨rfl, ⟨rfl, hnew, hw₃⟩ | ⟨rfl, hw₃⟩⟩ := h₃
  · rw [if_neg (by decide)]
    refine ⟨rfl, .inl ⟨rfl, ?_, hw₃⟩⟩
    rw [hw₃]
    exact henable.makeDirectory fun hs => hnew (hstrict hs)
  · rw [if_pos rfl]
    refine ⟨rfl, .inr ⟨rfl, ?_⟩⟩
    rw [hw₃]
    exact henable

/-- `target_create` makes all of its objects and then the symlink, or undoes what it made. -/
theorem targetCreate_wp {strict : Prop} (client : UInt32) (mapper : String) (readOnly : UInt32)
    (hstrict : strict → exclusive ∧ rollsBack ∧ w.Sound)
    (hready : ready (lunObjects client mapper readOnly w.toExports)
      (targetPaths client mapper).core ((targetPaths client mapper).lun ++ "/disk")) :
    (targetCreate client mapper readOnly).wp (storage ready exclusive rollsBack)
      (fun r b' w' => b' = b ∧ MadeOrUndone strict w.toExports
        ((lunObjects client mapper readOnly w.toExports).makeLink (targetPaths client mapper).core
          ((targetPaths client mapper).lun ++ "/disk")) r w'.toExports) b w := by
  rw [targetCreate]
  unfold lunObjects at hready ⊢
  generalize targetPaths client mapper = p at hready ⊢
  dsimp only at hready ⊢
  generalize hwhole : Exports.makeLink _ p.core (p.lun ++ "/disk") = whole
  -- a failure from here on is answered by removing what has been made
  have hundo {made : Nat} {w₁ : Storage}
      (h : Undoing w.toExports strict (p.undone made) w₁.toExports) :
      (targetRollback p made).wp (storage ready exclusive rollsBack) (fun r b' w' => b' = b ∧
        MadeOrUndone strict w.toExports whole r w'.toExports) b w₁ := by
    refine wp_mono (targetRollback_wp p made (fun hs => (hstrict hs).2) h) ?_
    intro r b' w' hpost
    exact ⟨hpost.1, .inr hpost.2⟩
  -- the backstore
  rw [wp_bind]
  refine wp_mono (makeDirectory_wp p.core) ?_
  intro r b₁ w₁ h₁
  obtain ⟨rfl, ⟨rfl, hnew₁, hw₁⟩ | ⟨rfl, hw₁⟩⟩ := h₁
  swap
  · rw [wp_ite, if_pos rfl]
    refine ⟨rfl, .inr ⟨rfl, ?_⟩⟩
    rw [hw₁]
    exact .refl _ _
  have hundoing₁ : Undoing w.toExports strict (p.undone 1) w₁.toExports := by
    rw [hw₁]
    exact (Undoing.refl w.toExports strict).makeDirectory fun hs => hnew₁ (hstrict hs).1
  -- its `control` and `enable`, and the target
  rw [wp_ite, if_neg (by decide), wp_bind]
  refine wp_mono (backstore_wp p _ (fun hs => (hstrict hs).1) hundoing₁) ?_
  intro r b₂ w₂ h₂
  obtain ⟨rfl, ⟨rfl, hundoing₂, hw₂⟩ | ⟨rfl, hundoing₂⟩⟩ := h₂
  swap
  · rw [wp_ite, if_pos rfl]
    exact hundo hundoing₂
  -- the portal group
  rw [wp_ite, if_neg (by decide), wp_bind]
  refine wp_mono (makeDirectory_wp p.group) ?_
  intro r b₃ w₃ h₃
  obtain ⟨rfl, ⟨rfl, hnew₃, hw₃⟩ | ⟨rfl, hw₃⟩⟩ := h₃
  swap
  · rw [wp_ite, if_pos rfl]
    exact hundo (hw₃ ▸ hundoing₂)
  have hundoing₃ : Undoing w.toExports strict (p.undone 3) w₃.toExports := by
    rw [hw₃]
    exact hundoing₂.makeDirectory fun hs => hnew₃ (hstrict hs).1
  -- the LUN
  rw [wp_ite, if_neg (by decide), wp_bind]
  refine wp_mono (makeDirectory_wp p.lun) ?_
  intro r b₄ w₄ h₄
  obtain ⟨rfl, ⟨rfl, hnew₄, hw₄⟩ | ⟨rfl, hw₄⟩⟩ := h₄
  swap
  · rw [wp_ite, if_pos rfl]
    exact hundo (hw₄ ▸ hundoing₃)
  have hundoing₄ : Undoing w.toExports strict (p.undone 4) w₄.toExports := by
    rw [hw₄]
    exact hundoing₃.makeDirectory fun hs => hnew₄ (hstrict hs).1
  -- the nexus
  have hgroup : p.group ∈ p.undone 4 := by simp [TargetPaths.undone]
  have hunder : Under p.group (p.group ++ "/nexus") := under_append rfl
  have hundoing₅ := hundoing₄.setAttribute hgroup hunder "naa.5001405000000002\n"
  rw [wp_ite, if_neg (by decide), wp_bind]
  refine wp_mono (writeAttribute_wp (p.group ++ "/nexus") "naa.5001405000000002\n") ?_
  intro r b₅ w₅ h₅
  obtain ⟨rfl, hw₅⟩ := h₅
  rw [wp_ite]
  split
  · obtain hw₅ | ⟨-, hw₅⟩ := hw₅
    · exact hundo (hw₅ ▸ hundoing₅)
    · exact hundo (hw₅ ▸ hundoing₄)
  rename_i hok
  obtain hw₅ | ⟨hfailed, -⟩ := hw₅
  swap
  · exact absurd hfailed hok
  rw [← hw₅] at hundoing₅
  have hundoing₅ : Undoing w.toExports strict (p.undone 5) w₅.toExports := hundoing₅
  -- all that the link needs is there
  rw [hw₄, hw₃, hw₂, hw₁] at hw₅
  rw [← hw₅] at hready hwhole
  rw [wp_bind]
  refine wp_issue (c := .symlink p.core (p.lun ++ "/disk")) hready fun r _ => ?_
  cases r with
  | ok =>
    rw [wp_ite, if_neg (by decide)]
    exact ⟨rfl, .inl ⟨rfl, hwhole⟩⟩
  | failed =>
    rw [wp_ite, if_pos rfl]
    exact hundo hundoing₅

/-! ## The mapper -/

/-- The device of a range, with its table live. -/
def mapperOf (device : Dev) (table : DmTable) : Mapper :=
  { device, live := some table, readOnly := table.readOnly }

/-- The table is loaded, made live, and the node made. -/
theorem mapperLive_wp {e : Exports} (control : Fd) (name : String) (device : Dev) (table : DmTable)
    (h : w.toExports = e.setMapper name (some { device })) :
    (firstFailure [ioctl control (.dmTableLoad name table),
      ioctl control (.dmDevSuspend name table.readOnly), mknod ("/dev/mapper/" ++ name) device]).wp
      (storage ready exclusive rollsBack) (fun r b' w' => b' = b ∧
        ((r = .ok ∧ (exclusive → e.nodes ("/dev/mapper/" ++ name) = none) ∧ w'.toExports =
            (e.setMapper name (some (mapperOf device table))).setNode ("/dev/mapper/" ++ name)
              (some device)) ∨
          (r = .failed ∧ ∃ m, w'.toExports = e.setMapper name (some m)))) b w := by
  -- load the table
  refine firstFailure_cons (wp_issue_ioctl trivial fun r _ => ?_)
  cases r with
  | failed =>
    rw [if_pos rfl]
    exact ⟨rfl, .inr ⟨rfl, _, h⟩⟩
  | ok =>
    rw [if_neg (by decide)]
    have hloaded : w.modifyMapper name (fun m => { m with loaded := some table }) =
        e.setMapper name (some { device, loaded := some table }) := by
      rw [h, Exports.modifyMapper_setMapper]
    -- make it live
    refine firstFailure_cons (wp_issue_ioctl trivial fun r _ => ?_)
    cases r with
    | failed =>
      rw [if_pos rfl]
      exact ⟨rfl, .inr ⟨rfl, _, hloaded⟩⟩
    | ok =>
      rw [if_neg (by decide)]
      have hlive :
          (w.modifyMapper name (fun m => { m with loaded := some table })).modifyMapper name
          (fun m =>
            { m with loaded := none, live := m.loaded.or m.live, readOnly := table.readOnly }) =
          e.setMapper name (some (mapperOf device table)) := by
        rw [hloaded, Exports.modifyMapper_setMapper]
        rfl
      -- its node
      refine firstFailure_cons (wp_issue (c := .mknod _ _) trivial fun r hr => ?_)
      cases r with
      | failed =>
        rw [if_pos rfl]
        exact ⟨rfl, .inr ⟨rfl, _, hlive⟩⟩
      | ok =>
        rw [if_neg (by decide)]
        refine ⟨rfl, .inl ⟨rfl, fun hx => ?_, ?_⟩⟩
        · have hnode :
              (((w.modifyMapper name fun m => { m with loaded := some table }).modifyMapper name
              fun m => { m with loaded := none, live := m.loaded.or m.live,
                                readOnly := table.readOnly }).nodes
                                  ("/dev/mapper/" ++ name)).isSome = false :=
            hr.1 hx
          rw [hlive, Option.isSome_eq_false_iff, Option.isNone_iff_eq_none] at hnode
          exact hnode
        · rw [← hlive]
          rfl

/-- `mapper_create` makes the device and its node, or removes the device again. -/
theorem mapperCreate_wp (control : Fd) (name : String) (disk : Dev) (logical : UInt32)
    (range : BlockRange) :
    (mapperCreate control name disk logical range).wp (storage ready exclusive rollsBack)
      (fun r b' w' => b' = b ∧
        ((r = .ok ∧ (exclusive → w.mappers name = none ∧ w.nodes ("/dev/mapper/" ++ name) = none) ∧
            ∃ device, w'.toExports =
              (w.setMapper name (some (mapperOf device (mapperTable disk logical range)))).setNode
                ("/dev/mapper/" ++ name) (some device)) ∨
          (r = .failed ∧ ∃ mapper, w'.toExports = w.setMapper name mapper ∧
            (exclusive ∧ rollsBack → w.mappers name = mapper)))) b w := by
  rw [mapperCreate, wp_bind]
  refine wp_issue (c := .dmDevCreate control name) trivial fun r hr => ?_
  cases r with
  | none => exact ⟨rfl, .inr ⟨rfl, w.mappers name, (w.setMapper_self rfl).symm, fun _ => rfl⟩⟩
  | some device =>
    -- the name was free, or the ioctl would have failed
    have hfree (hx : exclusive) : w.mappers name = none :=
      Option.isNone_iff_eq_none.mp (Option.isSome_eq_false_iff.mp (hr.1 hx))
    rw [wp_bind]
    refine wp_mono (mapperLive_wp control name device (mapperTable disk logical range) rfl) ?_
    intro r b₁ w₁ h₁
    obtain ⟨rfl, ⟨rfl, hnode, hw₁⟩ | ⟨rfl, m, hw₁⟩⟩ := h₁
    · -- the device is there, and its node
      rw [wp_ite, if_pos rfl]
      exact ⟨rfl, .inl ⟨rfl, fun hx => ⟨hfree hx, hnode hx⟩, device, hw₁⟩⟩
    · rw [wp_ite, if_neg (by decide), wp_bind]
      refine wp_issue_ioctl trivial fun r hr' => ?_
      cases r with
      | ok =>
        -- the device was removed again
        refine ⟨rfl, .inr ⟨rfl, none, ?_, fun hs => hfree hs.1⟩⟩
        show w₁.setMapper name none = _
        rw [hw₁, Exports.setMapper_setMapper]
      -- it can stay only when the removal fails
      | failed =>
        refine ⟨rfl, .inr ⟨rfl, some m, hw₁, fun hs => ?_⟩⟩
        have hsame : Outcome.failed = .ok := hr'.2 hs.2
        cases hsame

/-- What a failed publication leaves: no link, and only its own device and node to clean up. -/
structure Unexported (name : String) (e e' : Exports) : Prop where
  links : e'.links = e.links
  mappers : ∀ other, other ≠ name → e'.mappers other = e.mappers other
  nodes : ∀ path, path ≠ "/dev/mapper/" ++ name → e'.nodes path = e.nodes path

theorem unexported_setMapper (e : Exports) (name : String) (m : Option Mapper) :
    Unexported name e (e.setMapper name m) :=
  ⟨rfl, fun _ hne => Function.update_of_ne hne .., fun _ _ => rfl⟩

theorem unexported_setNode (e : Exports) (name : String) (d : Option Dev) :
    Unexported name e (e.setNode ("/dev/mapper/" ++ name) d) :=
  ⟨rfl, fun _ _ => rfl, fun _ hne => Function.update_of_ne hne ..⟩

theorem Unexported.trans {name : String} {e e₁ e₂ : Exports} (h : Unexported name e e₁)
    (h' : Unexported name e₁ e₂) : Unexported name e e₂ where
  links := h'.links.trans h.links
  mappers other hne := (h'.mappers other hne).trans (h.mappers other hne)
  nodes path hne := (h'.nodes path hne).trans (h.nodes path hne)

theorem Undoing.unexported {strict : Prop} {dirs : List String} {e e' : Exports}
    (h : Undoing e strict dirs e') (name : String) : Unexported name e e' where
  links := h.links
  mappers other _ := congrFun h.mappers other
  nodes path _ := congrFun h.nodes path

/-- The target of a mapper, or neither of the two. -/
theorem exportMapper_wp (strict : Prop) (control : Fd) (client : UInt32) (mapper : String)
    (readOnly : UInt32) (hstrict : strict → exclusive ∧ rollsBack ∧ w.Sound)
    (hready : ready (lunObjects client mapper readOnly w.toExports)
      (targetPaths client mapper).core ((targetPaths client mapper).lun ++ "/disk")) :
    (exportMapper control client mapper readOnly).wp (storage ready exclusive rollsBack)
      (fun r b' w' => b' = b ∧
        ((r = .ok ∧ w'.toExports = (lunObjects client mapper readOnly w.toExports).makeLink
            (targetPaths client mapper).core ((targetPaths client mapper).lun ++ "/disk")) ∨
          (r = .failed ∧ Unexported mapper w.toExports w'.toExports ∧
            (strict → w'.toExports =
              (w.setMapper mapper none).setNode ("/dev/mapper/" ++ mapper) none)))) b w := by
  rw [exportMapper, wp_bind]
  refine wp_mono (targetCreate_wp client mapper readOnly hstrict hready) ?_
  intro r b₁ w₁ h₁
  obtain ⟨rfl, ⟨rfl, hw₁⟩ | ⟨rfl, hundone⟩⟩ := h₁
  · -- the target exports the mapper
    rw [wp_ite, if_pos rfl]
    exact ⟨rfl, .inl ⟨rfl, hw₁⟩⟩
  -- else the mapper and its node are removed
  have hleft := hundone.unexported mapper
  have hback (hs : strict) : w₁.toExports = w.toExports := (hundone.above hs).eq
  rw [wp_ite, if_neg (by decide), wp_bind]
  refine wp_issue_ioctl trivial fun r hr => ?_
  cases r with
  | failed =>
    rw [wp_ite, if_pos rfl]
    refine ⟨rfl, .inr ⟨rfl, hleft, fun hs => ?_⟩⟩
    have hsame : Outcome.failed = .ok := hr.2 (hstrict hs).2.1
    cases hsame
  | ok =>
    rw [wp_ite, if_neg (by decide), wp_bind]
    refine wp_issue (c := .unlink ("/dev/mapper/" ++ mapper)) trivial fun r hr' => ?_
    have hremoved := hleft.trans (unexported_setMapper w₁.toExports mapper none)
    cases r with
    | failed =>
      refine ⟨rfl, .inr ⟨rfl, hremoved, fun hs => ?_⟩⟩
      have hsame : Outcome.failed = .ok := hr'.2 (hstrict hs).2.1
      cases hsame
    | ok =>
      refine ⟨rfl, .inr ⟨rfl, hremoved.trans (unexported_setNode _ mapper none), fun hs => ?_⟩⟩
      show (w₁.setMapper mapper none).setNode ("/dev/mapper/" ++ mapper) none = _
      rw [hback hs]

/-! ## The shared parents -/

/-- The directories that the clients share. -/
def sharedParents : List String :=
  ["/dev/mapper", "/sys/kernel/config/target/core/iblock_0", "/sys/kernel/config/target/vhost"]

/-- Only shared parents have been made. -/
structure ParentsMade (e e' : Exports) : Prop where
  mappers : e'.mappers = e.mappers
  nodes : e'.nodes = e.nodes
  attributes : e'.attributes = e.attributes
  links : e'.links = e.links
  directories : ∀ d, d ∉ sharedParents → e'.directories d = e.directories d
  grows : ∀ d, e.directories d = true → e'.directories d = true

theorem ParentsMade.refl (e : Exports) : ParentsMade e e :=
  ⟨rfl, rfl, rfl, rfl, fun _ _ => rfl, fun _ h => h⟩

theorem ParentsMade.makeDirectory {e e' : Exports} {path : String} (h : ParentsMade e e')
    (hpath : path ∈ sharedParents) : ParentsMade e (e'.makeDirectory path) := by
  refine ⟨h.mappers, h.nodes, h.attributes, h.links, fun d hd => ?_, fun d hd => ?_⟩
  · have hne : d ≠ path := by
      intro hsame
      exact hd (hsame ▸ hpath)
    show Function.update e'.directories path true d = _
    rw [Function.update_of_ne hne]
    exact h.directories d hd
  · show Function.update e'.directories path true d = true
    rw [Function.update_apply]
    split
    · rfl
    · exact h.grows d hd

theorem ParentsMade.sound {e e' : Exports} (h : ParentsMade e e') (hsound : e.Sound) :
    e'.Sound := by
  intro directory hdirectory path hunder
  rw [h.attributes]
  refine hsound directory ?_ path hunder
  rw [← Bool.not_eq_true] at hdirectory ⊢
  exact fun htrue => hdirectory (h.grows directory htrue)

theorem sharedParents_wp {e : Exports} (h : ParentsMade e w.toExports) :
    (firstFailure (sharedParents.map makeSharedDirectory)).wp (storage ready exclusive rollsBack)
      (fun _ b' w' => b' = b ∧ ParentsMade e w'.toExports) b w := by
  have hall : ∀ paths : List String, (∀ path ∈ paths, path ∈ sharedParents) → ∀ w : Storage,
      ParentsMade e w.toExports →
      (firstFailure (paths.map makeSharedDirectory)).wp (storage ready exclusive rollsBack)
        (fun _ b' w' => b' = b ∧ ParentsMade e w'.toExports) b w := by
    intro paths
    induction paths with
    | nil => exact fun _ w hw => ⟨rfl, hw⟩
    | cons path paths ih =>
      intro hpaths w hw
      refine firstFailure_cons ?_
      rw [makeSharedDirectory, wp_bind]
      refine wp_issue (c := .mkdir path) trivial fun r _ => ?_
      have hrest := ih fun path hpath => hpaths path (List.mem_cons_of_mem _ hpath)
      cases r with
      | ok _ =>
        have hmade := hw.makeDirectory (hpaths path List.mem_cons_self)
        exact hrest _ hmade
      | error errno =>
        rw [wp_pure]
        by_cases hexists : errno = .eexist
        · rw [if_pos hexists, if_neg (by decide)]
          exact hrest w hw
        · rw [if_neg hexists, if_pos rfl]
          exact ⟨rfl, hw⟩
  exact hall sharedParents (fun _ h => h) w h

/-! ## The publication -/

/-- All that a published LUN of a client consists of, but for the symlink that makes it visible. -/
structure LunReady (client : UInt32) (table : DmTable) (readOnly : UInt32) (e : Exports) :
    Prop where
  mapper : ∃ device, e.mappers (mapperName client) = some (mapperOf device table) ∧
    e.nodes ("/dev/mapper/" ++ mapperName client) = some device
  core : e.directories (targetPaths client (mapperName client)).core = true
  control : e.attributes ((targetPaths client (mapperName client)).core ++ "/control") =
    some s!"udev_path=/dev/mapper/{mapperName client},readonly={readOnly.toNat}\n"
  enable : e.attributes ((targetPaths client (mapperName client)).core ++ "/enable") = some "1\n"
  target : e.directories (targetPaths client (mapperName client)).target = true
  group : e.directories (targetPaths client (mapperName client)).group = true
  lun : e.directories (targetPaths client (mapperName client)).lun = true
  nexus : e.attributes ((targetPaths client (mapperName client)).group ++ "/nexus") =
    some "naa.5001405000000002\n"

theorem directories_makeDirectory {e : Exports} {d : String} (path : String)
    (h : e.directories d = true) : (e.makeDirectory path).directories d = true := by
  show Function.update e.directories path true d = true
  rw [Function.update_apply]
  split
  · rfl
  · exact h

theorem directories_made (e : Exports) (path : String) :
    (e.makeDirectory path).directories path = true := Function.update_self ..

theorem attributes_set (e : Exports) (path value : String) :
    (e.setAttribute path value).attributes path = some value := Function.update_self ..

theorem attributes_of_ne {e : Exports} {path other : String} (value : String) (h : other ≠ path) :
    (e.setAttribute path value).attributes other = e.attributes other := Function.update_of_ne h ..

theorem core_ne_group (client : UInt32) (mapper name name' : String) :
    (targetPaths client mapper).core ++ name ≠ (targetPaths client mapper).group ++ name' := by
  intro h
  rw [← String.toList_inj] at h
  have hcore : ∃ rest, ((targetPaths client mapper).core ++ name).toList =
      "/sys/kernel/config/target/core/iblock_0/".toList ++ rest := by
    refine ⟨mapper.toList ++ name.toList, ?_⟩
    rw [← List.append_assoc, ← String.toList_append, ← String.toList_append]
    rfl
  have hgroup : ∃ rest, ((targetPaths client mapper).group ++ name').toList =
      "/sys/kernel/config/target/vhost/naa.5001405".toList ++ rest := by
    refine ⟨(hex9 client.toNat ++ "/tpgt_1" ++ name').toList, ?_⟩
    rw [← String.toList_append, ← String.append_assoc, ← String.append_assoc]
    rfl
  obtain ⟨rest, hrest⟩ := hcore
  obtain ⟨rest', hrest'⟩ := hgroup
  rw [hrest, hrest'] at h
  have hprefix := congrArg (List.take 27) h
  rw [List.take_append_of_le_length (by decide),
    List.take_append_of_le_length (by decide)] at hprefix
  revert hprefix
  decide

theorem directories_setAttribute (e : Exports) (path value : String) :
    (e.setAttribute path value).directories = e.directories := rfl

theorem directories_lunObjects (client : UInt32) (mapper : String) (readOnly : UInt32)
    (e : Exports) :
    (lunObjects client mapper readOnly e).directories =
      ((((e.makeDirectory (targetPaths client mapper).core).makeDirectory
        (targetPaths client mapper).target).makeDirectory
          (targetPaths client mapper).group).makeDirectory
        (targetPaths client mapper).lun).directories := by
  rw [lunObjects, directories_setAttribute]
  rfl

theorem lunObjects_ready {e : Exports} {client : UInt32} {table : DmTable} {device : Dev}
    (readOnly : UInt32)
    (hmapper : e.mappers (mapperName client) = some (mapperOf device table))
    (hnode : e.nodes ("/dev/mapper/" ++ mapperName client) = some device) :
    LunReady client table readOnly (lunObjects client (mapperName client) readOnly e) := by
  have hcontrol : (targetPaths client (mapperName client)).core ++ "/control" ≠
      (targetPaths client (mapperName client)).core ++ "/enable" := by
    rw [Ne, String.append_right_inj]
    decide
  refine ⟨⟨device, hmapper, hnode⟩, ?_, ?_, ?_, ?_, ?_, ?_, ?_⟩
  · rw [directories_lunObjects]
    exact directories_makeDirectory _ (directories_makeDirectory _ (directories_makeDirectory _
      (directories_made _ _)))
  · rw [lunObjects, attributes_of_ne _ (core_ne_group _ _ _ _)]
    exact (attributes_of_ne _ hcontrol).trans (attributes_set ..)
  · rw [lunObjects, attributes_of_ne _ (core_ne_group _ _ _ _)]
    exact attributes_set ..
  · rw [directories_lunObjects]
    exact directories_makeDirectory _ (directories_makeDirectory _ (directories_made _ _))
  · rw [directories_lunObjects]
    exact directories_makeDirectory _ (directories_made _ _)
  · rw [directories_lunObjects]
    exact directories_made _ _
  · exact attributes_set ..

/-- A client's device with its node, and the objects of its LUN. -/
def lunBuilt (client : UInt32) (device : Dev) (table : DmTable) (readOnly : UInt32) (e : Exports) :
    Exports :=
  lunObjects client (mapperName client) readOnly
    ((e.setMapper (mapperName client) (some (mapperOf device table))).setNode
      ("/dev/mapper/" ++ mapperName client) (some device))

theorem lunBuilt_ready (client : UInt32) (device : Dev) (table : DmTable) (readOnly : UInt32)
    (e : Exports) : LunReady client table readOnly (lunBuilt client device table readOnly e) :=
  lunObjects_ready readOnly (Function.update_self ..) (Function.update_self ..)

theorem ParentsMade.unexported {e e' : Exports} (h : ParentsMade e e') (name : String) :
    Unexported name e e' :=
  ⟨h.links, fun other _ => congrFun h.mappers other, fun path _ => congrFun h.nodes path⟩

/-- A device and its node that did not exist come and go. -/
theorem mapper_borrowed {e : Exports} {name path : String} (m : Mapper) (d : Dev)
    (hmapper : e.mappers name = none) (hnode : e.nodes path = none) :
    ((((e.setMapper name (some m)).setNode path (some d)).setMapper name none).setNode path none) =
      e := by
  have hswap : ((e.setMapper name (some m)).setNode path (some d)).setMapper name none =
      (((e.setMapper name (some m)).setMapper name none).setNode path (some d)) := rfl
  rw [hswap, Exports.setNode_setNode, Exports.setMapper_setMapper, e.setMapper_self hmapper,
    e.setNode_self hnode]

/-- A publication makes everything and last its symlink, or leaves what it found. -/
theorem blockTargetPublish_wp (client : UInt32) (disk : Dev) (logical : UInt32) (range : BlockRange)
    (hready : ∀ e device, ParentsMade w.toExports e →
      ready (lunBuilt client device (mapperTable disk logical range) range.readOnly e)
        (targetPaths client (mapperName client)).core (lunSymlink client)) :
    (blockTargetPublish client disk logical range).wp (storage ready exclusive rollsBack)
      (fun r b' w' => b' = b ∧
        ((r = .ok ∧ ∃ e device, ParentsMade w.toExports e ∧ w'.toExports =
            (lunBuilt client device (mapperTable disk logical range) range.readOnly e).makeLink
              (targetPaths client (mapperName client)).core (lunSymlink client)) ∨
          (r = .failed ∧ Unexported (mapperName client) w.toExports w'.toExports ∧
            (exclusive → ∀ path device, w.nodes path = some device →
              w'.nodes path = some device) ∧
            (exclusive ∧ rollsBack ∧ w.Sound → ParentsMade w.toExports w'.toExports)))) b w := by
  -- a failure before the mapper has changed only the shared parents
  have hkept {w' : Storage} (h : ParentsMade w.toExports w'.toExports) :
      Unexported (mapperName client) w.toExports w'.toExports ∧
        (exclusive → ∀ path device, w.nodes path = some device → w'.nodes path = some device) ∧
        (exclusive ∧ rollsBack ∧ w.Sound → ParentsMade w.toExports w'.toExports) := by
    refine ⟨h.unexported _, fun _ path device hnode => ?_, fun _ => h⟩
    rw [h.nodes]
    exact hnode
  rw [blockTargetPublish, wp_bind]
  -- the shared parents
  refine wp_mono (sharedParents_wp (.refl w.toExports)) ?_
  intro r b₁ w₁ h₁
  obtain ⟨rfl, hparents⟩ := h₁
  rw [wp_ite]
  split
  · exact ⟨rfl, .inr ⟨rfl, hkept hparents⟩⟩
  rw [wp_bind]
  -- the control node of the device mapper
  refine wp_issue (c := .openNode .mapperControl) trivial fun r _ => ?_
  cases r with
  | error errno => exact ⟨rfl, .inr ⟨rfl, hkept hparents⟩⟩
  | ok control =>
    rw [wp_bind]
    refine wp_mono (mapperCreate_wp (w := w₁) control (mapperName client) disk logical range) ?_
    intro r b₂ w₂ h₂
    obtain ⟨rfl, ⟨rfl, hnew, device, hw₂⟩ | ⟨rfl, m, hw₂, hsame⟩⟩ := h₂
    · -- the mapper is there, so it is exported
      rw [wp_bind, wp_ite, if_pos rfl]
      have hsound (hs : exclusive ∧ rollsBack ∧ w.Sound) : w₂.Sound := by
        rw [hw₂]
        exact hparents.sound hs.2.2
      have hmade : Unexported (mapperName client) w.toExports w₂.toExports := by
        rw [hw₂]
        exact (hparents.unexported _).trans ((unexported_setMapper _ _ _).trans
          (unexported_setNode _ _ _))
      have hlink : ready (lunObjects client (mapperName client) range.readOnly w₂.toExports)
          (targetPaths client (mapperName client)).core (lunSymlink client) := by
        rw [hw₂]
        exact hready w₁.toExports device hparents
      refine wp_mono (exportMapper_wp (exclusive ∧ rollsBack ∧ w.Sound) control client
        (mapperName client) range.readOnly (fun hs => ⟨hs.1, hs.2.1, hsound hs⟩) hlink) ?_
      intro r b₃ w₃ h₃
      rw [wp_bind]
      refine wp_issue (c := .close control) trivial fun _ _ => ?_
      obtain ⟨rfl, ⟨rfl, hw₃⟩ | ⟨rfl, hleft, hback⟩⟩ := h₃
      · refine ⟨rfl, .inl ⟨rfl, w₁.toExports, device, hparents, ?_⟩⟩
        rw [hw₂] at hw₃
        exact hw₃
      · refine ⟨rfl, .inr ⟨rfl, hmade.trans hleft, fun hx path node hnode => ?_, fun hs => ?_⟩⟩
        · -- no node that was there is that of the mapper
          have hne : path ≠ "/dev/mapper/" ++ mapperName client := by
            intro hpath
            rw [hpath, ← hparents.nodes, (hnew hx).2] at hnode
            cases hnode
          exact ((hmade.trans hleft).nodes path hne).trans hnode
        · have hback := hback hs
          rw [hw₂, mapper_borrowed _ _ (hnew hs.1).1 (hnew hs.1).2] at hback
          show ParentsMade w.toExports w₃.toExports
          rw [hback]
          exact hparents
    · -- no mapper: its name is as it was before
      rw [wp_bind, wp_ite, if_neg (by decide), wp_pure, wp_bind]
      refine wp_issue (c := .close control) trivial fun _ _ => ?_
      refine ⟨rfl, .inr ⟨rfl, ?_, fun _ path node hnode => ?_, fun hs => ?_⟩⟩
      · show Unexported _ w.toExports w₂.toExports
        rw [hw₂]
        exact (hparents.unexported _).trans (unexported_setMapper _ _ _)
      · show w₂.nodes path = some node
        rw [hw₂]
        exact (congrFun hparents.nodes path).trans hnode
      · show ParentsMade w.toExports w₂.toExports
        rw [hw₂, Exports.setMapper_self _ (hsame ⟨hs.1, hs.2.1⟩)]
        exact hparents

/-! ## The symlink comes last -/

/-- A routine that succeeds ends with the event `last`. -/
def EndsWith (last : Event Sys) (m : Service Outcome) : Prop :=
  ∀ b h, m.wp (.history Sys) (fun r _ h' => r = .ok → ∃ es, h' = h ++ es ++ [last]) b h

namespace EndsWith

variable {last : Event Sys} {m m' : Service Outcome}

theorem fails : EndsWith last (pure .failed) := by
  intro b h hok
  cases hok

theorem bind {α : Type} {m : Service α} {f : α → Service Outcome} (hf : ∀ a, EndsWith last (f a)) :
    EndsWith last (m >>= f) := by
  intro b h
  rw [wp_bind]
  refine wp_mono (wp_history m b h) ?_
  rintro a b₁ _ ⟨es, rfl⟩
  refine wp_mono (hf a b₁ (h ++ es)) fun r b' h' hr hok => ?_
  obtain ⟨es', hes'⟩ := hr hok
  exact ⟨es ++ es', by rw [hes', List.append_assoc h]⟩

/-- What follows is only reached when `m` fails. -/
theorem orElse {f : Outcome → Service Outcome} (hm : EndsWith last m) (hok : f .ok = pure .ok)
    (hfailed : EndsWith last (f .failed)) : EndsWith last (m >>= f) := by
  intro b h
  rw [wp_bind]
  refine wp_mono (wp_and (hm b h) (wp_history m b h)) ?_
  rintro r b' _ ⟨hr, es, rfl⟩
  cases r with
  | ok =>
    rw [hok]
    exact hr
  | failed =>
    refine wp_mono (hfailed b' (h ++ es)) fun r b' h' hr hok => ?_
    obtain ⟨es', hes'⟩ := hr hok
    exact ⟨es ++ es', by rw [hes', List.append_assoc h]⟩

theorem ite {c : Prop} [Decidable c] (h : c → EndsWith last m) (h' : ¬ c → EndsWith last m') :
    EndsWith last (if c then m else m') := by
  split
  next hc =>
    exact h hc
  next hc =>
    exact h' hc

theorem symlink (target path : String) :
    EndsWith ⟨.symlink target path, Outcome.ok⟩ (symlink target path) := by
  intro b h
  refine wp_issue (c := .symlink target path) trivial fun r _ hok => ?_
  exact ⟨[], by rw [hok, List.append_nil]; rfl⟩

end EndsWith

theorem targetRollback_fails (last : Event Sys) (p : TargetPaths) (made : Nat) :
    EndsWith last (targetRollback p made) :=
  .bind fun _ => .bind fun _ => .bind fun _ => .bind fun _ => .bind fun _ => .fails

theorem targetCreate_endsWith (client : UInt32) (mapper : String) (readOnly : UInt32) :
    EndsWith ⟨.symlink (targetPaths client mapper).core
      ((targetPaths client mapper).lun ++ "/disk"),
      Outcome.ok⟩ (targetCreate client mapper readOnly) := by
  rw [targetCreate]
  refine .bind fun _ => .ite (fun _ => .fails) fun _ => .bind fun _ =>
    .ite (fun _ => targetRollback_fails _ _ 1) fun _ => .bind fun _ =>
    .ite (fun _ => targetRollback_fails _ _ 2) fun _ => .bind fun _ =>
    .ite (fun _ => targetRollback_fails _ _ 3) fun _ => .bind fun _ =>
    .ite (fun _ => targetRollback_fails _ _ 4) fun _ => ?_
  exact .orElse (.symlink _ _) rfl
    (.ite (fun _ => targetRollback_fails _ _ 5) fun h => absurd rfl h)

theorem exportMapper_endsWith (control : Fd) (client : UInt32) (mapper : String)
    (readOnly : UInt32) :
    EndsWith ⟨.symlink (targetPaths client mapper).core
      ((targetPaths client mapper).lun ++ "/disk"),
      Outcome.ok⟩ (exportMapper control client mapper readOnly) :=
  .orElse (targetCreate_endsWith client mapper readOnly) rfl
    (.bind fun _ => .ite (fun _ => .fails) fun _ => .bind fun _ => .fails)

/-- A publication that succeeds makes the symlink, and then only closes the mapper control node. -/
theorem blockTargetPublish_history (client : UInt32) (disk : Dev) (logical : UInt32)
    (range : BlockRange) (h : List (Event Sys)) :
    (blockTargetPublish client disk logical range).wp (.history Sys) (fun r _ h' => r = .ok →
      ∃ es control closed, h' = h ++ es ++
        [⟨.symlink (targetPaths client (mapperName client)).core (lunSymlink client), Outcome.ok⟩,
          ⟨.close control, closed⟩]) b h := by
  rw [blockTargetPublish, wp_bind]
  -- the shared parents and the mapper; only the last calls matter
  refine wp_mono (wp_history _ b h) ?_
  rintro parents b₁ _ ⟨es₁, rfl⟩
  rw [wp_ite]
  split
  · intro hok
    cases hok
  rw [wp_bind]
  refine wp_issue (c := .openNode .mapperControl) trivial fun r _ => ?_
  cases r with
  | error errno =>
    intro hok
    cases hok
  | ok control =>
    rw [wp_bind]
    refine wp_mono (wp_history _ b₁ _) ?_
    rintro created b₂ _ ⟨es₂, rfl⟩
    have hexport : EndsWith
        ⟨.symlink (targetPaths client (mapperName client)).core (lunSymlink client), Outcome.ok⟩
        (if created = .ok then exportMapper control client (mapperName client) range.readOnly
          else pure .failed) :=
      .ite (fun _ => exportMapper_endsWith _ _ _ _) fun _ => .fails
    rw [wp_bind]
    refine wp_mono (hexport b₂ _) fun r b₃ h₃ hr => ?_
    rw [wp_bind]
    refine wp_issue (c := .close control) trivial fun closed _ hok => ?_
    obtain ⟨es₃, rfl⟩ := hr hok
    exact ⟨es₁ ++ ⟨.openNode .mapperControl, .ok control⟩ :: es₂ ++ es₃, control, closed,
      by simp [Contract.history]⟩

/-! ## All or nothing -/

/-- What a publication is allowed: the symlink of its LUN, when all else is in place. -/
def linkReady (client : UInt32) (table : DmTable) (readOnly : UInt32) (e : Exports)
    (target path : String) : Prop :=
  target = (targetPaths client (mapperName client)).core ∧ path = lunSymlink client ∧
    LunReady client table readOnly e

variable (exclusive rollsBack) in
/-- The binding is recorded when the LUN is published, and only then. -/
theorem publishRange_wp (client : Fin 128) (disk : PhysicalDisk) (range : BlockRange) :
    (publishRange client disk range).wp
      (storage (linkReady (.ofNat client) (mapperTable disk.device disk.logical range)
        range.readOnly) exclusive rollsBack)
      (fun r b' w' =>
        (r = .ok ∧ b' = { b with blocks := b.blocks.map fun owner =>
            { owner with bindings := Function.update owner.bindings client range } } ∧
          ∃ e device, ParentsMade w.toExports e ∧ w'.toExports =
            (lunBuilt (.ofNat client) device (mapperTable disk.device disk.logical range)
              range.readOnly e).makeLink
                (targetPaths (.ofNat client) (mapperName (.ofNat client))).core
                (lunSymlink (.ofNat client))) ∨
        (r = .backendFailure ∧ b' = b ∧
          Unexported (mapperName (.ofNat client)) w.toExports w'.toExports ∧
          (exclusive → ∀ path device, w.nodes path = some device → w'.nodes path = some device) ∧
          (exclusive ∧ rollsBack ∧ w.Sound → ParentsMade w.toExports w'.toExports))) b w := by
  rw [publishRange, wp_bind]
  refine wp_mono (blockTargetPublish_wp (.ofNat client) disk.device disk.logical range
    fun e device _ => ⟨rfl, rfl, lunBuilt_ready ..⟩) ?_
  intro r b₁ w₁ h₁
  obtain ⟨rfl, ⟨rfl, hbuilt⟩ | ⟨rfl, hleft⟩⟩ := h₁
  · rw [wp_ite, if_neg (by decide), wp_bind]
    exact .inl ⟨rfl, rfl, hbuilt⟩
  · rw [wp_ite, if_pos rfl]
    exact .inr ⟨rfl, rfl, hleft⟩

theorem publishRange_history (client : Fin 128) (disk : PhysicalDisk) (range : BlockRange)
    (h : List (Event Sys)) :
    (publishRange client disk range).wp (.history Sys) (fun r _ h' => r = .ok →
      ∃ es control closed, h' = h ++ es ++
        [⟨.symlink (targetPaths (.ofNat client) (mapperName (.ofNat client))).core
            (lunSymlink (.ofNat client)), Outcome.ok⟩, ⟨.close control, closed⟩]) b h := by
  rw [publishRange, wp_bind]
  refine wp_mono (blockTargetPublish_history (.ofNat client) disk.device disk.logical range h) ?_
  intro r b₁ h₁ hr
  rw [wp_ite]
  cases r with
  | failed =>
    intro hok
    cases hok
  | ok => exact fun _ => hr rfl

/-- Every publication is all or nothing. One that succeeds makes the symlink of its LUN last, when
everything else is in place. One that fails makes no link, whatever its rollback does, and leaves
the client unbound and all nodes that existed; it leaves nothing but shared parents when what it
undoes succeeds. -/
theorem publication_all_or_nothing (env : Environment Sys) (past : List (Event Sys)) (b : Backend)
    (client : Fin 128) (disk : PhysicalDisk) (range : BlockRange) (w : Storage) (hsound : w.Sound)
    (hnew : CreatesNew w ((publishRange client disk range).runAt env (b, past)).2) :
    let run := (publishRange client disk range).runAt env (b, past)
    let c := UInt32.ofNat client
    (run.1.1 = .ok ∧ run.1.2 = { b with blocks := b.blocks.map fun owner =>
        { owner with bindings := Function.update owner.bindings client range } } ∧
      ∃ es control closed, run.2 = es ++
          [⟨.symlink (targetPaths c (mapperName c)).core (lunSymlink c), Outcome.ok⟩,
            ⟨.close control, closed⟩] ∧
        LunReady c (mapperTable disk.device disk.logical range) range.readOnly
          (w.after es).toExports ∧ (w.after es).links = w.links) ∨
    (run.1.1 = .backendFailure ∧ run.1.2 = b ∧
      (∀ es, es <+: run.2 → (w.after es).links = w.links) ∧
      (∀ path device, w.nodes path = some device → (w.after run.2).nodes path = some device) ∧
      ((∀ e ∈ run.2, RollsBack e.1 e.2) → ParentsMade w.toExports (w.after run.2).toExports)) := by
  intro run c
  obtain ⟨hobeyed, hpost⟩ := wp_runAt env (b, past)
    (publishRange_wp True (∀ e ∈ run.2, RollsBack e.1 e.2) (w := w) client disk range)
      (storage_assumed (fun _ => hnew) id)
  obtain ⟨-, hlast⟩ := wp_runAt env (b, past) (publishRange_history client disk range [])
    (Contract.history_assumed _ _)
  obtain ⟨hstatus, hb, e, device, hparents, hbuilt⟩ | ⟨hstatus, hb, hleft, hnodes, hback⟩ := hpost
  · -- published: the link is the last thing that was made
    refine .inl ⟨hstatus, hb, ?_⟩
    obtain ⟨es, control, closed, hes⟩ := hlast hstatus
    rw [Contract.history_after, List.nil_append, List.nil_append] at hes
    have hes : run.2 = es ++ ⟨.symlink (targetPaths c (mapperName c)).core (lunSymlink c),
        Outcome.ok⟩ :: [⟨.close control, closed⟩] := hes
    refine ⟨es, control, closed, hes, ?_, ?_⟩
    · have hobeyed : (storage _ True _).Obeyed w run.2 := hobeyed
      rw [hes] at hobeyed
      -- no other link has changed: none is removed, and only a free path gets one
      exact (Contract.Obeyed.allows _ hobeyed).2.2
    · have hnew : CreatesNew w run.2 := hnew
      have hbuilt : (w.after run.2).toExports = _ := hbuilt
      rw [hes] at hnew
      have hfree : ((w.after es).links (lunSymlink c)).isSome = false := hnew es _ _ rfl
      obtain ⟨hbefore, hrest⟩ := hnew.append
      refine hbefore.links_eq fun path target hlink => ?_
      have hne : path ≠ lunSymlink c := by
        intro hpath
        rw [← hpath, hlink] at hfree
        cases hfree
      have hend := hrest.links_kept hlink
      rw [← Storage.after_append, ← hes, hbuilt] at hend
      rw [← hparents.links, ← hend]
      exact (Function.update_of_ne hne ..).symm
  · -- refused: links are as they were at the end, and so they were throughout
    refine .inr ⟨hstatus, hb, fun es hes => ?_, hnodes trivial, fun hundone => ?_⟩
    · obtain ⟨post, hpost⟩ := hes
      have hnew : CreatesNew w run.2 := hnew
      have hlinks : (w.after run.2).links = w.links := hleft.links
      rw [← hpost] at hnew hlinks
      refine hnew.append.1.links_eq fun path target hlink => ?_
      rw [← hlinks, Storage.after_append]
      exact hnew.append.2.links_kept hlink
    · exact hback ⟨trivial, hundone, hsound⟩

/-- A Linux that grants a publication everything but the symlink. -/
def linkRefused : Environment Sys := fun _ c =>
  match c with
  | .openNode _ => .ok 9
  | .mkdir _ => .ok ()
  | .dmDevCreate _ _ => some ⟨253, 0⟩
  | .write _ value => some value.utf8ByteSize
  | .ioctl _ _ | .close _ | .mknod _ _ | .unlink _ | .rmdir _ => Outcome.ok
  | c => c.refused

theorem linkRefused_rollsBack (past : List (Event Sys)) (c : Call) :
    RollsBack c (linkRefused past c) := by
  cases c with
  | ioctl fd command => cases command <;> trivial
  | rmdir | unlink => rfl
  | _ => trivial

/-- Refused its symlink after all the rest, the publication leaves nothing behind. -/
theorem publication_all_or_nothing_refused :
    let b : Backend := { managed := true, memoryPath := "" }
    let run := (publishRange 5 ⟨9, ⟨8, 0⟩, 4096, 1, 512, 512, 0⟩ { first := 0, count := 8 }).runAt
      linkRefused (b, [])
    run.1.1 = .backendFailure ∧ run.2.length = 32 ∧
      ParentsMade {} (({} : Storage).after run.2).toExports := by
  intro b run
  have hstatus : run.1.1 = .backendFailure := by decide +kernel
  have hnew : CreatesNew {} run.2 := by decide +kernel
  refine ⟨hstatus, by decide +kernel, ?_⟩
  obtain h | h := publication_all_or_nothing linkRefused [] b 5 ⟨9, ⟨8, 0⟩, 4096, 1, 512, 512, 0⟩
    { first := 0, count := 8 } {} (fun _ _ _ _ => rfl) hnew
  · exact absurd (hstatus.symm.trans h.1) (by decide)
  · refine h.2.2.2.2 fun e he => ?_
    obtain ⟨past, hreply⟩ := Program.mem_exec he
    rw [hreply]
    exact linkRefused_rollsBack past e.1

end HyperIoVm
