import HyperIoVm.Assembled
import HyperIoVm.Publish

/-!
# Crash-consistent publication (`scripts/assemble-io-vm.py`)

The files of a generation are named by their contents and the manifest is the commit point, so runs
that share a directory leave it consistent wherever each of them stops. A run also unlinks its
temporary after it has replaced it. Between the two the name is free, and what another run creates
under it is taken away: the results are about runs in which nobody does that.
-/

namespace HyperIoVm

open Data

/-! ## Names -/

/-- The files of a generation are named by their contents. -/
structure Generation.Addressed (lib : Libraries) (g : Generation) : Prop where
  image : g.imageName = "Image-" ++ lib.sha256 g.image
  ramdisk : g.ramdiskName = "initramfs-" ++ lib.sha256 g.ramdisk ++ ".cpio.gz"

/-- The letter that the name of a file begins with. -/
def Artifact.initial : Artifact → Char
  | .image => 'I'
  | .ramdisk => 'i'
  | .manifest => 'b'

theorem Artifact.initial_inj {a b : Artifact} (h : a.initial = b.initial) : a = b := by
  revert h
  cases a <;> cases b <;> decide

theorem initial_of_isTemporary {name : String} (h : isTemporary name = true) :
    name.toList.head? = some 't' := by
  rw [isTemporary, beq_iff_eq] at h
  have hhead := congrArg List.head? h
  rw [List.head?_take, if_neg (by decide)] at hhead
  exact hhead

section Names

variable {lib : Libraries} {g g' : Generation} {a b : Artifact} {name : String}

theorem addressed_of_assemble {args : AssembleArgs} {base : String → Option Bytes}
    {root : Option OverlayTree} (h : assemble lib args base root = some g) : g.Addressed lib := by
  simp only [assemble, Option.bind_eq_bind, Option.bind_eq_some_iff] at h
  obtain ⟨verified, -, overlay, -, merged, -, expanded, -, h⟩ := h
  split at h
  · cases h
  · obtain rfl := Option.some_inj.mp h
    exact ⟨rfl, rfl⟩

theorem Generation.Addressed.initial (h : g.Addressed lib) :
    (g.file a).1.toList.head? = some a.initial := by
  have hlead (text rest : String) (c : Char) (hc : text.toList.head? = some c) :
      (text ++ rest).toList.head? = some c := by
    rw [String.toList_append, List.head?_append, hc]
    rfl
  cases a with
  | image =>
    show g.imageName.toList.head? = _
    rw [h.image]
    exact hlead _ _ _ (by decide +kernel)
  | ramdisk =>
    show g.ramdiskName.toList.head? = _
    rw [h.ramdisk, String.append_assoc]
    exact hlead _ _ _ (by decide +kernel)
  | manifest =>
    show manifestName.toList.head? = _
    decide +kernel

/-- No file of a generation has the name of a temporary. -/
theorem Generation.Addressed.not_temporary (h : g.Addressed lib) :
    isTemporary (g.file a).1 = false := by
  apply Bool.eq_false_iff.mpr
  intro htemporary
  have hletter := Option.some_inj.mp (h.initial.symm.trans (initial_of_isTemporary htemporary))
  revert hletter
  cases a <;> decide

/-- Only the manifest has its name. -/
theorem Generation.Addressed.eq_manifest (h : g.Addressed lib)
    (hname : (g.file a).1 = manifestName) : a = .manifest := by
  have hmanifest : manifestName.toList.head? = some Artifact.manifest.initial := by
    decide +kernel
  apply Artifact.initial_inj
  rw [← hname, h.initial] at hmanifest
  exact Option.some_inj.mp hmanifest

/-- Two files of one name are the same file, with the same contents unless they are manifests. -/
theorem Generation.Addressed.file_inj (hsha : Function.Injective lib.sha256) (h : g.Addressed lib)
    (h' : g'.Addressed lib) (hname : (g.file a).1 = (g'.file b).1) :
    a = b ∧ (a ≠ .manifest → (g.file a).2 = (g'.file b).2) := by
  have hletter : some a.initial = some b.initial := by
    rw [← h.initial, hname, h'.initial]
  obtain rfl := Artifact.initial_inj (Option.some_inj.mp hletter)
  refine ⟨rfl, fun hmanifest => ?_⟩
  cases a with
  | image =>
    change g.imageName = g'.imageName at hname
    rw [h.image, h'.image, ← String.toList_inj, String.toList_append, String.toList_append] at hname
    exact hsha (String.toList_inj.mp (List.append_cancel_left hname))
  | ramdisk =>
    change g.ramdiskName = g'.ramdiskName at hname
    rw [h.ramdisk, h'.ramdisk, ← String.toList_inj] at hname
    simp only [String.toList_append] at hname
    exact hsha (String.toList_inj.mp
      (List.append_cancel_left (List.append_cancel_right hname)))
  | manifest => exact absurd rfl hmanifest

end Names

/-! ## One operation -/

/-- The temporary that a run still refers to. -/
def Phase.temporary : Phase → Option String
  | .write _ temporary _ _ | .replace _ temporary _ | .unlink _ temporary _ => some temporary
  | _ => none

/-- `publish` handles `b` before `a`. -/
def Artifact.before : Artifact → Artifact → Bool
  | .image, .ramdisk | .image, .manifest | .ramdisk, .manifest => true
  | _, _ => false

/-- The run has published the file. -/
def Phase.passed (b : Artifact) : Phase → Bool
  | .mkdir a | .check a | .stat a | .read a | .create a | .write a _ _ _ | .replace a _ _
  | .unlink a _ false => b.before a
  | .unlink a _ true => b.before a || b == a
  | .finished => true
  | .failed | .stopped => false

theorem Phase.reached_eq_passed (p : Phase) : p.reached = p.passed .manifest := by
  cases p with
  | unlink a t replaced => cases a <;> cases replaced <;> rfl
  | mkdir a | check a | stat a | read a | create a | write a | replace a => cases a <;> rfl
  | finished | failed | stopped => rfl

theorem Artifact.passed_done (a b : Artifact) :
    a.done.passed b = (b.before a || b == a) := by
  cases a <;> cases b <;> rfl

theorem Artifact.temporary_done (a : Artifact) : a.done.temporary = none := by
  cases a <;> rfl

/-- What one operation can do. -/
inductive Advanced (g : Generation) (d : Directory) : Phase → Move → Directory → Phase → Prop
  | idle {p m p'} (temporary : p'.temporary = none)
    (passed : ∀ b, p'.passed b = true →
      p.passed b = true ∨ d.read (g.file b).1 = some (g.file b).2) : Advanced g d p m d p'
  | create {a t} (temporary : isTemporary t = true) (free : d.files t = none) :
    Advanced g d (.create a) (.create t) (d.create t) (.write a t d.inodes 0)
  | write {a t inode written count} : Advanced g d (.write a t inode written) (.write count)
      (d.write inode ((g.file a).2.take (written + count))) (.write a t inode (written + count))
  | full {a t inode written} (full : (g.file a).2.length ≤ written) :
    Advanced g d (.write a t inode written) .next d (.replace a t inode)
  | abandon {a t inode p m}
    (holds : p = .replace a t inode ∨ ∃ written, p = .write a t inode written) :
    Advanced g d p m d (.unlink a t false)
  | replace {a t inode} (linked : (d.files t).isSome = true) :
    Advanced g d (.replace a t inode) .next (d.replace t (g.file a).1) (.unlink a t true)
  | unlink {a t replaced} : Advanced g d (.unlink a t replaced) .next (d.unlink t)
      (if replaced then a.done else .failed)

section Moves

variable {g : Generation} {d d' : Directory} {p p' q : Phase} {m : Move} {a : Artifact} {t : String}
  {inode written : Nat}

/-- The directory is as it was, and no file more is published. -/
theorem advanced_idle (h : some (d, q) = some (d', p')) (htemporary : q.temporary = none)
    (hpassed : ∀ b, q.passed b = true → p.passed b = true) : Advanced g d p m d' p' := by
  obtain ⟨rfl, rfl⟩ := Prod.mk.inj (Option.some_inj.mp h)
  exact .idle htemporary fun b hb => .inl (hpassed b hb)

/-- The run ends there. -/
theorem advanced_ended (h : some (d, q) = some (d', p')) (hended : q = .stopped ∨ q = .failed) :
    Advanced g d p m d' p' := by
  rcases hended with rfl | rfl
  · exact advanced_idle h rfl fun b hb => Bool.noConfusion hb
  · exact advanced_idle h rfl fun b hb => Bool.noConfusion hb

theorem advanced_stop (h : publishMove g d p .stop = some (d', p')) :
    Advanced g d p .stop d' p' := by
  cases p with
  | finished | failed | stopped => cases h
  | mkdir | check | stat | read | create | write | replace | unlink =>
    exact advanced_ended h (.inl rfl)

/-- The `finally` is next when the temporary exists, and otherwise the run has failed. -/
theorem advanced_raise (h : publishMove g d p .raise = some (d', p')) :
    Advanced g d p .raise d' p' := by
  cases p with
  | finished | failed | stopped => cases h
  | mkdir | check | stat | read | create | unlink => exact advanced_ended h (.inr rfl)
  | write a t inode written =>
    obtain ⟨rfl, rfl⟩ := Prod.mk.inj (Option.some_inj.mp h)
    exact .abandon (.inr ⟨written, rfl⟩)
  | replace a t inode =>
    obtain ⟨rfl, rfl⟩ := Prod.mk.inj (Option.some_inj.mp h)
    exact .abandon (.inl rfl)

theorem advanced_stat (h : publishMove g d (.stat a) .next = some (d', p')) :
    Advanced g d (.stat a) .next d' p' := by
  rw [publishMove] at h
  split at h
  next => exact advanced_ended h (.inr rfl)
  next =>
    split at h
    next => exact advanced_idle h rfl fun b hb => hb
    next => exact advanced_idle h rfl fun b hb => hb

/-- The file is published already when it has these contents. -/
theorem advanced_read (h : publishMove g d (.read a) .next = some (d', p')) :
    Advanced g d (.read a) .next d' p' := by
  rw [publishMove] at h
  split at h
  next => exact advanced_ended h (.inr rfl)
  next data hdata =>
    split at h
    next => exact advanced_ended h (.inr rfl)
    next =>
      split at h
      next hsame =>
        obtain ⟨rfl, rfl⟩ := Prod.mk.inj (Option.some_inj.mp h)
        refine .idle a.temporary_done fun b hb => ?_
        rw [Artifact.passed_done, Bool.or_eq_true, beq_iff_eq] at hb
        rcases hb with hb | rfl
        · exact .inl hb
        · exact .inr (hdata.trans (congrArg some hsame))
      next => exact advanced_idle h rfl fun b hb => hb

theorem advanced_write (h : publishMove g d (.write a t inode written) .next = some (d', p')) :
    Advanced g d (.write a t inode written) .next d' p' := by
  rw [publishMove] at h
  split at h
  next hfull =>
    obtain ⟨rfl, rfl⟩ := Prod.mk.inj (Option.some_inj.mp h)
    exact .full hfull
  next => cases h

theorem advanced_replace (h : publishMove g d (.replace a t inode) .next = some (d', p')) :
    Advanced g d (.replace a t inode) .next d' p' := by
  rw [publishMove] at h
  split at h
  next hlinked =>
    obtain ⟨rfl, rfl⟩ := Prod.mk.inj (Option.some_inj.mp h)
    exact .replace hlinked
  next =>
    obtain ⟨rfl, rfl⟩ := Prod.mk.inj (Option.some_inj.mp h)
    exact .abandon (.inl rfl)

theorem advanced_next (h : publishMove g d p .next = some (d', p')) :
    Advanced g d p .next d' p' := by
  cases p with
  | finished | failed | stopped | create => cases h
  | mkdir a => exact advanced_idle h rfl fun b hb => hb
  | check a =>
    rw [publishMove] at h
    split at h
    next => exact advanced_idle h rfl fun b hb => hb
    next => exact advanced_idle h rfl fun b hb => hb
  | stat a => exact advanced_stat h
  | read a => exact advanced_read h
  | write a t inode written => exact advanced_write h
  | replace a t inode => exact advanced_replace h
  | unlink a t replaced =>
    obtain ⟨rfl, rfl⟩ := Prod.mk.inj (Option.some_inj.mp h)
    exact .unlink

/-- `tempfile` creates a file that does not exist. -/
theorem advanced_create (h : publishMove g d p (.create t) = some (d', p')) :
    Advanced g d p (.create t) d' p' := by
  cases p with
  | create a =>
    rw [publishMove] at h
    split at h
    next hfree =>
      obtain ⟨rfl, rfl⟩ := Prod.mk.inj (Option.some_inj.mp h)
      exact .create hfree.1 hfree.2
    next => cases h
  | _ => cases h

theorem publishMove_cases (h : publishMove g d p m = some (d', p')) : Advanced g d p m d' p' := by
  cases m with
  | next => exact advanced_next h
  | create t => exact advanced_create h
  | raise => exact advanced_raise h
  | stop => exact advanced_stop h
  | write n =>
    cases p with
    | write a t inode written =>
      obtain ⟨rfl, rfl⟩ := Prod.mk.inj (Option.some_inj.mp h)
      exact .write
    | _ => cases h

end Moves

variable {g : Generation} {d d' : Directory} {p p' : Phase} {m : Move}

/-! ## Temporaries -/

/-- The only name of the file. -/
def Directory.Private (d : Directory) (name : String) (inode : Nat) : Prop :=
  ∀ other, d.files other = some inode ↔ other = name

/-- What a run knows of its temporary: it is its own, and has in it what was written. Once it has
been replaced, nothing. -/
def Phase.Sound (g : Generation) (d : Directory) : Phase → Prop
  | .write a t inode written => isTemporary t = true ∧ d.Private t inode ∧
      d.contents inode = (g.file a).2.take written
  | .replace a t inode => isTemporary t = true ∧ d.Private t inode ∧
      d.contents inode = (g.file a).2
  | .unlink _ t false => isTemporary t = true ∧ d.files t ≠ none
  | .unlink _ t true => isTemporary t = true
  | _ => True

theorem Phase.sound_of_temporary (h : p.temporary = none) : p.Sound g d := by
  cases p with
  | write | replace | unlink => cases h
  | _ => trivial

/-- A temporary that no longer exists was replaced. -/
theorem Phase.Sound.replaced {t : String} (h : p.Sound g d) (ht : p.temporary = some t)
    (hfree : d.files t = none) : ∃ a, p = .unlink a t true := by
  cases p with
  | write a t' inode written =>
    obtain rfl := Option.some_inj.mp ht
    exact absurd (((h.2.1 t').mpr rfl).symm.trans hfree) (Option.some_ne_none _)
  | replace a t' inode =>
    obtain rfl := Option.some_inj.mp ht
    exact absurd (((h.2.1 t').mpr rfl).symm.trans hfree) (Option.some_ne_none _)
  | unlink a t' replaced =>
    obtain rfl := Option.some_inj.mp ht
    cases replaced with
    | false => exact absurd hfree h.2
    | true => exact ⟨a, rfl⟩
  | _ => cases ht

/-- The temporary of a run has the name of one. -/
theorem Phase.Sound.isTemporary {t : String} (h : p.Sound g d) (ht : p.temporary = some t) :
    isTemporary t = true := by
  cases p with
  | write a t' inode written =>
    obtain rfl := Option.some_inj.mp ht
    exact h.1
  | replace a t' inode =>
    obtain rfl := Option.some_inj.mp ht
    exact h.1
  | unlink a t' replaced =>
    obtain rfl := Option.some_inj.mp ht
    cases replaced with
    | false => exact h.1
    | true => exact h
  | _ => cases ht

/-- The run's own step keeps what it knows. -/
theorem Advanced.sound (h : Advanced g d p m d' p') (hp : p.Sound g d) : p'.Sound g d' := by
  cases h with
  | idle temporary => exact Phase.sound_of_temporary temporary
  | @create a t temporary free =>
    refine ⟨temporary, fun other => ?_, ?_⟩
    · rw [Directory.files_create]
      split
      -- the new name has the new inode, and no other has it
      next hother =>
        exact ⟨fun _ => hother, fun _ => rfl⟩
      next hother =>
        -- any other name has the inode it had
        refine ⟨fun hold => ?_, fun heq => absurd heq hother⟩
        exact absurd (d.bound other _ hold) (Nat.lt_irrefl _)
    · -- the new file is empty
      show Function.update d.contents d.inodes [] d.inodes = _
      rw [Function.update_self, List.take_zero]
  | @write a t inode written count =>
    refine ⟨hp.1, hp.2.1, ?_⟩
    show Function.update d.contents inode _ inode = _
    rw [Function.update_self]
  | full full => exact ⟨hp.1, hp.2.1, hp.2.2.trans (List.take_of_length_le full)⟩
  | @abandon a t inode p m holds =>
    have hlinked (hprivate : d.Private t inode) : d.files t ≠ none := by
      rw [(hprivate t).mpr rfl]
      exact Option.some_ne_none _
    -- an abandoned temporary is still there, in whatever phase it was
    obtain rfl | hwrite := holds
    · exact ⟨hp.1, hlinked hp.2.1⟩
    · obtain ⟨written, rfl⟩ := hwrite
      exact ⟨hp.1, hlinked hp.2.1⟩
  | replace => exact hp.1
  | @unlink a t replaced =>
    cases replaced with
    | false => trivial
    | true => exact Phase.sound_of_temporary a.temporary_done

/-- A file that is not a temporary stays as it is, unless the run replaces it by its own. -/
theorem Advanced.read (h : Advanced g d p m d' p') (hp : p.Sound g d) {name : String}
    (hname : isTemporary name = false) : d'.read name = d.read name ∨
      ∃ a t inode, p = .replace a t inode ∧ p' = .unlink a t true ∧ name = (g.file a).1 ∧
        d'.read name = some (g.file a).2 := by
  have hne {t : String} (ht : isTemporary t = true) : name ≠ t := by
    intro heq
    rw [heq, ht] at hname
    cases hname
  cases h with
  | idle | full | abandon => exact .inl rfl
  | @create a t temporary free =>
    -- what is new is a temporary, and the other inodes keep their contents
    refine .inl ?_
    rw [Directory.read, Directory.files_create, if_neg (hne temporary)]
    apply Option.map_congr
    intro inode hinode
    exact Function.update_of_ne (Nat.ne_of_lt (d.bound name inode hinode)) _ _
  | @write a t inode written count =>
    -- only the run's own inode is written
    refine .inl (Option.map_congr fun other hother => ?_)
    refine Function.update_of_ne (fun heq => ?_) _ _
    rw [heq] at hother
    exact hne hp.1 ((hp.2.1 name).mp hother)
  | @replace a t inode linked =>
    rw [Directory.read, Directory.files_replace, if_neg (hne hp.1)]
    -- the name that is replaced is now the temporary's file
    by_cases hpath : name = (g.file a).1
    · refine .inr ⟨a, t, inode, rfl, rfl, hpath, ?_⟩
      rw [if_pos hpath, (hp.2.1 t).mpr rfl]
      exact congrArg some hp.2.2
    · -- any other is as it was
      refine .inl ?_
      rw [if_neg hpath]
      rfl
  | @unlink a t replaced =>
    -- what is unlinked is a temporary
    refine .inl ?_
    rw [Directory.read, Directory.files_unlink, if_neg (hne (hp.isTemporary rfl))]
    rfl

/-- What happens to a temporary of another run. -/
structure Directory.Keeps (d d' : Directory) (t : String) : Prop where
  files : ∀ inode, d.Private t inode → d'.Private t inode ∧ d'.contents inode = d.contents inode
  linked : d.files t ≠ none → d'.files t ≠ none

theorem Directory.keeps_refl (d : Directory) (t : String) : d.Keeps d t :=
  ⟨fun _ h => ⟨h, rfl⟩, fun h => h⟩

theorem Phase.Sound.of_keeps (h : p.Sound g d) (hkeeps : ∀ t, p.temporary = some t → d.Keeps d' t) :
    p.Sound g d' := by
  cases p with
  | write a t inode written =>
    obtain ⟨hprivate, hcontents⟩ := (hkeeps t rfl).files inode h.2.1
    exact ⟨h.1, hprivate, hcontents.trans h.2.2⟩
  | replace a t inode =>
    obtain ⟨hprivate, hcontents⟩ := (hkeeps t rfl).files inode h.2.1
    exact ⟨h.1, hprivate, hcontents.trans h.2.2⟩
  | unlink a t replaced =>
    cases replaced with
    | false => exact ⟨h.1, (hkeeps t rfl).linked h.2⟩
    | true => exact h
  | _ => trivial

/-- A step leaves the temporaries of other names alone. -/
theorem Advanced.keeps {lib : Libraries} (h : Advanced g d p m d' p') (hg : g.Addressed lib)
    (hp : p.Sound g d) {t : String} (ht : isTemporary t = true)
    (hapart : p.temporary ≠ some t) (hapart' : p'.temporary ≠ some t) : d.Keeps d' t := by
  cases h with
  | idle | full | abandon => exact d.keeps_refl t
  | @create a name temporary free =>
    -- the new name is not t
    have hne : t ≠ name := fun heq => hapart' (congrArg some heq.symm)
    refine ⟨fun inode hinode => ?_, fun hlinked => ?_⟩
    · -- an inode that is there already is not the new one
      have hold : inode ≠ d.inodes := Nat.ne_of_lt (d.bound t inode ((hinode t).mpr rfl))
      refine ⟨fun other => ?_, Function.update_of_ne hold _ _⟩
      rw [Directory.files_create]
      split
      next hother =>
        exact ⟨fun heq => absurd (Option.some_inj.mp heq).symm hold,
          fun heq => absurd (heq.symm.trans hother) hne⟩
      next => exact hinode other
    · rw [Directory.files_create, if_neg hne]
      exact hlinked
  | @write a name inode written count =>
    -- the inode that is written is not that of t
    refine ⟨fun other hother => ⟨hother, Function.update_of_ne (fun heq => ?_) _ _⟩, fun h => h⟩
    rw [heq] at hother
    exact hapart (congrArg some ((hother name).mp ((hp.2.1 name).mpr rfl)))
  | @replace a name inode linked =>
    -- neither the temporary nor the path is t
    have hne : t ≠ name := fun heq => hapart (congrArg some heq.symm)
    have hpath : t ≠ (g.file a).1 := by
      intro heq
      rw [heq, hg.not_temporary] at ht
      cases ht
    refine ⟨fun inode' hinode => ⟨fun other => ?_, rfl⟩, fun hlinked => ?_⟩
    · -- the inode that moves is not that of t
      have hinodes : some inode ≠ some inode' := by
        intro heq
        rw [← Option.some_inj.mp heq] at hinode
        exact hne ((hinode name).mp ((hp.2.1 name).mpr rfl)).symm
      rw [Directory.files_replace, (hp.2.1 name).mpr rfl]
      split
      next hother =>
        exact ⟨fun heq => absurd heq.symm (Option.some_ne_none _),
          fun heq => absurd (heq.symm.trans hother) hne⟩
      next =>
        split
        next hother =>
          exact ⟨fun heq => absurd heq hinodes, fun heq => absurd (heq.symm.trans hother) hpath⟩
        next => exact hinode other
    · rw [Directory.files_replace, if_neg hne, if_neg hpath]
      exact hlinked
  | @unlink a name replaced =>
    -- the name that is unlinked is not t
    have hne : t ≠ name := fun heq => hapart (congrArg some heq.symm)
    refine ⟨fun inode hinode => ⟨fun other => ?_, rfl⟩, fun hlinked => ?_⟩
    · rw [Directory.files_unlink]
      split
      next hother =>
        exact ⟨fun heq => absurd heq.symm (Option.some_ne_none _),
          fun heq => absurd (heq.symm.trans hother) hne⟩
      next => exact hinode other
    · rw [Directory.files_unlink, if_neg hne]
      exact hlinked

/-- A temporary is new, or the run had it. -/
theorem Advanced.temporary {t : String} (h : Advanced g d p m d' p')
    (ht : p'.temporary = some t) :
    p.temporary = some t ∨ (∃ a, p = .create a) ∧ m = .create t ∧ d.files t = none := by
  cases h with
  | idle temporary => exact absurd (ht.symm.trans temporary) (Option.some_ne_none _)
  | @create a name temporary free =>
    obtain rfl := Option.some_inj.mp ht
    exact .inr ⟨⟨a, rfl⟩, rfl, free⟩
  | write => exact .inl ht
  | full => exact .inl ht
  | abandon holds =>
    obtain rfl | hwrite := holds
    · exact .inl ht
    · obtain ⟨written, rfl⟩ := hwrite
      exact .inl ht
  | replace => exact .inl ht
  | @unlink a name replaced =>
    cases replaced with
    | false => cases ht
    | true => exact absurd (ht.symm.trans a.temporary_done) (Option.some_ne_none _)

/-- What a run has published is there. -/
theorem Advanced.passed {lib : Libraries} {b : Artifact} (h : Advanced g d p m d' p')
    (hg : g.Addressed lib) (hp : p.Sound g d) (hb : p'.passed b = true) :
    p.passed b = true ∨ d.read (g.file b).1 = some (g.file b).2 ∨
      d'.read (g.file b).1 = some (g.file b).2 := by
  cases h with
  | idle temporary passed =>
    -- the file was there already, so it is passed with it
    obtain hp | hread := passed b hb
    · exact .inl hp
    · exact .inr (.inl hread)
  | create => exact .inl hb
  | write => exact .inl hb
  | full => exact .inl hb
  | abandon holds =>
    obtain rfl | hwrite := holds
    · exact .inl hb
    · -- nothing was passed on the way here
      obtain ⟨written, rfl⟩ := hwrite
      exact .inl hb
  | @replace a t inode linked =>
    rw [Phase.passed, Bool.or_eq_true, beq_iff_eq] at hb
    obtain hb | rfl := hb
    · -- passed before
      exact .inl hb
    · -- passed by this step
      refine .inr (.inr ?_)
      have hne : (g.file b).1 ≠ t := by
        intro heq
        have htemporary := hg.not_temporary (a := b)
        rw [heq, hp.1] at htemporary
        cases htemporary
      rw [Directory.read, Directory.files_replace, if_neg hne, if_pos rfl, (hp.2.1 t).mpr rfl]
      exact congrArg some hp.2.2
  | @unlink a t replaced =>
    cases replaced with
    | false => cases hb
    | true =>
      rw [if_pos rfl, Artifact.passed_done] at hb
      exact .inl hb

/-! ## Generations -/

/-- The files that a manifest names are there. -/
def Generation.Stored (g : Generation) (d : Directory) : Prop :=
  d.read g.imageName = some g.image ∧ d.read g.ramdiskName = some g.ramdisk

/-- A run's arguments, and what it reads. -/
structure Job where
  args : AssembleArgs
  base : String → Option Bytes
  overlay : Option OverlayTree

def Job.output (lib : Libraries) (job : Job) : Option Generation :=
  assemble lib job.args job.base job.overlay

/-- A manifest that exists is that of a run, and the files it names are there. -/
def Directory.Consistent (lib : Libraries) (d : Directory) : Prop :=
  ∀ data, d.read manifestName = some data → ∃ (job : Job) (g : Generation),
    job.output lib = some g ∧ g.manifest = data ∧ g.Stored d

/-- No run creates a temporary under a name that another has replaced and has yet to unlink. -/
def Undisturbed (s : Publishing) : Nat × Move → Prop
  | (i, .create t) => ∀ j, j ≠ i → ∀ a, (s.runs j).phase ≠ .unlink a t true
  | _ => True

/-- A manifest in the directory is the first one, or that of a run that reached its last step. The
files it names are there. -/
def Committed (lib : Libraries) (jobs : Nat → Job) (first : Directory) (s : Publishing) : Prop :=
  ∀ data, s.directory.read manifestName = some data →
    ∃ g : Generation, g.manifest = data ∧ g.Addressed lib ∧ g.Stored s.directory ∧
      ((∃ job : Job, job.output lib = some g ∧ first.read manifestName = some data) ∨
        ∃ i, (jobs i).output lib = some g ∧ (s.runs i).reached = true)

/-- What holds between the steps of the runs. -/
structure PublishInv (lib : Libraries) (jobs : Nat → Job) (first : Directory) (s : Publishing) :
    Prop where
  sound : ∀ i g, (jobs i).output lib = some g → (s.runs i).phase.Sound g s.directory
  apart : ∀ i j t, i ≠ j → (s.runs i).phase.temporary = some t →
    (s.runs j).phase.temporary ≠ some t
  running : ∀ i t, (s.runs i).phase.temporary = some t → ((jobs i).output lib).isSome
  passed : ∀ i g b, (jobs i).output lib = some g → (s.runs i).phase.passed b = true →
    b ≠ .manifest → s.directory.read (g.file b).1 = some (g.file b).2
  committed : Committed lib jobs first s

section Publication

variable {lib : Libraries} {jobs : Nat → Job} {first : Directory} {s s' : Publishing}
  {step : Nat × Move}

abbrev publishJobs (lib : Libraries) (jobs : Nat → Job) :=
  publishStep fun i => (jobs i).output lib

theorem publishStep_eq_some (h : publishJobs lib jobs s step = some s') :
    ∃ g phase, (jobs step.1).output lib = some g ∧ g.Addressed lib ∧
      Advanced g s.directory (s.runs step.1).phase step.2 s'.directory phase ∧
      s'.runs step.1 = ⟨phase, (s.runs step.1).reached || phase.passed .manifest⟩ ∧
      ∀ j, j ≠ step.1 → s'.runs j = s.runs j := by
  rw [publishJobs, publishStep, Option.bind_eq_bind, Option.bind_eq_some_iff] at h
  obtain ⟨g, hg, h⟩ := h
  obtain ⟨p, hp, h⟩ := Option.bind_eq_some_iff.mp h
  obtain rfl := Option.some_inj.mp h
  refine ⟨g, p.2, hg, addressed_of_assemble hg, publishMove_cases hp, ?_, fun j hj => ?_⟩
  · rw [← Phase.reached_eq_passed]
    exact Function.update_self ..
  · exact Function.update_of_ne hj _ _

/-- The files of a published generation stay as they are. -/
theorem stored_of_advanced (hsha : Function.Injective lib.sha256) {g g' : Generation}
    {d d' : Directory} {p p' : Phase} {m : Move} (h : Advanced g d p m d' p')
    (hg : g.Addressed lib) (hp : p.Sound g d) (hg' : g'.Addressed lib) {b : Artifact}
    (hb : b ≠ .manifest) (hread : d.read (g'.file b).1 = some (g'.file b).2) :
    d'.read (g'.file b).1 = some (g'.file b).2 := by
  obtain hsame | ⟨a, t, inode, -, -, hname, hnew⟩ := h.read hp hg'.not_temporary
  · exact hsame.trans hread
  · obtain ⟨rfl, hcontents⟩ := hg'.file_inj hsha hg hname
    rw [hnew, hcontents hb]

theorem Generation.stored_iff {g : Generation} {d : Directory} : g.Stored d ↔
    ∀ b, b ≠ .manifest → d.read (g.file b).1 = some (g.file b).2 := by
  constructor
  · intro h b hb
    cases b with
    | image => exact h.1
    | ramdisk => exact h.2
    | manifest => exact absurd rfl hb
  · intro h
    exact ⟨h .image (by decide), h .ramdisk (by decide)⟩

/-- Every step keeps the files of published generations. -/
theorem stored_step (hsha : Function.Injective lib.sha256) (hinv : PublishInv lib jobs first s)
    (h : publishJobs lib jobs s step = some s') {g : Generation} (hg : g.Addressed lib)
    (hstored : g.Stored s.directory) : g.Stored s'.directory := by
  obtain ⟨mine, p, hmine, haddressed, hadvanced, -⟩ := publishStep_eq_some h
  rw [Generation.stored_iff] at hstored ⊢
  intro b hb
  exact stored_of_advanced hsha hadvanced haddressed (hinv.sound _ _ hmine) hg hb (hstored b hb)

/-- The manifest changes only when a run reaches its last step, and then it is that run's. -/
theorem manifest_step (hinv : PublishInv lib jobs first s)
    (h : publishJobs lib jobs s step = some s') :
    s'.directory.read manifestName = s.directory.read manifestName ∨
      (s'.runs step.1).reached = true ∧ ∃ g t inode, (jobs step.1).output lib = some g ∧
        (s.runs step.1).phase = .replace .manifest t inode ∧
          s'.directory.read manifestName = some g.manifest := by
  obtain ⟨g, p, hg, haddressed, hadvanced, hrun, -⟩ := publishStep_eq_some h
  have hname : isTemporary manifestName = false := by decide +kernel
  obtain hsame | ⟨a, t, inode, hphase, rfl, heq, hnew⟩ := hadvanced.read (hinv.sound _ _ hg) hname
  · exact .inl hsame
  · obtain rfl := haddressed.eq_manifest heq.symm
    refine .inr ⟨?_, g, t, inode, hg, hphase, hnew⟩
    rw [hrun]
    exact Bool.or_true _

theorem reached_step (h : publishJobs lib jobs s step = some s') {i : Nat}
    (hi : (s.runs i).reached = true) : (s'.runs i).reached = true := by
  obtain ⟨g, p, -, -, -, hrun, hothers⟩ := publishStep_eq_some h
  by_cases hstep : i = step.1
  · rw [hstep] at hi ⊢
    rw [hrun, hi]
    rfl
  · rw [hothers i hstep]
    exact hi

/-- The temporaries of two runs stay apart. -/
theorem apart_step (hinv : PublishInv lib jobs first s) (hok : Undisturbed s step)
    (h : publishJobs lib jobs s step = some s') {j : Nat} (hj : j ≠ step.1) {t : String}
    (ht : (s'.runs step.1).phase.temporary = some t) : (s.runs j).phase.temporary ≠ some t := by
  intro hother
  obtain ⟨g, p, hg, haddressed, hadvanced, hrun, -⟩ := publishStep_eq_some h
  rw [hrun] at ht
  obtain hold | ⟨-, hmove, hfree⟩ := hadvanced.temporary ht
  · exact hinv.apart _ _ t hj hother hold
  · -- The name was free, so the other run has replaced what had it.
    obtain ⟨g', hg'⟩ := Option.isSome_iff_exists.mp (hinv.running j t hother)
    obtain ⟨a, hphase⟩ := (hinv.sound j g' hg').replaced hother hfree
    obtain ⟨i, m⟩ := step
    obtain rfl := hmove
    exact hok j hj a hphase

theorem committed_step (hsha : Function.Injective lib.sha256) (hinv : PublishInv lib jobs first s)
    (h : publishJobs lib jobs s step = some s') : Committed lib jobs first s' := by
  intro data hdata
  obtain hsame | ⟨hreached, g, t, inode, hg, hphase, hnew⟩ := manifest_step hinv h
  · rw [hsame] at hdata
    obtain ⟨g, hmanifest, haddressed, hstored, hsource⟩ := hinv.committed data hdata
    refine ⟨g, hmanifest, haddressed, stored_step hsha hinv h haddressed hstored, ?_⟩
    obtain hfirst | ⟨i, hg, hi⟩ := hsource
    · exact .inl hfirst
    · exact .inr ⟨i, hg, reached_step h hi⟩
  · -- The run has published its other files before its manifest.
    have hstored : g.Stored s.directory := by
      apply Generation.stored_iff.mpr
      intro b hb
      refine hinv.passed _ g b hg ?_ hb
      rw [hphase]
      cases b with
      | manifest => exact absurd rfl hb
      | _ => rfl
    have haddressed := addressed_of_assemble hg
    exact ⟨g, Option.some_inj.mp (hnew.symm.trans hdata), haddressed,
      stored_step hsha hinv h haddressed hstored, .inr ⟨step.1, hg, hreached⟩⟩

/-- Every step keeps the invariant. -/
theorem publishInv_step (hsha : Function.Injective lib.sha256) (hinv : PublishInv lib jobs first s)
    (hok : Undisturbed s step) (h : publishJobs lib jobs s step = some s') :
    PublishInv lib jobs first s' := by
  obtain ⟨mine, p, hmine, haddressed, hadvanced, hrun, hothers⟩ := publishStep_eq_some h
  have hsound := hinv.sound _ _ hmine
  refine ⟨fun i g hg => ?_, fun i j t hij ht => ?_, fun i t ht => ?_, fun i g b hg hb hne => ?_,
    committed_step hsha hinv h⟩
  · -- what a run knows of its own temporary
    by_cases hi : i = step.1
    · subst hi
      obtain rfl := Option.some_inj.mp (hg.symm.trans hmine)
      rw [hrun]
      exact hadvanced.sound hsound
    · rw [hothers i hi]
      refine (hinv.sound i g hg).of_keeps fun t ht => ?_
      refine hadvanced.keeps haddressed hsound ((hinv.sound i g hg).isTemporary ht)
        (hinv.apart _ _ t hi ht) fun hnew => ?_
      refine apart_step hinv hok h hi ?_ ht
      rw [hrun]
      exact hnew
  · -- no two runs have one temporary
    by_cases hi : i = step.1
    · subst hi
      rw [hothers j (Ne.symm hij)]
      exact apart_step hinv hok h (Ne.symm hij) ht
    · rw [hothers i hi] at ht
      intro hj
      by_cases hstep : j = step.1
      · subst hstep
        exact apart_step hinv hok h hi hj ht
      · rw [hothers j hstep] at hj
        exact hinv.apart i j t hij ht hj
  · -- only runs that have begun have one
    by_cases hi : i = step.1
    · rw [hi, hmine]
      rfl
    · rw [hothers i hi] at ht
      exact hinv.running i t ht
  · -- what a run has passed is there
    have hg' := addressed_of_assemble hg
    by_cases hi : i = step.1
    · subst hi
      obtain rfl := Option.some_inj.mp (hg.symm.trans hmine)
      rw [hrun] at hb
      have hkeep := stored_of_advanced hsha hadvanced haddressed hsound haddressed hne
      obtain hb | hread | hread := hadvanced.passed haddressed hsound hb
      · exact hkeep (hinv.passed _ _ b hg hb hne)
      · exact hkeep hread
      · exact hread
    · rw [hothers i hi] at hb
      exact stored_of_advanced hsha hadvanced haddressed hsound hg' hne
        (hinv.passed i g b hg hb hne)

theorem publishInv_start (h : first.Consistent lib) :
    PublishInv lib jobs first ⟨first, fun _ => {}⟩ where
  sound _ _ _ := trivial
  apart _ _ _ _ h := absurd h.symm (Option.some_ne_none _)
  running _ _ h := absurd h.symm (Option.some_ne_none _)
  passed _ _ b _ h _ := by cases b <;> cases h
  committed data hdata := by
    obtain ⟨job, g, hg, hmanifest, hstored⟩ := h data hdata
    exact ⟨g, hmanifest, addressed_of_assemble hg, hstored, .inl ⟨job, hg, hdata⟩⟩

/-- Runs that share a directory, in any order and stopped anywhere, leave it consistent, as long as
no run creates a temporary under a name that another has yet to unlink: its manifest is that of one
run that reached its last step, and names files that are there. A run that has not reached its last
step has changed no manifest, and no step changes the files of a published generation. -/
theorem publication_crash_consistent (hsha : Function.Injective lib.sha256)
    (hfirst : first.Consistent lib) {steps : List (Nat × Move)}
    (hok : StepsMeet (publishJobs lib jobs) Undisturbed ⟨first, fun _ => {}⟩ steps)
    (h : runSteps (publishJobs lib jobs) ⟨first, fun _ => {}⟩ steps = some s) :
    Committed lib jobs first s ∧
      ∀ before step after, steps = before ++ step :: after → ∃ mid mid',
        runSteps (publishJobs lib jobs) ⟨first, fun _ => {}⟩ before = some mid ∧
          publishJobs lib jobs mid step = some mid' ∧
          ((s.runs step.1).reached = false →
            mid'.directory.read manifestName = mid.directory.read manifestName) ∧
          ∀ g : Generation, g.Addressed lib → g.Stored mid.directory → g.Stored s.directory := by
  have hkeep (s : Publishing) (step : Nat × Move) (s' : Publishing)
      (hinv : PublishInv lib jobs first s) (hok : Undisturbed s step)
      (h : publishJobs lib jobs s step = some s') : PublishInv lib jobs first s' :=
    publishInv_step hsha hinv hok h
  have hstart : PublishInv lib jobs first ⟨first, fun _ => {}⟩ := publishInv_start hfirst
  refine ⟨(runSteps_keep hkeep hstart hok h).committed, fun before step after hsteps => ?_⟩
  subst hsteps
  obtain ⟨mid, hmid, h⟩ := runSteps_append.mp h
  obtain ⟨mid', hmid', h⟩ := runSteps_cons.mp h
  obtain ⟨hok, hok'⟩ := stepsMeet_append hok hmid
  have hinv := runSteps_keep hkeep hstart hok hmid
  have hinv' := publishInv_step hsha hinv hok'.1 hmid'
  refine ⟨mid, mid', hmid, hmid', fun hreached => ?_, fun g hg hstored => ?_⟩
  · -- a manifest changes only by a run that reaches its last step
    obtain hsame | ⟨hnow, -⟩ := manifest_step hinv hmid'
    · exact hsame
    · have hlast := runSteps_invariant (fun _ _ _ hi h => reached_step h hi) hnow h
      rw [hreached] at hlast
      cases hlast
  · -- what is stored stays
    have hstored' := stored_step hsha hinv hmid' hg hstored
    have hboth (s : Publishing) (step : Nat × Move) (s' : Publishing)
        (hJ : PublishInv lib jobs first s ∧ g.Stored s.directory) (hok : Undisturbed s step)
        (h : publishJobs lib jobs s step = some s') :
        PublishInv lib jobs first s' ∧ g.Stored s'.directory :=
      ⟨publishInv_step hsha hJ.1 hok h, stored_step hsha hJ.1 h hg hJ.2⟩
    exact (runSteps_keep hboth ⟨hinv', hstored'⟩ (hok'.2 mid' hmid') h).2

end Publication

/-! ### Runs on a base without files -/

/-- A directory without files. -/
def emptyDirectory : Directory where
  files _ := none
  contents _ := []
  inodes := 0
  bound _ _ h := absurd h.symm (Option.some_ne_none _)

theorem emptyDirectory_consistent (lib : Libraries) : emptyDirectory.Consistent lib :=
  fun _ h => absurd h.symm (Option.some_ne_none _)

/-- A run with an `/init` of one byte. -/
def plainJob (text : UInt8) : Job := ⟨plainArgs, plainBase, some (initTree text)⟩

/-- What it publishes. -/
def plainOutput (text : UInt8) : Generation :=
  plainGeneration (newcRecords 1 [("init", ⟨0o100755, 0, 0, 0, 0, [text]⟩), trailerEntry])

theorem output_plainJob {text : UInt8} (h : text = 0x23 ∨ text = 0x24) :
    (plainJob text).output plainLibraries = some (plainOutput text) := by
  have hsorted : [("init", (⟨0o100755, 0, 0, 0, 0, [text]⟩ : ArchiveEntry))].mergeSort entryLe =
      [("init", ⟨0o100755, 0, 0, 0, 0, [text]⟩)] := List.mergeSort_singleton _
  obtain ⟨hmerged, htree, hnumbers, hlength⟩ :
      mergedEntries [] [("init", ⟨0o100755, 0, 0, 0, 0, [text]⟩)] =
        some [("init", ⟨0o100755, 0, 0, 0, 0, [text]⟩)] ∧
      validateTree [("init", ⟨0o100755, 0, 0, 0, 0, [text]⟩)] = true ∧
      (∀ p ∈ [("init", (⟨0o100755, 0, 0, 0, 0, [text]⟩ : ArchiveEntry))], p.2.NumbersFit) ∧
      archiveLength [("init", ⟨0o100755, 0, 0, 0, 0, [text]⟩)] ≤ 4096 := by
    obtain rfl | rfl := h <;> decide +kernel
  have hout := (assemble_plain (overlayEntries_initTree text) hmerged htree hnumbers hlength).1
  rw [newcArchive, hsorted] at hout
  exact hout

theorem sha256_plainLibraries_injective : Function.Injective plainLibraries.sha256 := by
  intro data data' h
  have htext : asciiText data = asciiText data' := String.ofList_injective h
  exact asciiText_injective htext

/-- A file is published without an exception. -/
def publishMoves (i : Nat) (temporary : String) : List (Nat × Move) :=
  [(i, .next), (i, .next), (i, .create temporary), (i, .write 4096), (i, .next), (i, .next),
    (i, .next)]

theorem publishJobs_plain : publishJobs plainLibraries (fun _ => plainJob 0x23) =
    publishStep fun _ => some (plainOutput 0x23) := by
  rw [publishJobs, output_plainJob (.inl rfl)]

/-- The names that `tempfile` picks in a run. -/
def createdNames (steps : List (Nat × Move)) : List String :=
  steps.filterMap fun step =>
    match step.2 with
    | .create t => some t
    | _ => none

/-- Runs whose temporaries all have different names do not disturb each other. -/
theorem undisturbed_of_fresh {lib : Libraries} {jobs : Nat → Job} {s : Publishing}
    {steps : List (Nat × Move)} (hnew : (createdNames steps).Nodup)
    (hfresh : ∀ j, ∀ t ∈ (s.runs j).phase.temporary, t ∉ createdNames steps) :
    StepsMeet (publishJobs lib jobs) Undisturbed s steps := by
  induction steps generalizing s with
  | nil => trivial
  | cons step steps ih =>
    obtain ⟨i, m⟩ := step
    refine ⟨?_, fun s' hs' => ?_⟩
    · -- no name that is created is that of a temporary
      cases m with
      | create t =>
        intro j _ a hphase
        exact hfresh j t (by rw [hphase]; rfl) List.mem_cons_self
      | _ => trivial
    · -- the later names are new too
      obtain ⟨g, phase, -, -, hadvanced, hself, hothers⟩ := publishStep_eq_some hs'
      have hlater : ∀ t, t ∉ createdNames ((i, m) :: steps) → t ∉ createdNames steps := by
        intro t ht hmem
        refine ht ?_
        unfold createdNames at hmem ⊢
        rw [List.filterMap_cons]
        split
        · exact hmem
        · exact List.mem_cons_of_mem _ hmem
      have hrest : (createdNames steps).Nodup := by
        unfold createdNames at hnew ⊢
        rw [List.filterMap_cons] at hnew
        split at hnew
        · exact hnew
        · exact (List.nodup_cons.mp hnew).2
      refine ih hrest fun j t ht => ?_
      -- the run of this step, which may have created a temporary
      by_cases hj : j = i
      · rw [hj, hself] at ht
        obtain hold | ⟨-, hcreate, -⟩ := hadvanced.temporary ht
        · exact hlater t (hfresh i t hold)
        · change m = .create t at hcreate
          rw [hcreate] at hnew
          exact (List.nodup_cons.mp hnew).1
      · -- another run
        rw [hothers j hj] at ht
        exact hlater t (hfresh j t ht)

/-- Run 0 publishes the kernel and is stopped in the middle of its ramdisk. Run 1 finds the kernel
there and publishes the rest. -/
def interleavedMoves : List (Nat × Move) :=
  [(0, .next), (1, .next), (0, .next), (0, .create "tmp0"), (0, .write 30), (0, .write 30),
    (0, .next), (0, .next), (1, .next), (0, .next), (1, .next), (0, .next), (1, .next), (0, .next),
    (0, .create "tmp1"), (1, .next), (0, .write 100), (1, .next), (0, .stop),
    (1, .create "tmp2"), (1, .write 4096), (1, .next), (1, .next), (1, .next)] ++
  publishMoves 1 "tmp3"

/-- Their scripts differ. -/
def interleavedText (i : Nat) : UInt8 := if i = 0 then 0x23 else 0x24

theorem publishJobs_interleaved :
    publishJobs plainLibraries (fun i => plainJob (interleavedText i)) =
      publishStep fun i => some (plainOutput (interleavedText i)) := by
  have htext (i : Nat) : interleavedText i = 0x23 ∨ interleavedText i = 0x24 := by
    unfold interleavedText
    split
    · exact .inl rfl
    · exact .inr rfl
  rw [publishJobs, funext fun i => output_plainJob (htext i)]

/-- Two runs interleave, the first is stopped, and the second publishes. -/
theorem publication_crash_consistent_interleaved : ∃ s,
    runSteps (publishJobs plainLibraries fun i => plainJob (interleavedText i))
      ⟨emptyDirectory, fun _ => {}⟩ interleavedMoves = some s ∧
    (s.runs 0).phase = .stopped ∧
    s.directory.read manifestName = some (plainOutput 0x24).manifest ∧
    Committed plainLibraries (fun i => plainJob (interleavedText i)) emptyDirectory s := by
  have hends : (runSteps (publishStep fun i => some (plainOutput (interleavedText i)))
      ⟨emptyDirectory, fun _ => {}⟩ interleavedMoves).map
        (fun s => ((s.runs 0).phase, s.directory.read manifestName)) =
      some (.stopped, some (plainOutput 0x24).manifest) := by
    decide +kernel
  rw [← publishJobs_interleaved] at hends
  obtain ⟨s, hs, hend⟩ := Option.map_eq_some_iff.mp hends
  obtain ⟨hstopped, hread⟩ := Prod.mk.inj hend
  refine ⟨s, hs, hstopped, hread, (publication_crash_consistent sha256_plainLibraries_injective
    (emptyDirectory_consistent _) (undisturbed_of_fresh (by decide +kernel) ?_) hs).1⟩
  exact fun j t ht => absurd ht.symm (Option.some_ne_none _)

/-- Run 0 has replaced its temporary when run 1 creates one of the same name, and unlinks that one.
Run 2 creates it again, and run 1 replaces the kernel by the empty file. -/
def disturbedMoves : List (Nat × Move) :=
  [(0, .next), (0, .next), (1, .next), (1, .next), (2, .next), (2, .next),
    (0, .create "tmp0"), (0, .write 60), (0, .next), (0, .next),
    (1, .create "tmp0"), (1, .write 60), (1, .next),
    (0, .next), (2, .create "tmp0"), (1, .next), (1, .next)] ++
  publishMoves 1 "tmp1" ++ publishMoves 1 "tmp2"

/-- A manifest is published whose kernel is empty. -/
theorem kernel_lost_to_unlink : ∃ lib jobs first s, Function.Injective lib.sha256 ∧
    first.Consistent lib ∧
    runSteps (publishJobs lib jobs) ⟨first, fun _ => {}⟩ disturbedMoves = some s ∧
      ¬ Committed lib jobs first s := by
  have hreads : (runSteps (publishStep fun _ => some (plainOutput 0x23))
    ⟨emptyDirectory, fun _ => {}⟩
      disturbedMoves).map (fun s => (s.directory.read manifestName,
        s.directory.read (plainOutput 0x23).imageName)) =
          some (some (plainOutput 0x23).manifest, some []) := by
    decide +kernel
  rw [← publishJobs_plain] at hreads
  obtain ⟨s, hs, hread⟩ := Option.map_eq_some_iff.mp hreads
  obtain ⟨hmanifest, himage⟩ := Prod.mk.inj hread
  refine ⟨_, _, _, s, sha256_plainLibraries_injective, emptyDirectory_consistent _, hs, ?_⟩
  intro hcommitted
  obtain ⟨g, -, -, hstored, hsource⟩ := hcommitted _ hmanifest
  obtain ⟨job, -, hfirst⟩ | ⟨i, hg, -⟩ := hsource
  · exact Option.some_ne_none _ hfirst.symm
  · obtain rfl := Option.some_inj.mp (hg.symm.trans (output_plainJob (.inl rfl)))
    have hempty := himage.symm.trans hstored.1
    revert hempty
    decide +kernel

end HyperIoVm
