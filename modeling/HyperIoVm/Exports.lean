import HyperIoVm.Confinement
import HyperIoVm.Data.Text
import HyperIoVm.Purpose

/-!
# What is exported

The device-mapper devices and their nodes, the directories of the configfs target with their
attributes, and the LUN symlinks, as a contract that watches the calls of a publication.
-/

namespace HyperIoVm

open Data Effects Routine

/-! ## Names -/

/-- The device-mapper name of a client's range. -/
def mapperName (client : UInt32) : String := s!"hyper-client-{client.toNat}"

/-- The symlink that publishes a client's LUN. -/
def lunSymlink (client : UInt32) : String := (targetPaths client (mapperName client)).lun ++ "/disk"

theorem mapperName_injective {client client' : UInt32}
    (h : mapperName client = mapperName client') :
    client = client' := by
  have hdigits : client.toNat.repr = client'.toNat.repr := by
    simpa [mapperName, toString, String.append_right_inj] using h
  refine UInt32.toNat_inj.mp ?_
  rw [← Nat.ofDigitChars_ten_toDigits (n := client.toNat), ← Nat.toList_repr, hdigits,
    Nat.toList_repr, Nat.ofDigitChars_ten_toDigits]

theorem hex9_injective {m n : Nat} (h : hex9 m = hex9 n) : m = n := by
  have hvalue (n : Nat) : hexValue (hex9 n).toList = n := by
    rw [hex9, String.toList_ofList, hexValue_padded, hexValue_toDigits]
  rw [← hvalue m, h, hvalue]

theorem lunSymlink_injective {client client' : UInt32}
    (h : lunSymlink client = lunSymlink client') :
    client = client' := by
  apply UInt32.toNat_inj.mp
  apply hex9_injective
  rw [lunSymlink, lunSymlink] at h
  unfold targetPaths at h
  dsimp only at h
  rw [String.append_left_inj, String.append_left_inj] at h
  exact (String.append_right_inj _).mp h

/-! ## What exists -/

/-- A device-mapper device: the table that was loaded for the next resume, and the live one. -/
structure Mapper where
  device : Dev
  loaded : Option DmTable := none
  live : Option DmTable := none
  readOnly : Bool := false
  deriving DecidableEq

/-- The objects that a publication makes. The attributes are those of the configfs objects that the
directories stand for. -/
structure Exports where
  mappers : String → Option Mapper := fun _ => none
  nodes : String → Option Dev := fun _ => none
  directories : String → Bool := fun _ => false
  attributes : String → Option String := fun _ => none
  links : String → Option String := fun _ => none

/-- The path lies below the directory. -/
def Under (directory path : String) : Prop := directory.toList ++ ['/'] <+: path.toList

instance (directory path : String) : Decidable (Under directory path) :=
  inferInstanceAs (Decidable (_ <+: _))

theorem under_append {directory name : String} (h : name.toList.head? = some '/') :
    Under directory (directory ++ name) := by
  obtain ⟨rest, hrest⟩ := List.head?_eq_some_iff.mp h
  refine ⟨rest, ?_⟩
  rw [String.toList_append, hrest, List.append_assoc]
  rfl

namespace Exports

def setMapper (e : Exports) (name : String) (mapper : Option Mapper) : Exports :=
  { e with mappers := Function.update e.mappers name mapper }

/-- Change a device that exists. -/
def modifyMapper (e : Exports) (name : String) (f : Mapper → Mapper) : Exports :=
  e.setMapper name ((e.mappers name).map f)

def setNode (e : Exports) (path : String) (node : Option Dev) : Exports :=
  { e with nodes := Function.update e.nodes path node }

def makeDirectory (e : Exports) (path : String) : Exports :=
  { e with directories := Function.update e.directories path true }

/-- An object goes with its attributes. -/
def removeDirectory (e : Exports) (path : String) : Exports :=
  { e with
    directories := Function.update e.directories path false
    attributes := fun name => if Under path name then none else e.attributes name }

def setAttribute (e : Exports) (path value : String) : Exports :=
  { e with attributes := Function.update e.attributes path (some value) }

def makeLink (e : Exports) (target path : String) : Exports :=
  { e with links := Function.update e.links path (some target) }

/-- The attributes belong to objects that exist. -/
def Sound (e : Exports) : Prop :=
  ∀ directory, e.directories directory = false → ∀ path, Under directory path →
    e.attributes path = none

end Exports

/-! ## The calls -/

/-- The objects, and the attributes that descriptors have open. -/
structure Storage extends Exports where
  files : Fd → Option String := fun _ => none

namespace Storage

def setExports (w : Storage) (e : Exports) : Storage := { w with toExports := e }

/-- A write stores the value of an attribute when it takes all of it. -/
def store (w : Storage) (fd : Fd) (value : String) (written : Nat) : Storage :=
  match w.files fd with
  | none => w
  | some path =>
    if written = value.utf8ByteSize then w.setExports (w.setAttribute path value) else w

/-- How a call and its answer change the storage. A call that fails has no effect. -/
def next (w : Storage) : (c : Call) → c.Reply → Storage
  | .dmDevCreate _ name, some device => w.setExports (w.setMapper name (some { device }))
  | .ioctl _ (.dmTableLoad name table), .ok =>
    w.setExports (w.modifyMapper name fun m => { m with loaded := some table })
  | .ioctl _ (.dmDevSuspend name readOnly), .ok =>
    w.setExports (w.modifyMapper name fun m =>
      { m with loaded := none, live := m.loaded.or m.live, readOnly })
  | .ioctl _ (.dmDevRemove name), .ok => w.setExports (w.setMapper name none)
  | .mknod path device, .ok => w.setExports (w.setNode path (some device))
  | .unlink path, .ok => w.setExports (w.setNode path none)
  | .mkdir path, .ok _ => w.setExports (w.makeDirectory path)
  | .rmdir path, .ok => w.setExports (w.removeDirectory path)
  | .symlink target path, .ok => w.setExports (w.makeLink target path)
  | .openNode (.attribute path), .ok fd =>
    { w with files := Function.update w.files fd (some path) }
  | .write fd value, some written => w.store fd value written
  | .close fd, _ => { w with files := Function.update w.files fd none }
  | _, _ => w

/-- The call creates what exists already. -/
def occupied (w : Storage) : (c : Call) → c.Reply → Bool
  | .dmDevCreate _ name, some _ => (w.mappers name).isSome
  | .mknod path _, .ok => (w.nodes path).isSome
  | .mkdir path, .ok _ => w.directories path
  | .symlink _ path, .ok => (w.links path).isSome
  | _, _ => false

/-- The storage after some calls. -/
def after (w : Storage) (es : List (Event Sys)) : Storage := es.foldl (fun w e => w.next e.1 e.2) w

theorem after_append (w : Storage) (es fs : List (Event Sys)) :
    w.after (es ++ fs) = (w.after es).after fs := List.foldl_append

end Storage

/-- No call creates what exists: `mkdir`, `mknod`, `symlink` and the creation of a device answer
`EEXIST` then. -/
def CreatesNew (w : Storage) (es : List (Event Sys)) : Prop :=
  ∀ pre e post, es = pre ++ e :: post → (w.after pre).occupied e.1 e.2 = false

theorem createsNew_cons {w : Storage} {e : Event Sys} {es : List (Event Sys)} :
    CreatesNew w (e :: es) ↔ w.occupied e.1 e.2 = false ∧ CreatesNew (w.next e.1 e.2) es := by
  refine ⟨fun h => ⟨h [] e es rfl, fun pre e' post hes => ?_⟩, fun h pre e' post hes => ?_⟩
  · exact h (e :: pre) e' post (by rw [hes]; rfl)
  · cases pre with
    | nil =>
      obtain ⟨rfl, -⟩ := List.cons.inj hes
      exact h.1
    | cons e'' pre =>
      obtain ⟨rfl, hrest⟩ := List.cons.inj hes
      exact h.2 pre e' post hrest

instance decidableCreatesNew : (w : Storage) → (es : List (Event Sys)) → Decidable (CreatesNew w es)
  | _, [] => isTrue fun pre e post hes => absurd hes (by simp)
  | w, e :: es =>
    have := decidableCreatesNew (w.next e.1 e.2) es
    decidable_of_iff _ createsNew_cons.symm

/-- What is undone succeeds. -/
def RollsBack : (c : Call) → c.Reply → Prop
  | .ioctl _ (.dmDevRemove _), r => r = Outcome.ok
  | .rmdir _, r | .unlink _, r => r = Outcome.ok
  | _, _ => True

/-- The contract that watches the storage. A symlink may be made when it is `ready`; `exclusive`
and `rollsBack` say what is assumed of Linux. -/
def storage (ready : Exports → String → String → Prop) (exclusive rollsBack : Prop) :
    Contract Sys Storage where
  allows w
    | .symlink target path => ready w.toExports target path
    | _ => True
  assumes w c r := (exclusive → w.occupied c r = false) ∧ (rollsBack → RollsBack c r)
  next := Storage.next

theorem storage_assumed {ready : Exports → String → String → Prop} {exclusive rollsBack : Prop}
    {w : Storage} {es : List (Event Sys)} (hexclusive : exclusive → CreatesNew w es)
    (hback : rollsBack → ∀ e ∈ es, RollsBack e.1 e.2) :
    (storage ready exclusive rollsBack).Assumed w es := by
  refine Contract.assumed_of_forall _ fun pre e post hes => ⟨fun hx => ?_, fun hr => ?_⟩
  · exact hexclusive hx pre e post hes
  · exact hback hr e (by rw [hes]; simp)

/-! ### Devices and links -/

theorem links_store (w : Storage) (fd : Fd) (value : String) (written : Nat) :
    (w.store fd value written).links = w.links := by
  unfold Storage.store
  split
  · rfl
  · split <;> rfl

/-- Only `symlink` makes links. -/
theorem links_next (w : Storage) {c : Call} (r : c.Reply)
    (h : ∀ target path, c ≠ .symlink target path) : (w.next c r).links = w.links := by
  unfold Storage.next
  split
  case h_9 target path => exact absurd rfl (h target path)
  case h_11 => exact links_store ..
  all_goals rfl

theorem mappers_store (w : Storage) (fd : Fd) (value : String) (written : Nat) :
    (w.store fd value written).mappers = w.mappers := by
  unfold Storage.store
  split
  · rfl
  · split <;> rfl

/-- The calls that make or change a device or a link. -/
def Call.publishes : Call → Bool
  | .dmDevCreate _ _ | .symlink _ _ | .ioctl _ (.dmTableLoad _ _) | .ioctl _ (.dmDevSuspend _ _)
  | .ioctl _ (.dmDevRemove _) => true
  | _ => false

/-- All other calls leave the devices and the links alone. -/
theorem unpublished_next (w : Storage) {c : Call} (r : c.Reply) (h : c.publishes = false) :
    (w.next c r).mappers = w.mappers ∧ (w.next c r).links = w.links := by
  refine ⟨?_, links_next w r fun target path hc => by rw [hc] at h; cases h⟩
  unfold Storage.next
  split
  case h_1 | h_2 | h_3 | h_4 => cases h
  case h_11 => exact mappers_store ..
  all_goals rfl

/-- A link, once made, stays. -/
theorem links_kept {w : Storage} {c : Call} {r : c.Reply} (hnew : w.occupied c r = false)
    {path target : String} (h : w.links path = some target) :
    (w.next c r).links path = some target := by
  cases c with
  | symlink target' path' =>
    cases r with
    | failed => exact h
    | ok =>
      have hne : path ≠ path' := by
        intro hsame
        have hnone : (w.links path').isSome = false := hnew
        rw [← hsame, h] at hnone
        cases hnone
      show Function.update w.links path' (some target') path = some target
      rw [Function.update_of_ne hne]
      exact h
  | _ =>
    rw [links_next _ _ (fun _ _ hc => by cases hc)]
    exact h

theorem CreatesNew.links_kept {w : Storage} {es : List (Event Sys)} (hnew : CreatesNew w es)
    {path target : String} (h : w.links path = some target) :
    (w.after es).links path = some target := by
  induction es generalizing w with
  | nil => exact h
  | cons e es ih =>
    obtain ⟨hfirst, hrest⟩ := createsNew_cons.mp hnew
    exact ih hrest (HyperIoVm.links_kept hfirst h)

theorem CreatesNew.links_eq {w : Storage} {es : List (Event Sys)} (hnew : CreatesNew w es)
    (h : ∀ path target, (w.after es).links path = some target → w.links path = some target) :
    (w.after es).links = w.links := by
  funext path
  cases hbefore : w.links path with
  | some target => exact hnew.links_kept hbefore
  | none =>
    cases hlink : (w.after es).links path with
    | none => rfl
    | some target =>
      rw [h path target hlink] at hbefore
      cases hbefore

theorem CreatesNew.append {w : Storage} {es fs : List (Event Sys)} (h : CreatesNew w (es ++ fs)) :
    CreatesNew w es ∧ CreatesNew (w.after es) fs := by
  refine ⟨fun pre e post hes => ?_, fun pre e post hfs => ?_⟩
  · exact h pre e (post ++ fs) (by rw [hes, List.append_assoc]; rfl)
  · rw [← Storage.after_append]
    exact h (es ++ pre) e post (by rw [hfs, List.append_assoc])

end HyperIoVm
