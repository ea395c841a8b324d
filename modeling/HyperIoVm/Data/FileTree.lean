import Mathlib.Algebra.Order.Group.Multiset
import Mathlib.Data.List.Nodup

/-!
# Trees of files

A directory holds files and directories. A walk goes from the top down into the directories that it
can list: what it finds and what is hidden from it are together all the paths there are.
-/

namespace HyperIoVm.Data

/-- What is in a directory, in the order in which it is listed. `info` is what is known of a path. A
directory that cannot be listed has its contents all the same. -/
inductive FileTree (ν α : Type) where
  | nil
  | file (name : ν) (info : α) (rest : FileTree ν α)
  | directory (name : ν) (info : α) (listable : Bool) (below rest : FileTree ν α)

namespace FileTree

variable {ν α : Type} {dir : List ν} {tree : FileTree ν α}

/-- A listing: the names, without what is below them. -/
def listing : FileTree ν α → List (ν × α)
  | nil => []
  | file name info rest => (name, info) :: rest.listing
  | directory name info _ _ rest => (name, info) :: rest.listing

/-- The paths of a listing, when `dir` is the path of the directory. -/
def pathsIn (dir : List ν) (names : List (ν × α)) : List (List ν × α) :=
  names.map fun p => (dir ++ [p.1], p.2)

/-- All the paths below `dir`. -/
def paths : List ν → FileTree ν α → List (List ν × α)
  | _, nil => []
  | dir, file name info rest => (dir ++ [name], info) :: paths dir rest
  | dir, directory name info _ below rest =>
    (dir ++ [name], info) :: (paths (dir ++ [name]) below ++ paths dir rest)

/-- The directories below `dir` that a walk comes to, each with its listing: first a directory, then
those in it. -/
def walk : List ν → FileTree ν α → List (List ν × List (ν × α))
  | _, nil => []
  | dir, file _ _ rest => walk dir rest
  | dir, directory name _ listable below rest =>
    (if listable then (dir ++ [name], below.listing) :: walk (dir ++ [name]) below else []) ++
      walk dir rest

/-- The paths that a walk does not come to. -/
def hidden : List ν → FileTree ν α → List (List ν × α)
  | _, nil => []
  | dir, file _ _ rest => hidden dir rest
  | dir, directory name _ listable below rest =>
    (if listable then hidden (dir ++ [name]) below else paths (dir ++ [name]) below) ++
      hidden dir rest

/-- The names in a directory are different. -/
def Formed : FileTree ν α → Prop
  | nil => True
  | file name _ rest => name ∉ rest.listing.map (·.1) ∧ rest.Formed
  | directory name _ _ below rest =>
    name ∉ rest.listing.map (·.1) ∧ below.Formed ∧ rest.Formed

instance decidableFormed [DecidableEq ν] : (tree : FileTree ν α) → Decidable tree.Formed
  | nil => .isTrue trivial
  | file name _ rest =>
    have : Decidable rest.Formed := decidableFormed rest
    inferInstanceAs (Decidable (name ∉ rest.listing.map (·.1) ∧ rest.Formed))
  | directory name _ _ below rest =>
    have : Decidable below.Formed := decidableFormed below
    have : Decidable rest.Formed := decidableFormed rest
    inferInstanceAs (Decidable (name ∉ rest.listing.map (·.1) ∧ below.Formed ∧ rest.Formed))

/-- Every path goes through a name of the listing. -/
theorem exists_prefix_of_mem_paths {p : List ν × α} (h : p ∈ paths dir tree) :
    ∃ name ∈ tree.listing.map (·.1), dir ++ [name] <+: p.1 := by
  induction tree generalizing dir with
  | nil => cases h
  | file name info rest ih =>
    rw [listing, List.map_cons]
    obtain rfl | h := List.mem_cons.mp h
    · exact ⟨name, List.mem_cons_self, List.prefix_rfl⟩
    · obtain ⟨name', hname, hprefixed⟩ := ih h
      exact ⟨name', List.mem_cons_of_mem _ hname, hprefixed⟩
  | directory name info listable below rest ihBelow ihRest =>
    rw [listing, List.map_cons]
    obtain rfl | h := List.mem_cons.mp h
    · exact ⟨name, List.mem_cons_self, List.prefix_rfl⟩
    obtain h | h := List.mem_append.mp h
    · obtain ⟨name', -, hprefixed⟩ := ihBelow h
      exact ⟨name, List.mem_cons_self, (List.prefix_append _ _).trans hprefixed⟩
    · obtain ⟨name', hname, hprefixed⟩ := ihRest h
      exact ⟨name', List.mem_cons_of_mem _ hname, hprefixed⟩

/-- A path goes through one name of a directory. -/
theorem name_eq_of_prefixed {name name' : ν} {path : List ν} (h : dir ++ [name] <+: path)
    (h' : dir ++ [name'] <+: path) : name = name' := by
  have hlength : (dir ++ [name]).length = (dir ++ [name']).length := by
    rw [List.length_append, List.length_append]
    rfl
  have heq := (List.prefix_of_prefix_length_le h h' (Nat.le_of_eq hlength)).eq_of_length hlength
  exact List.singleton_inj.mp (List.append_cancel_left heq)

theorem notMem_paths {name : ν} {path : List ν} (hname : name ∉ tree.listing.map (·.1))
    (h : dir ++ [name] <+: path) : path ∉ (paths dir tree).map (·.1) := by
  intro hmem
  obtain ⟨p, hp, rfl⟩ := List.mem_map.mp hmem
  obtain ⟨name', hname', hprefixed⟩ := exists_prefix_of_mem_paths hp
  exact hname (name_eq_of_prefixed h hprefixed ▸ hname')

/-- No path is there twice. -/
theorem nodup_paths (h : tree.Formed) : ((paths dir tree).map (·.1)).Nodup := by
  induction tree generalizing dir with
  | nil => exact List.nodup_nil
  | file name info rest ih =>
    rw [paths, List.map_cons, List.nodup_cons]
    exact ⟨notMem_paths h.1 List.prefix_rfl, ih h.2⟩
  | directory name info listable below rest ihBelow ihRest =>
    rw [paths, List.map_cons, List.nodup_cons, List.map_append, List.mem_append, not_or]
    refine ⟨⟨?_, notMem_paths h.1 List.prefix_rfl⟩, List.Nodup.append (ihBelow h.2.1)
      (ihRest h.2.2) ?_⟩
    · -- what is below the directory has a longer path
      intro hmem
      obtain ⟨p, hp, hpath⟩ := List.mem_map.mp hmem
      obtain ⟨name', -, hprefixed⟩ := exists_prefix_of_mem_paths hp
      have hlength := hprefixed.length_le
      rw [hpath] at hlength
      simp only [List.length_append, List.length_singleton] at hlength
      omega
    · intro path hbelow
      obtain ⟨p, hp, rfl⟩ := List.mem_map.mp hbelow
      obtain ⟨name', -, hprefixed⟩ := exists_prefix_of_mem_paths hp
      exact notMem_paths h.1 ((List.prefix_append _ _).trans hprefixed)

/-- The paths of a tree are those in its listing, those a walk comes to and those hidden from it. -/
theorem perm_paths : (paths dir tree).Perm (pathsIn dir tree.listing ++
    (walk dir tree).flatMap (fun p => pathsIn p.1 p.2) ++ hidden dir tree) := by
  induction tree generalizing dir with
  | nil => exact List.Perm.refl _
  | file name info rest ih => exact ih.cons _
  | directory name info listable below rest ihBelow ihRest =>
    have hbelow := Multiset.coe_eq_coe.mpr (@ihBelow (dir ++ [name]))
    have hrest := Multiset.coe_eq_coe.mpr (@ihRest dir)
    have hlisting : pathsIn dir (directory name info listable below rest).listing =
        (dir ++ [name], info) :: pathsIn dir rest.listing := rfl
    rw [paths, walk, hidden, hlisting, ← Multiset.coe_eq_coe]
    simp only [← Multiset.coe_add, ← Multiset.cons_coe, List.flatMap_append,
      ← Multiset.singleton_add] at hbelow hrest ⊢
    rw [hrest]
    cases listable with
    | false =>
      simp only [Bool.false_eq_true, if_false, List.flatMap_nil, Multiset.coe_nil, zero_add]
      ac_rfl
    | true =>
      rw [hbelow]
      simp only [if_true, List.flatMap_cons, ← Multiset.coe_add]
      ac_rfl

end FileTree

end HyperIoVm.Data
