/-
FatJar.Proofs.Archive.Below — what is below a directory, and how deep it can be.

Something below a directory is known by the names that lead to it, one for each
directory on the way; a link to a directory is entered like a directory. In a
readable directory every way leads to a directory or to a file that can be read,
and no way comes to a directory that it has come through before. So a way passes
each place of the tree at most once, and is no longer than the tree has nodes
(`IsReadable.length_le`).

Contents:
1. the names that lead below a directory;
2. readable directories;
3. the length of a way.
-/
import FatJar.Proofs.FileTree.Listing
import Mathlib.Data.List.Induction
import Mathlib.Data.List.Perm.Subperm
import Mathlib.Tactic.Choose

namespace FatJar.FileTree

variable {t : FileTree} {root : Path} {names more listed : List String} {name : String}

/-! ## 1. Ways -/

/-- The path to which names lead from a root. -/
def along (root : Path) (names : List String) : Path :=
  names.foldl (fun p name => p.join ⟨name⟩) root

theorem along_concat (root : Path) (names : List String) (name : String) :
    along root (names ++ [name]) = (along root names).join ⟨name⟩ := by
  simp [along]

/-- The names lead from the root to something that is in it: each is listed in the directory to
which the ones before it lead. -/
inductive Reaches (t : FileTree) (root : Path) : List String → Prop
  | here : Reaches t root []
  | child {names listed : List String} {name : String} (habove : Reaches t root names)
      (hlist : t.list (along root names) = .ok listed) (hname : name ∈ listed) :
      Reaches t root (names ++ [name])

theorem reaches_concat_iff :
    Reaches t root (names ++ [name]) ↔
      Reaches t root names ∧ ∃ listed, t.list (along root names) = .ok listed ∧ name ∈ listed := by
  constructor
  · intro h
    generalize hall : names ++ [name] = all at h
    cases h with
    | here => simp at hall
    | child habove hlist hname =>
      obtain ⟨rfl, hlast⟩ := List.append_inj' hall rfl
      cases hlast
      exact ⟨habove, _, hlist, hname⟩
  · rintro ⟨habove, listed, hlist, hname⟩
    exact .child habove hlist hname

/-- A way goes through what it passes. -/
theorem Reaches.of_append (h : Reaches t root (names ++ more)) : Reaches t root names := by
  induction more using List.reverseRecOn with
  | nil => simpa using h
  | append_singleton more name ih =>
    rw [← List.append_assoc] at h
    exact ih (reaches_concat_iff.mp h).1

/-- What a way passes is a directory. -/
theorem Reaches.isDirectory_of_append (h : Reaches t root (names ++ more)) (hmore : more ≠ []) :
    t.isDirectory (along root names) = true := by
  obtain ⟨name, rest, rfl⟩ := List.exists_cons_of_ne_nil hmore
  rw [List.append_cons] at h
  obtain ⟨-, listed, hlist, -⟩ := reaches_concat_iff.mp h.of_append
  exact isDirectory_of_list hlist

/-- The names on a way are those of files. -/
theorem Reaches.isFileName (ht : t.IsProper) (h : Reaches t root names) :
    ∀ name ∈ names, IsFileName name := by
  induction h with
  | here => exact nofun
  | child _ hlist hname ih =>
    obtain ⟨place, -, -, rfl⟩ := list_eq_ok_iff.mp hlist
    intro other hother
    rcases List.mem_append.mp hother with hother | hlast
    · exact ih other hother
    · exact List.mem_singleton.mp hlast ▸ ht.isFileName hname

/-! ## 2. Readable directories -/

/-- A directory below which everything can be read, without cycles: every way below it leads to a
directory or to a file, through whatever links, and never to a directory that is on the way. -/
structure IsReadable (t : FileTree) (root : Path) : Prop where
  directory : t.isDirectory root = true
  readable : ∀ names, Reaches t root names →
    t.isDirectory (along root names) = true ∨ ∃ content, t.read (along root names) = .ok content
  acyclic : ∀ names more, more ≠ [] → Reaches t root (names ++ more) →
    t.isDirectory (along root (names ++ more)) = true →
      t.resolve (along root names) ≠ t.resolve (along root (names ++ more))

/-! ## 3. Length -/

/-- A place at which a directory stands is the root or is listed among the nodes. -/
theorem mem_places_of_directory {place : Place} (h : t.node? place = some .directory) :
    place ∈ [] :: t.nodes.map (·.1) := by
  by_cases hne : place = []
  · exact hne ▸ List.mem_cons_self
  · refine List.mem_cons_of_mem _ ?_
    rw [node?_of_ne_nil hne] at h
    obtain ⟨entry, hfind, -⟩ := Option.map_eq_some_iff.mp h
    have hplace : entry.1 = place := by simpa using List.find?_some hfind
    exact hplace ▸ List.mem_map_of_mem (List.mem_of_find?_eq_some hfind)

/-- A way to a directory passes each place once, so it is no longer than the tree has nodes. -/
theorem IsReadable.length_le (h : t.IsReadable root) (hreaches : Reaches t root names)
    (hdirectory : t.isDirectory (along root names) = true) : names.length ≤ t.nodes.length := by
  have hpassed : ∀ i, t.isDirectory (along root (names.take i)) = true := fun i => by
    by_cases hmore : names.drop i = []
    · rwa [List.take_of_length_le (List.drop_eq_nil_iff.mp hmore)]
    · exact Reaches.isDirectory_of_append (by rwa [List.take_append_drop]) hmore
  choose place hresolve hnode using fun i => isDirectory_iff.mp (hpassed i)
  -- two stops of the way are two places
  have hapart : ∀ i j, i < j → j ≤ names.length → place i ≠ place j := by
    intro i j hij hj hsame
    have hsplit : names.take j = names.take i ++ (names.take j).drop i := by
      have htake : (names.take j).take i = names.take i := by
        rw [List.take_take, Nat.min_eq_left (Nat.le_of_lt hij)]
      rw [← htake, List.take_append_drop]
    have hmore : (names.take j).drop i ≠ [] := by
      rw [ne_eq, List.drop_eq_nil_iff, List.length_take]
      omega
    have hreaches' : Reaches t root (names.take j) := by
      rw [← List.take_append_drop j names] at hreaches
      exact hreaches.of_append
    refine h.acyclic (names.take i) _ hmore (hsplit ▸ hreaches') (hsplit ▸ hpassed j) ?_
    rw [← hsplit, hresolve, hresolve, hsame]
  have hnodup : ((List.range (names.length + 1)).map place).Nodup := by
    refine List.Nodup.map_on (fun i hi j hj hsame => ?_) List.nodup_range
    rw [List.mem_range] at hi hj
    rcases Nat.lt_trichotomy i j with hij | hij | hij
    · exact absurd hsame (hapart i j hij (by omega))
    · exact hij
    · exact absurd hsame.symm (hapart j i hij (by omega))
  have hsubset : (List.range (names.length + 1)).map place ⊆ [] :: t.nodes.map (·.1) := by
    intro found hfound
    obtain ⟨i, -, rfl⟩ := List.mem_map.mp hfound
    exact mem_places_of_directory (hnode i)
  have hlength := (hnodup.subperm hsubset).length_le
  simpa using hlength

end FatJar.FileTree
