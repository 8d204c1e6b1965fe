/-
FatJar.Proofs.FileTree.Listing — what a directory lists, and in which order.

The system lists the names in a directory in an order of its own, which is the
order of the nodes here. In a tree that has one node at each place the order of
the nodes shows nowhere else (`keeps_of_perm`).

Contents:
1. proper trees;
2. what is listed, and what is read;
3. trees with the same nodes in another order.
-/
import FatJar.Proofs.FileTree.Walk
import Mathlib.Data.List.Nodup

namespace FatJar.FileTree

open Outcome

/-! ## 1. Proper trees -/

/-- A name that a file can have: it is not empty and has no slash in it. -/
structure IsFileName (name : String) : Prop where
  ne_empty : name ≠ ""
  slash_not_mem : '/' ∉ name.toList

instance (name : String) : Decidable (IsFileName name) :=
  decidable_of_iff (name ≠ "" ∧ '/' ∉ name.toList)
    ⟨fun h => ⟨h.1, h.2⟩, fun h => ⟨h.ne_empty, h.slash_not_mem⟩⟩

/-- A tree with one node at each place, whose places are made of names. -/
structure IsProper (t : FileTree) : Prop where
  distinct : (t.nodes.map (·.1)).Nodup
  fileNames : ∀ entry ∈ t.nodes, ∀ name ∈ entry.1, IsFileName name

instance (t : FileTree) : Decidable t.IsProper :=
  decidable_of_iff
    ((t.nodes.map (·.1)).Nodup ∧ ∀ entry ∈ t.nodes, ∀ name ∈ entry.1, IsFileName name)
    ⟨fun h => ⟨h.1, h.2⟩, fun h => ⟨h.distinct, h.fileNames⟩⟩

variable {t u : FileTree} {p : Path} {place : Place} {name : String} {listed : List String}

/-! ## 2. Names -/

/-- A name in a directory is the last one of a place there. -/
theorem mem_names_iff : name ∈ t.names place ↔ place ++ [name] ∈ t.nodes.map (·.1) := by
  simp only [names, List.mem_filterMap, List.mem_map]
  constructor
  · rintro ⟨entry, hentry, hname⟩
    split at hname
    · rename_i hplace
      refine ⟨entry, hentry, ?_⟩
      rw [← beq_iff_eq.mp hplace]
      obtain ⟨above, habove⟩ := List.getLast?_eq_some_iff.mp hname
      rw [habove, List.dropLast_concat]
    · cases hname
  · rintro ⟨entry, hentry, hplace⟩
    exact ⟨entry, hentry, by simp [hplace]⟩

theorem IsProper.isFileName (ht : t.IsProper) (h : name ∈ t.names place) : IsFileName name := by
  obtain ⟨entry, hentry, hplace⟩ := List.mem_map.mp (mem_names_iff.mp h)
  exact ht.fileNames entry hentry name (by simp [hplace])

/-- No name is listed twice. -/
theorem IsProper.nodup_names (ht : t.IsProper) (place : Place) : (t.names place).Nodup := by
  have hnames : t.names place = (t.nodes.map (·.1)).filterMap fun above =>
      if above.dropLast == place then above.getLast? else none := by
    rw [List.filterMap_map]
    rfl
  rw [hnames]
  -- a place is known by the directory that it is in and its last name
  refine List.Nodup.filterMap (fun above above' name hname hname' => ?_) ht.distinct
  split at hname
  · split at hname'
    · rename_i hplace hplace'
      obtain ⟨before, rfl⟩ := List.getLast?_eq_some_iff.mp hname
      obtain ⟨before', rfl⟩ := List.getLast?_eq_some_iff.mp hname'
      simp only [List.dropLast_concat, beq_iff_eq] at hplace hplace'
      rw [hplace, hplace']
    · cases hname'
  · cases hname

/-- A directory can be listed, and nothing else can. -/
theorem list_eq_ok_iff :
    t.list p = .ok listed ↔
      ∃ place, t.resolve p = .ok place ∧ t.node? place = some .directory ∧
        listed = t.names place := by
  rw [list, bind_eq_ok]
  constructor
  · rintro ⟨place, hresolve, hlist⟩
    split at hlist
    · rename_i hnode
      cases hlist
      exact ⟨place, hresolve, hnode, rfl⟩
    · cases hlist
  · rintro ⟨place, hresolve, hnode, rfl⟩
    exact ⟨place, hresolve, by rw [hnode]⟩

theorem isDirectory_of_list (h : t.list p = .ok listed) : t.isDirectory p = true := by
  obtain ⟨place, hresolve, hnode, -⟩ := list_eq_ok_iff.mp h
  exact isDirectory_iff.mpr ⟨place, hresolve, hnode⟩

theorem exists_list (h : t.isDirectory p = true) : ∃ listed, t.list p = .ok listed := by
  obtain ⟨place, hresolve, hnode⟩ := isDirectory_iff.mp h
  exact ⟨_, list_eq_ok_iff.mpr ⟨place, hresolve, hnode, rfl⟩⟩

/-- A file can be read, and nothing else can. -/
theorem read_eq_ok_iff {content : Bytes} :
    t.read p = .ok content ↔
      ∃ place, t.resolve p = .ok place ∧ t.node? place = some (.file content) := by
  rw [read, bind_eq_ok]
  constructor
  · rintro ⟨place, hresolve, hread⟩
    split at hread
    · rename_i hnode
      cases hread
      exact ⟨place, hresolve, hnode⟩
    · cases hread
    · cases hread
  · rintro ⟨place, hresolve, hnode⟩
    exact ⟨place, hresolve, by rw [hnode]⟩

theorem isDirectory_keeps (hkeeps : Keeps t u) (h : t.isDirectory p = true) :
    u.isDirectory p = true := by
  obtain ⟨place, hresolve, hnode⟩ := isDirectory_iff.mp h
  exact isDirectory_iff.mpr ⟨place, resolve_keeps hkeeps hresolve, hkeeps.node? _ _ hnode⟩

theorem read_keeps {content : Bytes} (hkeeps : Keeps t u) (h : t.read p = .ok content) :
    u.read p = .ok content := by
  obtain ⟨place, hresolve, hnode⟩ := read_eq_ok_iff.mp h
  exact read_eq_ok_iff.mpr ⟨place, resolve_keeps hkeeps hresolve, hkeeps.node? _ _ hnode⟩

/-! ## 3. Another order -/

theorem node?_eq_some_iff (ht : t.IsProper) (hne : place ≠ []) {node : Node} :
    t.node? place = some node ↔ (place, node) ∈ t.nodes := by
  rw [node?_of_ne_nil hne, Option.map_eq_some_iff]
  constructor
  · rintro ⟨⟨found, node'⟩, hfind, rfl⟩
    have hplace : found = place := by simpa using List.find?_some hfind
    exact hplace ▸ List.mem_of_find?_eq_some hfind
  · intro hmem
    have hsome : (t.nodes.find? fun entry => entry.1 == place).isSome := by
      rw [List.find?_isSome]
      exact ⟨_, hmem, by simp⟩
    obtain ⟨found, hfind⟩ := Option.isSome_iff_exists.mp hsome
    have hplace : found.1 = place := by simpa using List.find?_some hfind
    have hsame := List.inj_on_of_nodup_map ht.distinct (List.mem_of_find?_eq_some hfind) hmem hplace
    exact ⟨found, hfind, by rw [hsame]⟩

theorem IsProper.perm (ht : t.IsProper) (h : u.nodes.Perm t.nodes) : u.IsProper where
  distinct := (h.map _).nodup_iff.mpr ht.distinct
  fileNames := fun entry hentry => ht.fileNames entry (h.mem_iff.mp hentry)

/-- The same nodes in another order are the same tree. -/
theorem keeps_of_perm (ht : t.IsProper) (h : u.nodes.Perm t.nodes)
    (hworking : u.workingDirectory = t.workingDirectory) : Keeps t u where
  node? := by
    intro q node hq
    by_cases hne : q = []
    · subst hne
      exact hq
    · rw [node?_eq_some_iff (ht.perm h) hne, h.mem_iff]
      exact (node?_eq_some_iff ht hne).mp hq
  workingDirectory := hworking

theorem names_perm (h : u.nodes.Perm t.nodes) (place : Place) :
    (u.names place).Perm (t.names place) :=
  h.filterMap _

end FatJar.FileTree
