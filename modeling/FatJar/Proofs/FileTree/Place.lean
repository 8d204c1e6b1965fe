/-
FatJar.Proofs.FileTree.Place — what putting and removing do at each place.

A tree is seen through `node?`. A tree is closed when everything in it stands in
a directory; then nothing stands below a place where nothing stands, and a new
directory is empty.

Contents:
1. `node?` after `put` and after `remove`, and `remove` after `put`;
2. closed trees;
3. trees that keep what another has (`Keeps`).
-/
import FatJar.FileTree.Change

namespace FatJar.FileTree

variable {t t' : FileTree} {place q : Place} {node : Node}

/-! ## 1. Putting and removing -/

/-- What is found at a place other than the root. -/
theorem node?_of_ne_nil (h : place ≠ []) :
    t.node? place = (t.nodes.find? fun entry => entry.1 == place).map (·.2) := by
  rw [node?, List.isEmpty_eq_false_iff.mpr h]
  simp

/-- Nothing stands at a place that is not listed. -/
theorem node?_eq_none_iff (h : place ≠ []) :
    t.node? place = none ↔ ∀ entry ∈ t.nodes, entry.1 ≠ place := by
  rw [node?_of_ne_nil h, Option.map_eq_none_iff, List.find?_eq_none]
  simp

/-- Putting a node changes what stands at its place and nothing else. -/
theorem node?_put (h : place ≠ []) (q : Place) :
    (t.put place node).node? q = if q = place then some node else t.node? q := by
  by_cases hq : q = []
  · subst hq
    rw [if_neg (Ne.symm h)]
    rfl
  rw [node?_of_ne_nil hq, node?_of_ne_nil hq, put]
  split
  · -- the place is listed: every entry of it is replaced
    rename_i hany
    simp only
    rw [List.find?_map]
    by_cases heq : q = place
    · subst heq
      rw [if_pos rfl]
      obtain ⟨entry, hentry, hplace⟩ := List.any_eq_true.mp hany
      have hfound : (t.nodes.find? ((fun entry => entry.1 == q) ∘
          fun entry => if entry.1 == q then (q, node) else entry)).isSome := by
        rw [List.find?_isSome]
        exact ⟨entry, hentry, by simp [beq_iff_eq.mp hplace]⟩
      obtain ⟨found, hfound⟩ := Option.isSome_iff_exists.mp hfound
      have hname := List.find?_some hfound
      simp only [Function.comp_apply] at hname
      rw [hfound]
      by_cases hf : found.1 = q
      · simp [hf]
      · simp [hf] at hname
    · rw [if_neg heq]
      have hsame : ((fun entry : Place × Node => entry.1 == q) ∘
          fun entry => if entry.1 == place then (place, node) else entry) =
            fun entry => entry.1 == q := by
        funext entry
        by_cases hp : entry.1 = place
        · simp [hp]
        · simp [hp]
      rw [hsame]
      cases hfind : t.nodes.find? fun entry => entry.1 == q with
      | none => rfl
      | some found =>
        have hname : found.1 = q := by simpa using List.find?_some hfind
        have hp : found.1 ≠ place := by rwa [hname]
        simp [hp]
  · -- the place is new: its entry comes last
    rename_i hany
    simp only [List.find?_append]
    by_cases heq : q = place
    · subst heq
      have hnone : t.nodes.find? (fun entry => entry.1 == q) = none := by
        rw [List.find?_eq_none]
        intro entry hentry hp
        exact hany (List.any_eq_true.mpr ⟨entry, hentry, hp⟩)
      simp [hnone]
    · have hne : (place == q) = false := by simpa using Ne.symm heq
      rw [if_neg heq, List.find?_cons, hne]
      simp

/-- A node that is put at a new place comes last. -/
theorem put_of_none (hne : place ≠ []) (h : t.node? place = none) (node : Node) :
    t.put place node = { t with nodes := t.nodes ++ [(place, node)] } := by
  rw [put, if_neg]
  intro hany
  obtain ⟨entry, hentry, hplace⟩ := List.any_eq_true.mp hany
  exact (node?_eq_none_iff hne).mp h entry hentry (by simpa using hplace)

/-- Removing what was put at a new place gives the tree back. -/
theorem remove_put (hne : place ≠ []) (h : t.node? place = none) (node : Node) :
    (t.put place node).remove place = t := by
  have hkept : t.nodes.filter (fun entry => entry.1 != place) = t.nodes := by
    rw [List.filter_eq_self]
    intro entry hentry
    simpa using (node?_eq_none_iff hne).mp h entry hentry
  rw [put_of_none hne h, remove]
  simp only [List.filter_append, hkept, List.filter_cons, bne_self_eq_false, Bool.false_eq_true,
    if_false, List.filter_nil, List.append_nil]

/-- Removing a node changes what stands at its place and nothing else. -/
theorem node?_remove (h : place ≠ []) (q : Place) :
    (t.remove place).node? q = if q = place then none else t.node? q := by
  by_cases hq : q = []
  · subst hq
    rw [if_neg (Ne.symm h)]
    rfl
  rw [node?_of_ne_nil hq, node?_of_ne_nil hq, remove, List.find?_filter]
  split
  · rename_i heq
    rw [List.find?_eq_none.mpr, Option.map_none]
    intro entry _
    simp [heq]
  · rename_i hne
    congr 2
    funext entry
    by_cases hentry : entry.1 = q
    · simp [hentry, hne]
    · simp [hentry]

@[simp]
theorem workingDirectory_put (t : FileTree) (place : Place) (node : Node) :
    (t.put place node).workingDirectory = t.workingDirectory := by
  unfold put
  split <;> rfl

/-! ## 2. Closed trees -/

/-- Everything in the tree stands in a directory. -/
def IsClosed (t : FileTree) : Prop :=
  ∀ entry ∈ t.nodes, t.node? entry.1.dropLast = some .directory

instance (t : FileTree) : Decidable t.IsClosed :=
  inferInstanceAs (Decidable (∀ entry ∈ t.nodes, t.node? entry.1.dropLast = some .directory))

/-- What stands in a closed tree stands in a directory. -/
theorem IsClosed.node?_parent (ht : t.IsClosed) {name : String}
    (h : t.node? (place ++ [name]) ≠ none) : t.node? place = some .directory := by
  have hne : place ++ [name] ≠ [] := by simp
  apply Decidable.byContradiction
  intro hparent
  apply h
  rw [node?_eq_none_iff hne]
  intro entry hentry heq
  have hdir := ht entry hentry
  rw [heq, List.dropLast_concat] at hdir
  exact hparent hdir

/-- Nothing stands in a place where nothing stands. -/
theorem IsClosed.node?_below (ht : t.IsClosed) (h : t.node? place = none) (name : String) :
    t.node? (place ++ [name]) = none := by
  apply Decidable.byContradiction
  intro hsome
  rw [ht.node?_parent hsome] at h
  cases h

/-- A place where nothing stands has no names in it. -/
theorem IsClosed.names_eq_nil (ht : t.IsClosed) (h : t.node? place = none) :
    t.names place = [] := by
  rw [names, List.filterMap_eq_nil_iff]
  intro entry hentry
  have hne : entry.1.dropLast ≠ place := by
    intro heq
    have hdir := ht entry hentry
    rw [heq, h] at hdir
    cases hdir
  simp [hne]

/-- A node put in a directory leaves a tree closed, unless it takes the place of one. -/
theorem IsClosed.put (ht : t.IsClosed) {name : String} (hplace : t.node? place = some .directory)
    (hnew : t.node? (place ++ [name]) ≠ some .directory) (node : Node) :
    (t.put (place ++ [name]) node).IsClosed := by
  have hne : place ++ [name] ≠ [] := by simp
  -- the only place that changes was no directory, so no entry stood in it
  have hkeep : ∀ {q : Place}, t.node? q = some .directory →
      (t.put (place ++ [name]) node).node? q = some .directory := by
    intro q hq
    rw [node?_put hne, if_neg]
    · exact hq
    · rintro rfl
      exact hnew hq
  intro entry hentry
  rw [FileTree.put] at hentry
  split at hentry
  · obtain ⟨old, hold, rfl⟩ := List.mem_map.mp hentry
    split
    · simpa using hkeep hplace
    · exact hkeep (ht old hold)
  · rcases List.mem_append.mp hentry with hold | hlast
    · exact hkeep (ht entry hold)
    · rw [List.mem_singleton.mp hlast]
      simpa using hkeep hplace

/-- A new directory in a closed tree is empty. -/
theorem IsClosed.names_put (ht : t.IsClosed) {name : String}
    (h : t.node? (place ++ [name]) = none) :
    (t.put (place ++ [name]) .directory).names (place ++ [name]) = [] := by
  have hne : place ++ [name] ≠ [] := by simp
  have hold := ht.names_eq_nil h
  rw [names] at hold
  rw [put_of_none hne h, names, List.filterMap_append, hold, List.nil_append,
    List.filterMap_cons]
  have hlen : ¬ place = place ++ [name] := by
    intro heq
    have := congrArg List.length heq
    simp at this
  simp [hlen]

/-- Removing a directory without names in it leaves a tree closed. -/
theorem IsClosed.remove (ht : t.IsClosed) (hne : place ≠ []) (hempty : t.names place = []) :
    (t.remove place).IsClosed := by
  intro entry hentry
  obtain ⟨hold, -⟩ := List.mem_filter.mp hentry
  rw [node?_remove hne, if_neg]
  · exact ht entry hold
  · intro heq
    -- an entry that stands in the directory would be one of its names
    rw [names, List.filterMap_eq_nil_iff] at hempty
    have hlast := hempty entry hold
    rw [if_pos (by simpa using heq), List.getLast?_eq_none_iff] at hlast
    rw [hlast] at heq
    exact hne heq.symm

/-- What stands below a place in a closed tree stands in a directory there. -/
theorem IsClosed.node?_of_append (ht : t.IsClosed) {below : Place} (hne : below ≠ [])
    (h : t.node? (place ++ below) ≠ none) : t.node? place = some .directory := by
  induction below generalizing place with
  | nil => exact absurd rfl hne
  | cons name rest ih =>
    rw [List.append_cons] at h
    cases rest with
    | nil => exact ht.node?_parent (by simpa using h)
    | cons next more =>
      have hnext : t.node? (place ++ [name]) ≠ none := by simp [ih (by simp) h]
      exact ht.node?_parent hnext

/-! ## 3. Trees that keep what another has -/

/-- What stands in the first tree stands in the second. -/
structure Keeps (t t' : FileTree) : Prop where
  node? : ∀ q node, t.node? q = some node → t'.node? q = some node
  workingDirectory : t'.workingDirectory = t.workingDirectory

/-- Putting a node at a new place keeps everything. -/
theorem keeps_put (hne : place ≠ []) (h : t.node? place = none) (node : Node) :
    Keeps t (t.put place node) where
  node? := by
    intro q other hq
    rw [node?_put hne, if_neg]
    · exact hq
    · rintro rfl
      rw [h] at hq
      cases hq
  workingDirectory := workingDirectory_put t place node

end FatJar.FileTree
