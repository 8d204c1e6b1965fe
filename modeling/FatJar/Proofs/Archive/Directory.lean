/-
FatJar.Proofs.Archive.Directory — what reading a directory gives.

Every way below a directory has one entry: that of a directory, with a slash at
the end of its name, or that of a file, with what is in it. A readable directory
gives the entries of all ways below it, in the order of a walk from the top
(`Source.read_directory`). Nothing in this depends on the order in which the
system lists a directory, since the names are put in order first
(`treeEntries_perm`).

The walk is an induction on how deep it may go. One directory puts one block of
entries after another, a block for each name in it; `Covers.append` says when two
such lists make one.

Contents:
1. the entry of a way, and what its name tells;
2. entries of some ways in the order of a walk;
3. what one name in a directory gives;
4. what a directory gives;
5. another order of listing;
6. reading a directory.
-/
import FatJar.Archive.Source
import FatJar.Proofs.Archive.Below
import FatJar.Proofs.Archive.Preorder
import Mathlib.Data.List.Forall2

namespace FatJar

open FileTree Outcome

variable {t u : FileTree} {root directory : Path} {names names' : List String} {name text : String}
  {ways ways' : List (List String)} {e e' : Entry} {entries entries' : List Entry}
  {p p' : List String → Prop} {fuel : Nat}

/-! ## 1. Entries -/

/-- The entry of a way below a root. -/
inductive Describes (t : FileTree) (root : Path) (names : List String) : Entry → Prop
  | directory (hdirectory : t.isDirectory (along root names) = true) :
      Describes t root names ⟨"/".intercalate names ++ "/", .directory, []⟩
  | file {content : Bytes} (hfile : t.isDirectory (along root names) = false)
      (hread : t.read (along root names) = .ok content) :
      Describes t root names ⟨"/".intercalate names, .file, content⟩

/-- Names that lead to something below a root: at least one, and each that of a file. -/
structure IsWay (names : List String) : Prop where
  ne_nil : names ≠ []
  fileNames : ∀ name ∈ names, IsFileName name

theorem IsWay.exists_concat (h : IsWay names) :
    ∃ above last, names = above ++ [last] ∧ (∀ name ∈ above, IsFileName name) ∧
      IsFileName last := by
  obtain ⟨above, last, hnames⟩ := (List.eq_nil_or_concat names).resolve_left h.ne_nil
  rw [List.concat_eq_append] at hnames
  subst hnames
  obtain ⟨habove, hlast⟩ := List.forall_mem_append.mp h.fileNames
  exact ⟨above, last, rfl, habove, hlast last (by simp)⟩

/-- The names between the slashes of an entry's name are those on its way. -/
theorem Describes.parts (h : Describes t root names e) (hway : IsWay names) :
    Path.parts ⟨e.name⟩ = names := by
  cases h with
  | directory =>
    have hparts := parts_stem_append hway.fileNames ""
    rw [String.append_empty] at hparts
    rw [intercalate_append_slash hway.ne_nil, hparts]
    exact List.append_nil names
  | file =>
    obtain ⟨above, last, rfl, habove, hlast⟩ := hway.exists_concat
    rw [intercalate_concat, parts_stem_append habove, parts_name hlast]

/-- The name of a directory ends in a slash, and that of a file does not. -/
theorem Describes.directory_iff (h : Describes t root names e) (hway : IsWay names) :
    e.kind = .directory ↔ e.name.toList.getLast? = some '/' := by
  cases h with
  | directory => simp
  | file =>
    obtain ⟨above, last, rfl, -, hlast⟩ := hway.exists_concat
    rw [intercalate_concat]
    exact iff_of_false (by simp) (getLast?_ne_slash hlast _)

/-- The name of a directory begins the names of what is below it, and no others. -/
theorem Describes.isPrefix_iff (hd : Describes t root names e) (hkind : e.kind = .directory)
    (hway : IsWay names) (h : Describes t root names' e') (hway' : IsWay names') :
    e.name.toList <+: e'.name.toList ↔ names <+: names' := by
  cases hd with
  | file => cases hkind
  | directory hdirectory =>
    rw [intercalate_append_slash hway.ne_nil]
    constructor
    · intro ⟨rest, hrest⟩
      have hname : e'.name = stem names ++ String.ofList rest := by
        rw [← String.toList_inj, ← hrest]
        simp
      rw [← h.parts hway', hname, parts_stem_append hway.fileNames]
      exact List.prefix_append ..
    · intro ⟨more, hmore⟩
      subst hmore
      cases h with
      | directory =>
        rw [intercalate_append_slash hway'.ne_nil, stem_append, String.toList_append]
        exact List.prefix_append ..
      | file hfile =>
        have hne : more ≠ [] := by
          intro hnil
          rw [hnil, List.append_nil, hdirectory] at hfile
          cases hfile
        obtain ⟨above, last, hmore⟩ := (List.eq_nil_or_concat more).resolve_left hne
        rw [hmore, List.concat_eq_append, ← List.append_assoc, intercalate_concat, stem_append,
          String.append_assoc, String.toList_append]
        exact List.prefix_append ..

/-! ## 2. Coverings -/

/-- The entries are those of the ways that have a property, in the order of a walk. -/
structure Covers (t : FileTree) (root : Path) (p : List String → Prop) (ways : List (List String))
    (entries : List Entry) : Prop where
  mem_iff : ∀ names, names ∈ ways ↔ p names
  sorted : ways.Pairwise Precedes
  described : List.Forall₂ (Describes t root) ways entries

namespace Covers

theorem congr (h : Covers t root p ways entries) (hiff : ∀ names, p names ↔ p' names) :
    Covers t root p' ways entries :=
  ⟨fun names => (h.mem_iff names).trans (hiff names), h.sorted, h.described⟩

theorem single (h : Describes t root names e) : Covers t root (· = names) [names] [e] :=
  ⟨fun _ => List.mem_singleton, List.pairwise_singleton _ _, .cons h .nil⟩

/-- Two lists make one when all ways of the first come before those of the second. -/
theorem append (h : Covers t root p ways entries) (h' : Covers t root p' ways' entries')
    (hacross : ∀ names names', p names → p' names' → Precedes names names') :
    Covers t root (fun names => p names ∨ p' names) (ways ++ ways') (entries ++ entries') where
  mem_iff := fun names => by rw [List.mem_append, h.mem_iff, h'.mem_iff]
  sorted := List.pairwise_append.mpr ⟨h.sorted, h'.sorted, fun names hnames names' hnames' =>
    hacross names names' ((h.mem_iff names).mp hnames) ((h'.mem_iff names').mp hnames')⟩
  described := List.rel_append h.described h'.described

end Covers

/-! ## 3. One name -/

/-- What a walk gives for one name in a directory. -/
def child (t : FileTree) (fuel : Nat) (directory : Path) (text name : String) :
    Except FileError (List Entry) := do
  let path := directory.join ⟨name⟩
  if t.isDirectory path then
    let entries ← treeEntries t fuel path (text ++ name ++ "/")
    return Entry.directory (text ++ name) :: entries
  else
    return [Entry.file (text ++ name) (← t.read path)]

theorem treeEntries_succ (t : FileTree) (fuel : Nat) (directory : Path) (text : String) :
    treeEntries t (fuel + 1) directory text =
      t.list directory >>= fun listed => gather (child t fuel directory text) (sortNames listed) :=
  rfl

/-- The entries that a walk gives below a way. -/
def Walked (t : FileTree) (root : Path) (names : List String) (fuel : Nat) : Prop :=
  ∃ ways entries, treeEntries t fuel (along root names) (stem names) = .ok entries ∧
    Covers t root (fun way => t.Reaches root way ∧ names <+: way ∧ way ≠ names) ways entries

theorem directory_stem (hname : IsFileName name) :
    Entry.directory (stem names ++ name) =
      ⟨"/".intercalate (names ++ [name]) ++ "/", .directory, []⟩ := by
  have hlast : ((stem names ++ name).toList.getLast? == some '/') = false :=
    beq_eq_false_iff_ne.mpr (getLast?_ne_slash hname _)
  rw [Entry.directory, Entry.withSlash, hlast, intercalate_concat]
  rfl

/-- A name in a directory gives the entries of its way and of those that go on from it. -/
theorem exists_child (ht : t.IsProper) (h : t.IsReadable root)
    (hreaches : t.Reaches root (names ++ [name]))
    (hbelow : t.isDirectory (along root (names ++ [name])) = true →
      Walked t root (names ++ [name]) fuel) :
    ∃ ways entries, child t fuel (along root names) (stem names) name = .ok entries ∧
      Covers t root (fun way => t.Reaches root way ∧ names ++ [name] <+: way) ways entries := by
  have hname : IsFileName name := hreaches.isFileName ht name (by simp)
  cases hdirectory : t.isDirectory (along root (names ++ [name])) with
  | true =>
    obtain ⟨ways, entries, hentries, hcovers⟩ := hbelow hdirectory
    refine ⟨_, _, ?_, (Covers.single (.directory hdirectory)).append hcovers ?_ |>.congr ?_⟩
    · rw [along_concat] at hdirectory hentries
      rw [stem_concat] at hentries
      rw [child, if_pos hdirectory, hentries, ← directory_stem hname]
      rfl
    · intro way way' hway hway'
      obtain ⟨-, ⟨more, rfl⟩, hne⟩ := hway'
      subst hway
      exact precedes_append (by simpa using hne)
    · intro way
      constructor
      · rintro (rfl | ⟨hway, hon, -⟩)
        · exact ⟨hreaches, List.prefix_rfl⟩
        · exact ⟨hway, hon⟩
      · intro ⟨hway, hon⟩
        by_cases hsame : way = names ++ [name]
        · exact .inl hsame
        · exact .inr ⟨hway, hon, hsame⟩
  | false =>
    obtain ⟨content, hread⟩ := (h.readable _ hreaches).resolve_left (by simp [hdirectory])
    refine ⟨_, _, ?_, (Covers.single (.file hdirectory hread)).congr ?_⟩
    · rw [along_concat] at hdirectory hread
      rw [child, if_neg (by simp [hdirectory]), hread, intercalate_concat]
      rfl
    · intro way
      constructor
      · rintro rfl
        exact ⟨hreaches, List.prefix_rfl⟩
      · intro ⟨hway, more, hmore⟩
        subst hmore
        by_cases hnil : more = []
        · rw [hnil, List.append_nil]
        · simp [hway.isDirectory_of_append hnil] at hdirectory

/-! ## 4. One directory -/

/-- The names are put in order, none twice. -/
theorem sortNames_sorted (h : names.Nodup) : (sortNames names).Pairwise (· < ·) := by
  have hle : (sortNames names).Pairwise fun a b => decide (a ≤ b) = true :=
    List.pairwise_mergeSort (fun a b c hab hbc => by
      simp only [decide_eq_true_eq] at hab hbc ⊢
      exact String.le_trans hab hbc) (fun a b => by simpa using String.le_total a b) names
  have hnodup : (sortNames names).Nodup := (List.mergeSort_perm names _).nodup_iff.mpr h
  refine (hle.and hnodup).imp fun {a b} hab => ?_
  by_contra hlt
  exact hab.2 (String.le_antisymm (of_decide_eq_true hab.1) (String.not_lt.mp hlt))

/-- The names in a directory give their entries one after the other. -/
theorem exists_gather {read : String → Except FileError (List Entry)} {sorted : List String}
    (hsorted : sorted.Pairwise (· < ·))
    (hchild : ∀ name ∈ sorted, ∃ ways entries, read name = .ok entries ∧
      Covers t root (fun way => t.Reaches root way ∧ names ++ [name] <+: way) ways entries) :
    ∃ ways entries, gather read sorted = .ok entries ∧
      Covers t root (fun way => t.Reaches root way ∧ ∃ name ∈ sorted, names ++ [name] <+: way)
        ways entries := by
  induction sorted with
  | nil => exact ⟨[], [], rfl, by simp, .nil, .nil⟩
  | cons name sorted ih =>
    obtain ⟨hfirst, hsorted⟩ := List.pairwise_cons.mp hsorted
    obtain ⟨hchild, hrest⟩ := List.forall_mem_cons.mp hchild
    obtain ⟨ways, entries, hentries, hcovers⟩ := hchild
    obtain ⟨ways', entries', hentries', hcovers'⟩ := ih hsorted hrest
    refine ⟨_, _, ?_, (hcovers.append hcovers' ?_).congr ?_⟩
    · rw [gather, hentries, hentries']
      rfl
    · -- the ways part at this name
      intro way way' ⟨_, more, hmore⟩ ⟨_, name', hname', more', hmore'⟩
      subst hmore hmore'
      exact precedes_of_lt (hfirst name' hname')
    · intro way
      simp only [List.mem_cons, exists_eq_or_imp, and_or_left]

/-- A walk gives the entries of all ways that go on from the one to a directory. -/
theorem FileTree.IsReadable.walked (ht : t.IsProper) (h : t.IsReadable root)
    (hreaches : t.Reaches root names) (hdirectory : t.isDirectory (along root names) = true)
    (hfuel : t.nodes.length + 1 ≤ fuel + names.length) : Walked t root names fuel := by
  -- on how deep the walk may go; no way to a directory is deeper than the tree has nodes
  induction fuel generalizing names with
  | zero =>
    have hlength := h.length_le hreaches hdirectory
    omega
  | succ fuel ih =>
    obtain ⟨listed, hlist⟩ := exists_list hdirectory
    have hmem : ∀ name, name ∈ sortNames listed ↔ t.Reaches root (names ++ [name]) := by
      intro name
      rw [sortNames, List.mem_mergeSort, reaches_concat_iff, hlist]
      simp [hreaches]
    have hsorted : (sortNames listed).Pairwise (· < ·) := by
      obtain ⟨place, -, -, rfl⟩ := list_eq_ok_iff.mp hlist
      exact sortNames_sorted (ht.nodup_names place)
    have hchild : ∀ name ∈ sortNames listed, ∃ ways entries,
        child t fuel (along root names) (stem names) name = .ok entries ∧
          Covers t root (fun way => t.Reaches root way ∧ names ++ [name] <+: way) ways entries := by
      intro name hname
      have hreaches' := (hmem name).mp hname
      refine exists_child ht h hreaches' fun hdirectory' => ih hreaches' hdirectory' ?_
      rw [List.length_append, List.length_singleton]
      omega
    obtain ⟨ways, entries, hentries, hcovers⟩ := exists_gather hsorted hchild
    refine ⟨ways, entries, ?_, hcovers.congr fun way => ?_⟩
    · rw [treeEntries_succ, hlist]
      exact hentries
    · constructor
      · rintro ⟨hway, name, -, more, rfl⟩
        exact ⟨hway, by simp, by simp⟩
      · rintro ⟨hway, ⟨more, rfl⟩, hne⟩
        obtain ⟨name, rest, rfl⟩ := List.exists_cons_of_ne_nil (by simpa using hne)
        rw [List.append_cons] at hway ⊢
        exact ⟨hway, name, (hmem name).mpr hway.of_append, List.prefix_append ..⟩

/-! ## 5. Another order -/

/-- Putting names in order undoes any order of listing. -/
theorem sortNames_perm (hnames : names.Nodup) (h : names'.Perm names) :
    sortNames names' = sortNames names := by
  have hperm : (sortNames names').Perm (sortNames names) :=
    (List.mergeSort_perm _ _).trans (h.trans (List.mergeSort_perm _ _).symm)
  refine hperm.eq_of_pairwise (fun a b _ _ hab hba => ?_)
    (sortNames_sorted (h.nodup_iff.mpr hnames)) (sortNames_sorted hnames)
  exact absurd hba (String.lt_asymm hab)

theorem gather_mono {read read' : String → Except FileError (List Entry)}
    (hread : ∀ name entries, read name = .ok entries → read' name = .ok entries)
    (h : gather read names = .ok entries) : gather read' names = .ok entries := by
  induction names generalizing entries with
  | nil => exact h
  | cons name names ih =>
    rw [gather, bind_eq_ok] at h
    obtain ⟨first, hfirst, h⟩ := h
    obtain ⟨rest, hrest, h⟩ := bind_eq_ok.mp h
    rw [gather, hread name first hfirst, ih hrest]
    exact h

/-- The same nodes in another order give the same entries. -/
theorem treeEntries_perm (ht : t.IsProper) (hnodes : u.nodes.Perm t.nodes)
    (hworking : u.workingDirectory = t.workingDirectory)
    (h : treeEntries t fuel directory text = .ok entries) :
    treeEntries u fuel directory text = .ok entries := by
  have hkeeps : Keeps t u := keeps_of_perm ht hnodes hworking
  have hback : Keeps u t := keeps_of_perm (ht.perm hnodes) hnodes.symm hworking.symm
  have hdirectory : ∀ q, u.isDirectory q = t.isDirectory q := fun q =>
    Bool.eq_iff_iff.mpr ⟨isDirectory_keeps hback, isDirectory_keeps hkeeps⟩
  induction fuel generalizing directory text entries with
  | zero => cases h
  | succ fuel ih =>
    rw [treeEntries_succ, bind_eq_ok] at h
    obtain ⟨listed, hlist, hgather⟩ := h
    obtain ⟨place, hresolve, hnode, rfl⟩ := list_eq_ok_iff.mp hlist
    have hlist' : u.list directory = .ok (u.names place) := list_eq_ok_iff.mpr
      ⟨place, resolve_keeps hkeeps hresolve, hkeeps.node? _ _ hnode, rfl⟩
    rw [treeEntries_succ, hlist']
    show gather _ (sortNames (u.names place)) = _
    rw [sortNames_perm (ht.nodup_names place) (names_perm hnodes place)]
    refine gather_mono (fun name block hblock => ?_) hgather
    rw [child, hdirectory]
    rw [child] at hblock
    split at hblock
    · rename_i hbelow
      obtain ⟨entries', hentries, hblock⟩ := bind_eq_ok.mp hblock
      rw [if_pos hbelow, ih hentries]
      exact hblock
    · rename_i hbelow
      obtain ⟨content, hread, hblock⟩ := bind_eq_ok.mp hblock
      rw [if_neg hbelow, read_keeps hkeeps hread]
      exact hblock

/-! ## 6. Reading -/

/-- Entries in the order of their ways are those of the names between the slashes. -/
theorem map_parts_of_described (h : List.Forall₂ (Describes t root) ways entries)
    (hways : ∀ names ∈ ways, IsWay names) :
    (entries.map fun e => Path.parts ⟨e.name⟩) = ways ∧
      ∀ e ∈ entries, Describes t root (Path.parts ⟨e.name⟩) e := by
  induction h with
  | nil => exact ⟨rfl, nofun⟩
  | cons hfirst _ ih =>
    obtain ⟨hway, hways⟩ := List.forall_mem_cons.mp hways
    obtain ⟨hmap, hrest⟩ := ih hways
    have hparts := hfirst.parts hway
    exact ⟨by rw [List.map_cons, hparts, hmap],
      List.forall_mem_cons.mpr ⟨hparts.symm ▸ hfirst, hrest⟩⟩

namespace Covers

variable {before after : List Entry} {d : Entry}

theorem nodup_names (h : Covers t root p ways entries) (hways : ∀ names ∈ ways, IsWay names) :
    (entries.map (·.name)).Nodup := by
  obtain ⟨hmap, -⟩ := map_parts_of_described h.described hways
  have hnodup : ways.Nodup := h.sorted.imp Precedes.ne
  rw [← hmap] at hnodup
  refine List.Nodup.of_map (fun name => Path.parts ⟨name⟩) ?_
  rwa [List.map_map]

theorem directory_iff (h : Covers t root p ways entries) (hways : ∀ names ∈ ways, IsWay names) :
    ∀ e ∈ entries, e.kind = .directory ↔ e.name.toList.getLast? = some '/' := by
  obtain ⟨rfl, hdescribed⟩ := map_parts_of_described h.described hways
  intro e he
  exact (hdescribed e he).directory_iff (hways _ (List.mem_map_of_mem he))

/-- What is below a directory comes right after it, and nothing else has a name that its name
begins. -/
theorem exists_block (h : Covers t root p ways entries) (hways : ∀ names ∈ ways, IsWay names)
    (hentries : entries = before ++ d :: after) (hkind : d.kind = .directory) :
    ∃ block rest, after = block ++ rest ∧ (∀ e ∈ block, d.name.toList <+: e.name.toList) ∧
      ∀ e ∈ before ++ rest, ¬ d.name.toList <+: e.name.toList := by
  subst hentries
  obtain ⟨rfl, hdescribed⟩ := map_parts_of_described h.described hways
  have hbegins : ∀ e ∈ before ++ d :: after,
      (d.name.toList <+: e.name.toList ↔ Path.parts ⟨d.name⟩ <+: Path.parts ⟨e.name⟩) := by
    intro e he
    have hd : d ∈ before ++ d :: after := by simp
    exact (hdescribed d hd).isPrefix_iff hkind (hways _ (List.mem_map_of_mem hd))
      (hdescribed e he) (hways _ (List.mem_map_of_mem he))
  have hsorted := h.sorted
  rw [List.map_append, List.map_cons] at hsorted
  obtain ⟨-, hlater, hacross⟩ := List.pairwise_append.mp hsorted
  obtain ⟨hfirst, hlater⟩ := List.pairwise_cons.mp hlater
  obtain ⟨block', rest', hafter, hblock, hrest⟩ := FatJar.exists_block hfirst hlater
  obtain ⟨block, rest, rfl, rfl, rfl⟩ := List.map_eq_append_iff.mp hafter
  refine ⟨block, rest, rfl, fun e he => ?_, fun e he hon => ?_⟩
  · exact (hbegins e (by simp [he])).mpr (hblock _ (List.mem_map_of_mem he))
  · rcases List.mem_append.mp he with hbefore | hin
    · exact not_precedes_of_isPrefix ((hbegins e (by simp [hbefore])).mp hon)
        (hacross _ (List.mem_map_of_mem hbefore) _ List.mem_cons_self)
    · exact hrest _ (List.mem_map_of_mem hin) ((hbegins e (by simp [hin])).mp hon)

end Covers

/-- **What a directory gives.** In whatever order the system lists it, a readable directory gives
the entries of all ways below it, each once and in the order of a walk from the top. No two names
are the same, those of directories are the ones that end in a slash, and what is below a directory
comes right after it, where nothing else is. -/
theorem Source.read_directory (ht : t.IsProper) (h : t.IsReadable root) :
    ∃ ways entries,
      (∀ u : FileTree, u.nodes.Perm t.nodes → u.workingDirectory = t.workingDirectory →
        Source.read u ⟨.directory, root⟩ = .ok ⟨root.text, entries⟩) ∧
      Covers t root (fun names => names ≠ [] ∧ t.Reaches root names) ways entries ∧
      (entries.map (·.name)).Nodup ∧
      (∀ e ∈ entries, e.kind = .directory ↔ e.name.toList.getLast? = some '/') ∧
      ∀ before d after, entries = before ++ d :: after → d.kind = .directory →
        ∃ block rest, after = block ++ rest ∧ (∀ e ∈ block, d.name.toList <+: e.name.toList) ∧
          ∀ e ∈ before ++ rest, ¬ d.name.toList <+: e.name.toList := by
  have hfuel : t.nodes.length + 1 ≤ t.depthBound + ([] : List String).length := by
    rw [depthBound, maxLinks]
    omega
  obtain ⟨ways, entries, hwalked, hcovers⟩ := h.walked ht .here h.directory hfuel
  have hall : Covers t root (fun names => names ≠ [] ∧ t.Reaches root names) ways entries :=
    hcovers.congr fun way => by simp [and_comm]
  have hways : ∀ names ∈ ways, IsWay names := by
    intro names hnames
    obtain ⟨hne, hreaches⟩ := (hall.mem_iff names).mp hnames
    exact ⟨hne, hreaches.isFileName ht⟩
  refine ⟨ways, entries, fun u hnodes hworking => ?_, hall, hall.nodup_names hways,
    hall.directory_iff hways, fun before d after => hall.exists_block hways⟩
  have hdirectory : u.isDirectory root = true :=
    isDirectory_keeps (keeps_of_perm ht hnodes hworking) h.directory
  have hbound : u.depthBound = t.depthBound := by rw [depthBound, depthBound, hnodes.length_eq]
  have htree : treeEntries u u.depthBound root "" = .ok entries :=
    hbound ▸ treeEntries_perm ht hnodes hworking hwalked
  rw [Source.read, Source.entries, if_pos hdirectory, htree]
  rfl

/-- A directory with a file in it and a link to another directory, which is listed first. -/
def linkedTree : FileTree where
  nodes := [(["p"], .directory), (["p", "l"], .link "/q"), (["p", "a"], .file [65]),
    (["q"], .directory), (["q", "y"], .file [89])]
  workingDirectory := []

theorem resolve_linkedTree :
    linkedTree.resolve ⟨"/p"⟩ = .ok ["p"] ∧ linkedTree.resolve ⟨"/p/a"⟩ = .ok ["p", "a"] ∧
      linkedTree.resolve ⟨"/p/l"⟩ = .ok ["q"] ∧
      linkedTree.resolve ⟨"/p/l/y"⟩ = .ok ["q", "y"] := by
  have hcheck : checkPath ⟨"/p"⟩ = .ok () ∧ checkPath ⟨"/p/a"⟩ = .ok () ∧
      checkPath ⟨"/p/l"⟩ = .ok () ∧ checkPath ⟨"/p/l/y"⟩ = .ok () := by decide
  have hsteps : Path.steps ⟨"/p"⟩ = ["p"] ∧ Path.steps ⟨"/p/a"⟩ = ["p", "a"] ∧
      Path.steps ⟨"/p/l"⟩ = ["p", "l"] ∧ Path.steps ⟨"/p/l/y"⟩ = ["p", "l", "y"] ∧
      Path.steps ⟨"/q"⟩ = ["q"] := by decide
  have hshort : isLong "p" = false ∧ isLong "a" = false ∧ isLong "l" = false ∧
      isLong "q" = false ∧ isLong "y" = false := by decide
  refine ⟨?_, ?_, ?_, ?_⟩ <;>
    simp [resolve, hcheck, hsteps, hshort, bind, Except.bind, walk, start, Path.isAbsolute, node?,
      linkedTree, maxLinks]

theorem list_linkedTree :
    linkedTree.list ⟨"/p"⟩ = .ok ["l", "a"] ∧ linkedTree.list ⟨"/p/a"⟩ = .error .notDirectory ∧
      linkedTree.list ⟨"/p/l"⟩ = .ok ["y"] ∧
      linkedTree.list ⟨"/p/l/y"⟩ = .error .notDirectory := by
  obtain ⟨hp, ha, hl, hy⟩ := resolve_linkedTree
  rw [FileTree.list, FileTree.list, FileTree.list, FileTree.list, hp, ha, hl, hy]
  exact ⟨rfl, rfl, rfl, rfl⟩

theorem isDirectory_linkedTree :
    linkedTree.isDirectory ⟨"/p"⟩ = true ∧ linkedTree.isDirectory ⟨"/p/a"⟩ = false ∧
      linkedTree.isDirectory ⟨"/p/l"⟩ = true ∧ linkedTree.isDirectory ⟨"/p/l/y"⟩ = false := by
  obtain ⟨hp, ha, hl, hy⟩ := resolve_linkedTree
  simp only [isDirectory, hp, ha, hl, hy]
  decide

theorem read_linkedTree :
    linkedTree.read ⟨"/p/a"⟩ = .ok [65] ∧ linkedTree.read ⟨"/p/l/y"⟩ = .ok [89] := by
  obtain ⟨-, ha, -, hy⟩ := resolve_linkedTree
  rw [FileTree.read, FileTree.read, ha, hy]
  exact ⟨rfl, rfl⟩

/-- The paths to which names lead from the directory. -/
theorem along_linkedTree :
    along ⟨"/p"⟩ [] = ⟨"/p"⟩ ∧ along ⟨"/p"⟩ ["a"] = ⟨"/p/a"⟩ ∧ along ⟨"/p"⟩ ["l"] = ⟨"/p/l"⟩ ∧
      along ⟨"/p"⟩ ["l", "y"] = ⟨"/p/l/y"⟩ := by
  decide

/-- The ways below the directory; the link is entered. -/
theorem mem_of_reaches_linkedTree (h : linkedTree.Reaches ⟨"/p"⟩ names) :
    names = [] ∨ names = ["a"] ∨ names = ["l"] ∨ names = ["l", "y"] := by
  induction h with
  | here => exact .inl rfl
  | child _ hlist hname ih =>
    rcases ih with rfl | rfl | rfl | rfl
    · rw [along_linkedTree.1, list_linkedTree.1] at hlist
      cases hlist
      rcases List.mem_pair.mp hname with rfl | rfl <;> simp
    · rw [along_linkedTree.2.1, list_linkedTree.2.1] at hlist
      cases hlist
    · rw [along_linkedTree.2.2.1, list_linkedTree.2.2.1] at hlist
      cases hlist
      cases List.mem_singleton.mp hname
      simp
    · rw [along_linkedTree.2.2.2, list_linkedTree.2.2.2] at hlist
      cases hlist

theorem isReadable_linkedTree : linkedTree.IsReadable ⟨"/p"⟩ where
  directory := isDirectory_linkedTree.1
  readable := by
    intro names hreaches
    rcases mem_of_reaches_linkedTree hreaches with rfl | rfl | rfl | rfl <;>
      simp [along_linkedTree, isDirectory_linkedTree, read_linkedTree]
  acyclic := by
    intro names more hmore hreaches hdirectory
    rcases mem_of_reaches_linkedTree hreaches with hway | hway | hway | hway
    · exact absurd (List.append_eq_nil_iff.mp hway).2 hmore
    · simp [hway, along_linkedTree, isDirectory_linkedTree] at hdirectory
    · -- the link leads out of the directory
      have hnames : names = [] := by
        rcases List.append_eq_singleton_iff.mp hway with ⟨hnames, -⟩ | ⟨-, hnil⟩
        · exact hnames
        · exact absurd hnil hmore
      rw [hway, hnames, along_linkedTree.1, along_linkedTree.2.2.1, resolve_linkedTree.1,
        resolve_linkedTree.2.2.1]
      decide
    · simp [hway, along_linkedTree, isDirectory_linkedTree] at hdirectory

theorem read_directory_linkedTree :
    Source.read linkedTree ⟨.directory, ⟨"/p"⟩⟩ =
      .ok ⟨"/p", [.file "a" [65], .directory "l", .file "l/y" [89]]⟩ := by
  have hjoin : Path.join ⟨"/p"⟩ ⟨"a"⟩ = ⟨"/p/a"⟩ ∧ Path.join ⟨"/p"⟩ ⟨"l"⟩ = ⟨"/p/l"⟩ ∧
      Path.join ⟨"/p/l"⟩ ⟨"y"⟩ = ⟨"/p/l/y"⟩ := by decide
  have hsorted : sortNames ["a", "l"] = ["a", "l"] := List.mergeSort_of_pairwise (by decide)
  have hsort : sortNames ["l", "a"] = ["a", "l"] ∧ sortNames ["y"] = ["y"] :=
    ⟨(sortNames_perm (by decide) (List.Perm.swap ..)).trans hsorted, List.mergeSort_singleton _⟩
  have hbound : linkedTree.depthBound = 245 + 1 + 1 := rfl
  rw [Source.read, Source.entries, if_pos isDirectory_linkedTree.1, hbound]
  simp [treeEntries_succ, list_linkedTree, hsort, gather, child, hjoin, isDirectory_linkedTree,
    read_linkedTree, bind, Except.bind, pure, Except.pure]
  rfl

/-- The directory, listed the other way round. -/
theorem Source.read_directory_linked :
    linkedTree.IsProper ∧ linkedTree.IsReadable ⟨"/p"⟩ ∧
      Source.read ⟨linkedTree.nodes.reverse, []⟩ ⟨.directory, ⟨"/p"⟩⟩ =
        .ok ⟨"/p", [.file "a" [65], .directory "l", .file "l/y" [89]]⟩ := by
  have hproper : linkedTree.IsProper := by decide
  obtain ⟨ways, entries, hread, -⟩ := Source.read_directory hproper isReadable_linkedTree
  have hlinked := hread linkedTree (List.Perm.refl _) rfl
  have hreversed := hread ⟨linkedTree.nodes.reverse, []⟩ (List.reverse_perm _) rfl
  exact ⟨hproper, isReadable_linkedTree, hreversed.trans (hlinked.symm.trans
    read_directory_linkedTree)⟩

end FatJar
