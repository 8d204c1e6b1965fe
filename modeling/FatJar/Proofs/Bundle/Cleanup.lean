/-
FatJar.Proofs.Bundle.Cleanup — what a write that fails leaves behind.

Before anything is created, the paths above the output that lead nowhere are noted
down, and after a failure each of them is removed if it is an empty directory. Only
directories are created and only empty ones removed, so no file and no link is ever
lost, nor a directory above one (`Remains`).

A path with `..` may lead nowhere only because a directory before the `..` is
missing. Once that one has been created, the path leads to a directory that may
have been there before, and it is removed if it is empty. Where none of the paths
ends in `..`, this cannot happen and the tree is as it was (`write_error_keeps`).

Contents:
1. trees with the same files and links;
2. creating directories, and removing them;
3. writing.
-/
import FatJar.Proofs.Bundle.Atomic

namespace FatJar.FileTree

variable {t t₁ t₂ t' : FileTree} {p output : Path} {ps : List Path} {bytes : Bytes}

/-! ## 1. The same files and links -/

/-- The second tree has the files and links of the first, each at its place and in a directory. -/
structure Remains (t t' : FileTree) : Prop where
  closed : t'.IsClosed
  content : ∀ place node, node ≠ .directory →
    (t'.node? place = some node ↔ t.node? place = some node)

theorem Remains.refl (ht : t.IsClosed) : Remains t t where
  closed := ht
  content := fun _ _ _ => Iff.rfl

/-- What stood at a place stands there, if a file or a link stood there or below. -/
theorem Remains.node?_eq (hremains : Remains t t') (ht : t.IsClosed) {place below : Place}
    {node : Node} (hnode : t.node? (place ++ below) = some node) (hkind : node ≠ .directory) :
    t'.node? place = t.node? place := by
  have hkept := (hremains.content _ _ hkind).mpr hnode
  by_cases hbelow : below = []
  · subst hbelow
    rw [List.append_nil] at hnode hkept
    rw [hkept, hnode]
  · rw [ht.node?_of_append hbelow (by simp [hnode]),
      hremains.closed.node?_of_append hbelow (by simp [hkept])]

/-! ## 2. Directories -/

theorem Remains.create (hremains : Remains t t₁) (hmake : t₁.createDirectory p = .ok t₂) :
    Remains t t₂ := by
  obtain ⟨h, name, slash, -, hholder, -, hnew, rfl⟩ := createDirectory_eq_ok hmake
  have hplace := (holder_eq_ok_iff.mp hholder).2.2
  refine ⟨hremains.closed.put hplace (by simp [hnew]) .directory, ?_⟩
  intro place node hkind
  rw [← hremains.content place node hkind, node?_put (by simp)]
  split
  · rename_i heq
    simp [heq, hnew, Ne.symm hkind]
  · rfl

theorem Remains.remove (hremains : Remains t t₁) (hremove : t₁.removeDirectory p = .ok t₂) :
    Remains t t₂ := by
  obtain ⟨h, name, slash, -, -, -, hdir, hempty, rfl⟩ := removeDirectory_eq_ok hremove
  refine ⟨hremains.closed.remove (by simp) hempty, ?_⟩
  intro place node hkind
  rw [← hremains.content place node hkind, node?_remove (by simp)]
  split
  · rename_i heq
    simp [heq, hdir, Ne.symm hkind]
  · rfl

/-- Creating directories, however many and however it ends. -/
theorem Remains.createFrom {result : Except FileError Unit} (hremains : Remains t t₁)
    (hfrom : t₁.createFrom ps = (result, t₂)) : Remains t t₂ := by
  induction ps generalizing result t₂ with
  | nil =>
    cases hfrom
    exact hremains
  | cons p above ih =>
    by_cases htext : p.text = ""
    · rw [FileTree.createFrom, if_pos (by simpa using htext)] at hfrom
      cases hfrom
      exact hremains
    · cases createFrom_cases htext hfrom with
      | made hmake => exact hremains.create hmake
      | settled => exact hremains
      | failed => exact hremains
      | aboveFailed _ habove => exact ih habove
      | madeAfter _ habove hagain => exact (ih habove).create hagain
      | settledAfter _ habove => exact ih habove
      | failedAfter _ habove => exact ih habove

/-- Removing directories, whichever of them are there and empty. -/
theorem Remains.removeDirectories (hremains : Remains t t₁) (ps : List Path) :
    Remains t (t₁.removeDirectories ps) := by
  induction ps generalizing t₁ with
  | nil => exact hremains
  | cons p above ih =>
    rw [FileTree.removeDirectories, List.foldl_cons]
    cases hremove : t₁.removeDirectory p with
    | error e => exact ih hremains
    | ok t₂ => exact ih (hremains.remove hremove)

/-- Putting bytes at a path that fails. -/
theorem remains_of_putAtomically {e : FileError} (ht : t.IsClosed)
    (hput : t.putAtomically output bytes = (.error e, t')) : Remains t t' := by
  unfold putAtomically at hput
  simp only at hput
  rcases hcreate : t.createDirectories (outputDirectory output) with ⟨made, t₁⟩
  have hremains := (Remains.refl ht).createFrom hcreate
  rw [hcreate] at hput
  cases made with
  | error e =>
    cases hput
    exact hremains.removeDirectories _
  | ok _ =>
    simp only at hput
    split at hput
    · cases hput
      exact hremains.removeDirectories _
    · cases hput

/-- No file is put at a path that ends in a slash; all that is left is to clean up. -/
theorem putAtomically_of_slash (t : FileTree) (bytes : Bytes) {name : String}
    (hlast : lastStep output = .name name true) :
    ∃ e, t.putAtomically output bytes = (.error e,
      (t.createDirectories (outputDirectory output)).2.removeDirectories
        (t.missing (outputDirectory output))) := by
  unfold putAtomically
  simp only
  split
  · rename_i e t₁ hcreate
    exact ⟨e, by rw [hcreate]⟩
  · rename_i t₁ hcreate
    cases hpersist : t₁.persist (outputDirectory output) output bytes with
    | error e => exact ⟨e, by rw [hcreate]⟩
    | ok t₂ =>
      obtain ⟨_, _, hname, -⟩ := persist_eq_ok hpersist
      rw [hlast] at hname
      cases hname

end FatJar.FileTree

namespace FatJar.Bundler

open FileTree

/-! ## 3. Writing -/

variable {t t' : FileTree} {merged : MergedArchive} {output : Path} {e : BundleError}

/-- **What a write that fails leaves behind.** The files and links are those that were there. So is
what stood at a place with one of them below it. The whole tree is as it was, unless one of the
directories that were missing for the output is written with `..` at its end. -/
theorem write_error_keeps (ht : t.IsClosed) (h : write t merged output = (.error e, t')) :
    (∀ place node, node ≠ .directory →
      (t'.node? place = some node ↔ t.node? place = some node)) ∧
    (∀ place below node, t.node? (place ++ below) = some node → node ≠ .directory →
      t'.node? place = t.node? place) ∧
    ((∀ p ∈ t.missing (outputDirectory output), lastStep p ≠ .up) → t' = t) := by
  have hremains : Remains t t' := by
    unfold write at h
    split at h
    · cases h
      exact .refl ht
    · split at h
      · rename_i hput
        cases h
        exact remains_of_putAtomically ht hput
      · cases h
  refine ⟨hremains.content, fun place below node => hremains.node?_eq ht, fun hup => ?_⟩
  have hending := write_allOrNothing ht hup merged
  rw [h] at hending
  exact hending

theorem write_of_slash (t : FileTree) (output : Path) {bytes : Bytes} {name : String}
    (hbytes : merged.toBytes = .ok bytes) (hlast : lastStep output = .name name true) :
    ∃ e, write t merged output = (.error e,
      (t.createDirectories (outputDirectory output)).2.removeDirectories
        (t.missing (outputDirectory output))) := by
  obtain ⟨failure, hput⟩ := putAtomically_of_slash t bytes hlast
  exact ⟨.output output (.system failure), by simp only [write, hbytes, hput]⟩

/-- A directory with a file in it. -/
def filledTree : FileTree := ⟨[(["d"], .directory), (["d", "f"], .file [0x31])], []⟩

/-- A directory with nothing in it. -/
def emptyTree : FileTree := ⟨[(["d"], .directory)], []⟩

/-- The directory with the file stays, even if the output leads there through a directory that is
missing. Where it leads through one that is there, the empty directory stays too. -/
theorem write_error_keeps_slash :
    filledTree.IsClosed ∧ emptyTree.IsClosed ∧ ∃ merged e e' t t',
      write filledTree merged ⟨"n/../d/x/"⟩ = (.error e, t) ∧ t.node? ["d"] = some .directory ∧
      write emptyTree merged ⟨"d/../n/x/"⟩ = (.error e', t') ∧ t' = emptyTree := by
  obtain ⟨b, merged, bytes, -, -, hbytes⟩ := exists_bytes_oneFile
  have hfilled : filledTree.IsClosed := by decide
  have hempty : emptyTree.IsClosed := by decide
  obtain ⟨e, hfirst⟩ := write_of_slash filledTree ⟨"n/../d/x/"⟩ hbytes rfl
  obtain ⟨e', hsecond⟩ := write_of_slash emptyTree ⟨"d/../n/x/"⟩ hbytes rfl
  have hmissing : emptyTree.missing ⟨"d/../n"⟩ = [⟨"d/../n"⟩] := by
    have hn : ReadsAs ⟨"d/../n"⟩ ["d", "..", "n"] := ⟨rfl, rfl, rfl, rfl⟩
    have hup : ReadsAs ⟨"d/.."⟩ ["d", ".."] := ⟨rfl, rfl, rfl, rfl⟩
    have hancestors : Path.ancestors ⟨"d/../n"⟩ = [⟨"d/../n"⟩, ⟨"d/.."⟩, ⟨"d"⟩, ⟨""⟩] := rfl
    have hnone : emptyTree.resolve ⟨"d/../n"⟩ = .error .notFound := by
      rw [hn.resolve_eq, walk_enter rfl ⟨by decide, by decide⟩ rfl rfl (by simp), walk_up rfl,
        walk_missing rfl ⟨by decide, by decide⟩ rfl rfl]
    have hfound : emptyTree.resolve ⟨"d/.."⟩ = .ok [] :=
      hup.resolve_of_walks (.enter rfl ⟨by decide, by decide⟩ rfl rfl (by simp) (.up rfl .nil))
    simp [missing, hancestors, pathExists, hnone, hfound]
  have hup : ∀ p ∈ emptyTree.missing ⟨"d/../n"⟩, lastStep p ≠ .up := by
    have hlast : lastStep ⟨"d/../n"⟩ = .name "n" false := rfl
    simp [hmissing, hlast]
  refine ⟨hfilled, hempty, merged, e, e', _, _, hfirst, ?_, hsecond, ?_⟩
  · exact (write_error_keeps hfilled hfirst).2.1 ["d"] ["f"] (.file [0x31]) rfl (by simp)
  · exact (write_error_keeps hempty hsecond).2.2 hup

/-- The directory with nothing in it, and the one that is missing for `n/../d`. -/
def grownTree : FileTree := ⟨[(["d"], .directory), (["n"], .directory)], []⟩

/-- The empty directory is lost when the output leads there through a directory that is missing. -/
theorem write_emptyTree :
    ∃ merged e t', write emptyTree merged ⟨"n/../d/x/"⟩ = (.error e, t') ∧
      emptyTree.node? ["d"] = some .directory ∧ t'.node? ["d"] = none := by
  obtain ⟨b, merged, bytes, -, -, hbytes⟩ := exists_bytes_oneFile
  obtain ⟨e, hwrite⟩ := write_of_slash emptyTree ⟨"n/../d/x/"⟩ hbytes rfl
  have hd : ReadsAs ⟨"n/../d"⟩ ["n", "..", "d"] := ⟨rfl, rfl, rfl, rfl⟩
  have hup : ReadsAs ⟨"n/.."⟩ ["n", ".."] := ⟨rfl, rfl, rfl, rfl⟩
  have hn : ReadsAs ⟨"n"⟩ ["n"] := ⟨rfl, rfl, rfl, rfl⟩
  have hancestors : Path.ancestors ⟨"n/../d"⟩ = [⟨"n/../d"⟩, ⟨"n/.."⟩, ⟨"n"⟩, ⟨""⟩] := rfl
  have hmissing : emptyTree.missing ⟨"n/../d"⟩ = [⟨"n/../d"⟩, ⟨"n/.."⟩, ⟨"n"⟩] := by
    have hnone : ∀ rest, emptyTree.walk maxLinks emptyTree.workingDirectory ("n" :: rest) =
        .error .notFound := fun rest => walk_missing rfl ⟨by decide, by decide⟩ rfl rfl
    simp [missing, hancestors, pathExists, hd.resolve_eq, hup.resolve_eq, hn.resolve_eq, hnone]
  have hmade : emptyTree.createDirectories ⟨"n/../d"⟩ = (.ok (), grownTree) :=
    createDirectories_throughMissing rfl rfl rfl
  have hlost : grownTree.removeDirectories [⟨"n/../d"⟩, ⟨"n/.."⟩, ⟨"n"⟩] = ⟨[], []⟩ := by
    let rest : FileTree := ⟨[(["n"], .directory)], []⟩
    have hfirst : grownTree.removeDirectory ⟨"n/../d"⟩ = .ok rest := by
      rw [removeDirectory, hd.holder_of_walks
        (.enter rfl ⟨by decide, by decide⟩ rfl rfl (by simp) (.up rfl .nil)) rfl]
      rfl
    have hsecond : rest.removeDirectory ⟨"n/.."⟩ = .error .notEmpty := by
      rw [removeDirectory, hup.holder_of_walks
        (.enter rfl ⟨by decide, by decide⟩ rfl rfl (by simp) .nil) rfl]
      rfl
    have hthird : rest.removeDirectory ⟨"n"⟩ = .ok ⟨[], []⟩ := by
      rw [removeDirectory, hn.holder_of_walks .nil rfl]
      rfl
    simp [removeDirectories, hfirst, hsecond, hthird]
  have hdirectory : outputDirectory ⟨"n/../d/x/"⟩ = ⟨"n/../d"⟩ := rfl
  rw [hdirectory, hmissing, hmade, hlost] at hwrite
  exact ⟨merged, e, _, hwrite, rfl, rfl⟩

end FatJar.Bundler
