/-
FatJar.Proofs.Bundle.Atomic — bundling puts a whole file at its output, or does
nothing.

The bytes are put together beside the output and moved there, so the tree changes
in one place, and in the directories that were missing above it (`Placed`). When a
step fails, those directories are removed and the tree is the one before
(`putAtomically_cases`).

Contents:
1. the directory of an output;
2. moving a temporary file to an output;
3. putting bytes at a path: what is there afterwards, and what is not;
4. bundling.
-/
import FatJar.Proofs.FileTree.Directories
import FatJar.Proofs.Reading.Schedule
import Mathlib.Data.List.Basic

namespace FatJar.FileTree

open FatJar.Path

variable {t t' t₁ : FileTree} {output : Path} {bytes : Bytes} {h directory : Place} {name : String}
  {slash : Bool} {created : List Place} {e : FileError}

/-! ## 1. The directory of an output -/

theorem outputDirectory_eq {pieces : List (List Char)} {first : List Char}
    (hw : Written first pieces) :
    outputDirectory (ofPieces first pieces) =
      match piecesAbove pieces with
      | [] => ⟨"."⟩
      | upper :: _ =>
        if (ofPieces first upper).text == "" then ⟨"."⟩ else ofPieces first upper := by
  rw [outputDirectory, parent?, hw.above_eq]
  cases piecesAbove pieces with
  | nil =>
    by_cases hfirst : first == ['.']
    · simp [hfirst]
    · simp [hfirst]
  | cons upper uppers => rfl

/-- The directory of an output is written with pieces of the output. -/
theorem exists_written_outputDirectory (output : Path) :
    ∃ first pieces, Written first pieces ∧
      outputDirectory output = ofPieces first (pieces.dropWhile isSkipped) ∧
      (".." ∉ output.parts → ['.', '.'] ∉ pieces) := by
  obtain ⟨first, pieces, hw, -, rfl⟩ := exists_written output
  have hhere : ∃ first' pieces', Written first' pieces' ∧
      (⟨"."⟩ : Path) = ofPieces first' (pieces'.dropWhile isSkipped) ∧
      (".." ∉ (ofPieces first pieces).parts → ['.', '.'] ∉ pieces') :=
    ⟨['.'], [], ⟨by simp, rfl⟩, rfl, by simp⟩
  rw [outputDirectory_eq hw]
  cases habove : piecesAbove pieces with
  | nil => exact hhere
  | cons upper uppers =>
    simp only
    split
    · exact hhere
    · obtain ⟨skipped, rest, rfl, rfl⟩ := exists_of_mem_piecesAbove (habove ▸ List.mem_cons_self)
      refine ⟨first, rest, hw.of_append, rfl, fun hdots hmem => ?_⟩
      exact hw.dots_not_mem hdots (List.mem_append_right skipped hmem)

/-- Going up from the directory of an output leads to one that is not missed, unless a missing one
ends in `..`. -/
theorem rises_outputDirectory (hup : ∀ p ∈ t.missing (outputDirectory output), lastStep p ≠ .up) :
    Rises t (outputDirectory output).ancestors := by
  obtain ⟨first, pieces, hw, hdir, -⟩ := exists_written_outputDirectory output
  rw [hdir] at hup ⊢
  exact rises_of_written hw hup

/-- Where an output has no `..`, no directory that is missing for it ends in one. -/
theorem lastStep_ne_up_of_missing (hdots : ".." ∉ output.parts) :
    ∀ p ∈ t.missing (outputDirectory output), lastStep p ≠ .up := by
  intro p hp hup
  obtain ⟨first, pieces, hw, hdir, hpieces⟩ := exists_written_outputDirectory output
  have hmem : p ∈ (outputDirectory output).ancestors := List.takeWhile_subset _ hp
  rw [hdir] at hmem
  refine hw.dropWhile.dots_not_mem_ancestors (fun hdots' => hpieces hdots ?_) hmem ?_
  · exact (List.dropWhile_sublist _).mem hdots'
  · exact List.mem_of_getLast? (lastStep_eq_up_iff.mp hup)

/-- The file of an output is put in the directory to which its directory leads. -/
theorem holder_iff_outputDirectory (hlast : lastStep output = .name name slash)
    (hcheck : checkPath output = .ok ()) :
    t.holder maxLinks t.workingDirectory output = .ok h ↔
      t.resolve (outputDirectory output) = .ok h ∧ t.node? h = some .directory := by
  obtain ⟨first, pieces, hw, -, rfl⟩ := exists_written output
  obtain ⟨hpart, hname, -⟩ := lastStep_eq_name_iff.mp hlast
  obtain ⟨upper, uppers, hpieces, habove⟩ := hw.exists_above hpart hname
  rw [outputDirectory_eq hw, hpieces]
  simp only
  split
  · -- a name alone: its holder is the working directory, to which the dot leads
    rename_i htext
    have hupper : ofPieces first upper = ⟨""⟩ := by
      rcases hpath : ofPieces first upper with ⟨text⟩
      rw [hpath] at htext
      exact congrArg Path.mk (beq_iff_eq.mp htext)
    rw [hupper] at habove
    obtain ⟨k, last, -, hparts⟩ := habove.parts
    have hbase : (ofPieces first pieces).parts.dropLast = [] ++ List.replicate k "." := by
      rw [hparts, List.dropLast_concat]
      rfl
    have hsteps : Path.steps ⟨"."⟩ = [] ++ List.replicate 1 "." := rfl
    exact holder_iff_resolve habove.isAbsolute hbase hsteps hcheck rfl
  · rename_i htext
    exact holder_iff_of_above habove (by simpa using htext) hcheck

/-! ## 2. Moving a temporary file -/

theorem createTemporary_eq_ok {p : Path} {place : Place}
    (hcreate : t.createTemporary p bytes = .ok (place, t')) :
    ∃ directory n, t.resolve p = .ok directory ∧ t.node? directory = some .directory ∧
      place = directory ++ [temporaryName n] ∧ t.node? place = none ∧
      t' = t.put place (.file bytes) := by
  obtain ⟨directory, hresolve, hrest⟩ := Outcome.bind_eq_ok.mp hcreate
  split at hrest
  · cases hrest
  · rename_i hdir
    simp only at hrest
    split at hrest
    · cases hrest
    · rename_i n hfree
      cases hrest
      have hnone := List.find?_some hfree
      exact ⟨directory, n, hresolve, by simpa using hdir, rfl, by simpa using hnone, rfl⟩

theorem moveFile_eq_ok {source : Place} {p : Path} (hmove : t.moveFile source p = .ok t') :
    ∃ h name node, lastStep p = .name name false ∧
      t.holder maxLinks t.workingDirectory p = .ok h ∧ isLong name = false ∧
      t.node? (h ++ [name]) ≠ some .directory ∧ t.node? source = some node ∧
      t' = (t.remove source).put (h ++ [name]) node := by
  unfold moveFile at hmove
  split at hmove
  · cases hmove
  · obtain ⟨h, hholder, hrest⟩ := Outcome.bind_eq_ok.mp hmove
    split at hrest
    · rename_i name slash hlast
      split at hrest
      · cases hrest
      · rename_i hshort
        split at hrest
        · cases hrest
        · rename_i hslash
          split at hrest
          · cases hrest
          · rename_i hdir
            split at hrest
            · rename_i node hnode
              cases hrest
              refine ⟨h, name, node, ?_, hholder, by simpa using hshort, by simpa using hdir, hnode,
                rfl⟩
              rw [hlast, Bool.eq_false_iff.mpr hslash]
            · cases hrest
    · cases hrest

/-- What a move leaves behind: the file is in the directory of the output, and the temporary file
is gone. -/
theorem persist_eq_ok (hpersist : t.persist (outputDirectory output) output bytes = .ok t') :
    ∃ directory name, lastStep output = .name name false ∧ isLong name = false ∧
      checkPath output = .ok () ∧ t.resolve (outputDirectory output) = .ok directory ∧
      t.node? directory = some .directory ∧ t.node? (directory ++ [name]) ≠ some .directory ∧
      t' = t.put (directory ++ [name]) (.file bytes) := by
  obtain ⟨⟨place, written⟩, hcreate, hmove⟩ := Outcome.bind_eq_ok.mp hpersist
  obtain ⟨directory, n, hresolve, hdir, rfl, hnew, rfl⟩ := createTemporary_eq_ok hcreate
  obtain ⟨h, name, node, hlast, hholder, hshort, hplace, hnode, rfl⟩ := moveFile_eq_ok hmove
  have hne : directory ++ [temporaryName n] ≠ [] := by simp
  have hkeeps := keeps_put hne hnew (.file bytes)
  -- the move takes its last step in the directory that holds the temporary file
  have hcheck := (holder_eq_ok_iff.mp hholder).1
  obtain ⟨hsame, -⟩ := (holder_iff_outputDirectory hlast hcheck).mp hholder
  rw [resolve_keeps hkeeps hresolve] at hsame
  cases hsame
  rw [node?_put hne, if_pos rfl] at hnode
  cases hnode
  refine ⟨directory, name, hlast, hshort, hcheck, hresolve, hdir, ?_, ?_⟩
  · intro hold
    exact hplace (hkeeps.node? _ _ hold)
  · rw [remove_put hne hnew]

theorem moveFile_of_holder {source : Place} {p : Path} {node : Node}
    (hholder : t.holder maxLinks t.workingDirectory p = .ok h)
    (hlast : lastStep p = .name name false) (hshort : isLong name = false)
    (hplace : t.node? (h ++ [name]) ≠ some .directory) (hnode : t.node? source = some node) :
    t.moveFile source p = .ok ((t.remove source).put (h ++ [name]) node) := by
  have hzero : p.hasZero = false := (checkPath_eq_ok_iff.mp (holder_eq_ok_iff.mp hholder).1).1
  simp [moveFile, hzero, hholder, hlast, hshort, hplace, hnode, bind, Except.bind]

theorem createTemporary_of_free {p : Path} (hresolve : t.resolve p = .ok directory)
    (hdir : t.node? directory = some .directory)
    (hfree : t.node? (directory ++ [temporaryName 0]) = none) :
    t.createTemporary p bytes = .ok (directory ++ [temporaryName 0],
      t.put (directory ++ [temporaryName 0]) (.file bytes)) := by
  simp [createTemporary, hresolve, hdir, List.range_succ_eq_map, hfree, bind, Except.bind]

/-- A file is put in the directory of an output where no directory stands in its place. -/
theorem persist_of_free (hlast : lastStep output = .name name false) (hshort : isLong name = false)
    (hcheck : checkPath output = .ok ())
    (hresolve : t.resolve (outputDirectory output) = .ok directory)
    (hdir : t.node? directory = some .directory)
    (hplace : t.node? (directory ++ [name]) ≠ some .directory)
    (hfree : t.node? (directory ++ [temporaryName 0]) = none) :
    t.persist (outputDirectory output) output bytes =
      .ok (t.put (directory ++ [name]) (.file bytes)) := by
  have hne : directory ++ [temporaryName 0] ≠ [] := by simp
  have hholder := holder_keeps (keeps_put hne hfree (.file bytes))
    ((holder_iff_outputDirectory hlast hcheck).mpr ⟨hresolve, hdir⟩)
  have hsource : (t.put (directory ++ [temporaryName 0]) (.file bytes)).node?
      (directory ++ [temporaryName 0]) = some (.file bytes) := by
    rw [node?_put hne, if_pos rfl]
  have hplace' : (t.put (directory ++ [temporaryName 0]) (.file bytes)).node?
      (directory ++ [name]) ≠ some .directory := by
    rw [node?_put hne]
    split
    · nofun
    · exact hplace
  have hmove := moveFile_of_holder hholder hlast hshort hplace' hsource
  rw [remove_put hne hfree] at hmove
  rw [persist, createTemporary_of_free hresolve hdir hfree]
  exact hmove

/-! ## 3. Putting bytes at a path -/

/-- The second tree is the first with a file of these bytes at the output, under the name in the
directory, and with the directories that were missing above it. -/
structure Placed (t t' : FileTree) (output : Path) (bytes : Bytes) (directory : Place)
    (name : String) (created : List Place) : Prop where
  lastStep : lastStep output = .name name false
  /-- The paths that led nowhere lead to the new directories. -/
  missing : (t.missing (outputDirectory output)).map t'.resolve = created.map .ok
  new : ∀ c ∈ created, t.node? c = none ∧ t'.node? c = some .directory
  /-- The file is in the innermost new directory, or where the directory of the output led. -/
  holder : created.head? = some directory ∨
    created = [] ∧ t.resolve (outputDirectory output) = .ok directory
  node? : ∀ q, t'.node? q = if q = directory ++ [name] then some (.file bytes)
    else if q ∈ created then some .directory else t.node? q
  workingDirectory : t'.workingDirectory = t.workingDirectory
  closed : t'.IsClosed
  /-- The output leads to the file, unless it led through a link that the file has replaced. -/
  read : t'.read output = .ok bytes ∨
    (∃ target, t.node? (directory ++ [name]) = some (.link target)) ∧
      t'.isDirectory (outputDirectory output) = false

theorem read_eq_ok {p : Path} {place : Place} (hresolve : t.resolve p = .ok place)
    (hnode : t.node? place = some (.file bytes)) : t.read p = .ok bytes := by
  rw [FileTree.read, hresolve]
  simp [bind, Except.bind, hnode]

/-- A file that is put in the directory of an output is read there, unless a link to that directory
has stood in its place. -/
theorem read_put (hlast : lastStep output = .name name false) (hshort : isLong name = false)
    (hcheck : checkPath output = .ok ())
    (hresolve : t.resolve (outputDirectory output) = .ok directory)
    (hdir : t.node? directory = some .directory)
    (hplace : t.node? (directory ++ [name]) ≠ some .directory) :
    (t.put (directory ++ [name]) (.file bytes)).read output = .ok bytes ∨
      (∃ target, t.node? (directory ++ [name]) = some (.link target)) ∧
        (t.put (directory ++ [name]) (.file bytes)).isDirectory (outputDirectory output) =
          false := by
  have hne : directory ++ [name] ≠ [] := by simp
  have hput : ∀ q, (t.put (directory ++ [name]) (.file bytes)).node? q =
      if q = directory ++ [name] then some (.file bytes) else t.node? q := node?_put hne
  have hholder := (holder_iff_outputDirectory hlast hcheck).mpr ⟨hresolve, hdir⟩
  obtain ⟨-, ⟨left, hw⟩, -⟩ := holder_eq_ok_iff.mp hholder
  rcases hw.walk_put_file hne hplace with hwalk | ⟨hlink, hend⟩
  · -- the way to the directory is as before
    have hdir' : (t.put (directory ++ [name]) (.file bytes)).node? directory = some .directory := by
      rw [hput, if_neg (by simp), hdir]
    have hfile : (t.put (directory ++ [name]) (.file bytes)).node? (directory ++ [name]) =
        some (.file bytes) := by
      rw [hput, if_pos rfl]
    rw [← workingDirectory_put t (directory ++ [name]) (.file bytes)] at hwalk
    have hholder' := holder_eq_ok_iff.mpr ⟨hcheck, walk_eq_ok_iff.mp hwalk, hdir'⟩
    have hresolve' := resolve_of_holder hlast hholder' hshort hfile (fun _ => nofun) nofun
    exact .inl (read_eq_ok hresolve' hfile)
  · -- whatever the directory of the output leads to now, it is not a directory
    refine .inr ⟨hlink, Bool.eq_false_iff.mpr ?_⟩
    intro hisdir
    obtain ⟨found, hfound, hnode⟩ := isDirectory_iff.mp hisdir
    have hholder' := (holder_iff_outputDirectory hlast hcheck).mpr ⟨hfound, hnode⟩
    obtain ⟨-, hwalks, -⟩ := holder_eq_ok_iff.mp hholder'
    rw [workingDirectory_put, ← walk_eq_ok_iff] at hwalks
    rw [hend found hwalks, hput, if_pos rfl] at hnode
    cases hnode

/-- A file that is put where the directories have been created. -/
theorem Attempt.placed
    (hattempt : Attempt t (outputDirectory output) (outputDirectory output).above (.ok ()) t₁
      created)
    (hpersist : t₁.persist (outputDirectory output) output bytes = .ok t') :
    ∃ directory name, Placed t t' output bytes directory name created := by
  obtain ⟨directory, name, hlast, hshort, hcheck, hresolve, hdir, hplace, rfl⟩ :=
    persist_eq_ok hpersist
  have hne : directory ++ [name] ≠ [] := by simp
  have hleads := hattempt.leads rfl
  -- a new directory is where the file goes
  have hhead : ∀ c ∈ created.head?, c = directory := by
    intro c hc
    obtain ⟨rest, rfl⟩ := List.head?_eq_some_iff.mp hc
    obtain ⟨-, hcresolve⟩ := hattempt.resolve_of_created
    rw [hresolve] at hcresolve
    exact (Except.ok.inj hcresolve).symm
  refine ⟨directory, name, hlast, ?_, ?_, ?_, ?_, ?_, hattempt.closed.put hdir hplace _, ?_⟩
  · rw [missing_eq]
    cases created with
    | nil =>
      rw [List.map_nil, List.map_eq_nil_iff] at hleads
      rw [hleads]
      rfl
    | cons c rest =>
      have hnew := hattempt.empty c rfl name
      rw [hhead c rfl] at hnew
      exact map_resolve_keeps (keeps_put hne hnew _) hleads
  · intro c hc
    have hmade : t₁.node? c = some .directory := by rw [hattempt.grown.node?, if_pos hc]
    refine ⟨hattempt.grown.fresh c hc, ?_⟩
    rw [node?_put hne, if_neg]
    · exact hmade
    · rintro rfl
      exact hplace hmade
  · cases created with
    | nil => exact .inr ⟨rfl, hattempt.same rfl rfl ▸ hresolve⟩
    | cons c rest => exact .inl (by rw [List.head?_cons, hhead c rfl])
  · intro q
    rw [node?_put hne, hattempt.grown.node?]
  · rw [workingDirectory_put, hattempt.grown.workingDirectory]
  · refine (read_put hlast hshort hcheck hresolve hdir hplace).imp_right ?_
    rintro ⟨⟨target, hlink⟩, hnot⟩
    refine ⟨⟨target, ?_⟩, hnot⟩
    rw [hattempt.grown.node?] at hlink
    split at hlink
    · cases hlink
    · exact hlink

/-- Bytes are put where the directory of the output is there and no directory stands in their
place. -/
theorem putAtomically_of_free (hlast : lastStep output = .name name false)
    (hshort : isLong name = false) (hcheck : checkPath output = .ok ())
    (hresolve : t.resolve (outputDirectory output) = .ok directory)
    (hdir : t.node? directory = some .directory)
    (hplace : t.node? (directory ++ [name]) ≠ some .directory)
    (hfree : t.node? (directory ++ [temporaryName 0]) = none) :
    t.putAtomically output bytes = (.ok (), t.put (directory ++ [name]) (.file bytes)) := by
  have hmake := createDirectories_of_isDirectory (isDirectory_iff.mpr ⟨directory, hresolve, hdir⟩)
  simp only [putAtomically, hmake, persist_of_free hlast hshort hcheck hresolve hdir hplace hfree]

/-- Putting bytes at a path either fails, and leaves the tree as it was, or puts them there. -/
theorem putAtomically_cases {result : Except FileError Unit} (ht : t.IsClosed)
    (hup : ∀ p ∈ t.missing (outputDirectory output), lastStep p ≠ .up)
    (hput : t.putAtomically output bytes = (result, t')) :
    (∃ e, result = .error e) ∧ t' = t ∨
      result = .ok () ∧ ∃ directory name created,
        Placed t t' output bytes directory name created := by
  have hrises := rises_outputDirectory hup
  unfold putAtomically at hput
  simp only at hput
  rcases hcreate : t.createDirectories (outputDirectory output) with ⟨made, t₁⟩
  obtain ⟨created, hattempt⟩ := createFrom_attempt ht hrises rfl hcreate
  have hrestores : t₁.removeDirectories (t.missing (outputDirectory output)) = t :=
    hattempt.restores
  rw [hcreate] at hput
  cases made with
  | error e =>
    cases hput
    exact .inl ⟨⟨e, rfl⟩, hrestores⟩
  | ok _ =>
    simp only at hput
    split at hput
    · rename_i e hpersist
      cases hput
      exact .inl ⟨⟨e, rfl⟩, hrestores⟩
    · rename_i t₂ hpersist
      cases hput
      obtain ⟨directory, name, hplaced⟩ := hattempt.placed hpersist
      exact .inr ⟨rfl, directory, name, created, hplaced⟩

end FatJar.FileTree

namespace FatJar.Bundler

/-! ## 4. Bundling -/

variable {t : FileTree} {output : Path}

/-- How bundling ends: with an error, and the tree as it was, or with bytes that were to be made,
put at the output, and their digest in the report. -/
def AllOrNothing (t : FileTree) (output : Path) (made : Bytes → Prop) :
    Except BundleError BundleReport × FileTree → Prop
  | (.error _, t') => t' = t
  | (.ok report, t') => ∃ bytes directory name created, made bytes ∧
      report.checksum = Digest.sha256 bytes ∧ t.Placed t' output bytes directory name created

theorem AllOrNothing.mono {made other : Bytes → Prop}
    {ending : Except BundleError BundleReport × FileTree}
    (hending : AllOrNothing t output made ending) (hmade : ∀ bytes, made bytes → other bytes) :
    AllOrNothing t output other ending := by
  rcases ending with ⟨e | report, t'⟩
  · exact hending
  · obtain ⟨bytes, directory, name, created, hbytes, hplaced⟩ := hending
    exact ⟨bytes, directory, name, created, hmade bytes hbytes, hplaced⟩

theorem write_allOrNothing (ht : t.IsClosed)
    (hup : ∀ p ∈ t.missing (FileTree.outputDirectory output), FileTree.lastStep p ≠ .up)
    (merged : MergedArchive) :
    AllOrNothing t output (fun bytes => merged.toBytes = .ok bytes) (write t merged output) := by
  rw [write]
  split
  · rfl
  · rename_i bytes hbytes
    rcases hput : t.putAtomically output bytes with ⟨result, t'⟩
    rcases FileTree.putAtomically_cases ht hup hput with ⟨⟨e, rfl⟩, hsame⟩ | ⟨rfl, hplaced⟩
    · exact hsame
    · obtain ⟨directory, name, created, hplaced⟩ := hplaced
      exact ⟨bytes, directory, name, created, hbytes, rfl, hplaced⟩

theorem bundleArchives_allOrNothing (b : Bundler) (ht : t.IsClosed) (hdots : ".." ∉ output.parts)
    (inputs : List Archive) :
    AllOrNothing t output
      (fun bytes => ∃ merged, b.merge inputs = .ok merged ∧ merged.toBytes = .ok bytes)
      (b.bundleArchives t inputs output) := by
  rw [bundleArchives]
  split
  · rfl
  · rename_i merged hmerged
    exact (write_allOrNothing ht (FileTree.lastStep_ne_up_of_missing hdots) merged).mono
      fun bytes hbytes => ⟨merged, hmerged, hbytes⟩

theorem bundleArchives_of_put {b : Bundler} {inputs : List Archive} {merged : MergedArchive}
    {bytes : Bytes} {t' : FileTree} (hmerged : b.merge inputs = .ok merged)
    (hbytes : merged.toBytes = .ok bytes) (hput : t.putAtomically output bytes = (.ok (), t')) :
    b.bundleArchives t inputs output =
      (.ok ⟨output, merged.entries.length + 2, merged.stats, Digest.sha256 bytes⟩, t') := by
  simp only [bundleArchives, hmerged, write, hbytes, hput]

/-- An archive of one file, which is bundled where this has to be seen at work. -/
def oneFile : Archive := ⟨"d", [.file "x" [0x31]]⟩

theorem exists_bytes_oneFile :
    ∃ b merged bytes, ofOptions (.ofEntryPoint "A") = .ok b ∧ b.merge [oneFile] = .ok merged ∧
      merged.toBytes = .ok bytes := by
  have hmade : (do
      let b ← (ofOptions (.ofEntryPoint "A")).toOption
      let merged ← (b.merge [oneFile]).toOption
      merged.toBytes.toOption).isSome := by decide +kernel
  obtain ⟨bytes, hmade⟩ := Option.isSome_iff_exists.mp hmade
  obtain ⟨b, hb, hmade⟩ := Option.bind_eq_some_iff.mp hmade
  obtain ⟨merged, hmerged, hbytes⟩ := Option.bind_eq_some_iff.mp hmade
  exact ⟨b, merged, bytes, Outcome.eq_ok_of_toOption hb, Outcome.eq_ok_of_toOption hmerged,
    Outcome.eq_ok_of_toOption hbytes⟩

/-- **Bundling is all or nothing.** In a tree in which everything stands in a directory, for an
output without `..`, bundling either fails and leaves the tree as it was, or the bytes of the merge
are a file at the output, the directories that were missing are there, and nothing else is
changed. -/
theorem bundle_allOrNothing (b : Bundler) (t : FileTree) (processors : Nat)
    (sources : List Source) (archives : List Archive) (output : Path) (ht : t.IsClosed)
    (hdots : ".." ∉ output.parts) :
    AllOrNothing t output
      (fun bytes => ∃ inputs merged,
        Reading.readInputs t processors b.options.jobs sources = .ok inputs ∧
        b.merge inputs = .ok merged ∧ merged.toBytes = .ok bytes)
      (b.bundle t processors sources output) ∧
    AllOrNothing t output
      (fun bytes => ∃ merged, b.merge archives = .ok merged ∧ merged.toBytes = .ok bytes)
      (b.bundleArchives t archives output) := by
  refine ⟨?_, bundleArchives_allOrNothing b ht hdots archives⟩
  rw [bundle]
  split
  · rfl
  · split
    · rfl
    · rename_i inputs hinputs
      refine (bundleArchives_allOrNothing b ht hdots inputs).mono ?_
      rintro bytes ⟨merged, hmerged, hbytes⟩
      exact ⟨inputs, merged, hinputs, hmerged, hbytes⟩

/-- In an empty tree, the directory of an output is created first. -/
theorem putAtomically_missing (bytes : Bytes) :
    FileTree.putAtomically ⟨[], []⟩ ⟨"o/a"⟩ bytes =
      (.ok (), ⟨[(["o"], .directory), (["o", "a"], .file bytes)], []⟩) := by
  let made : FileTree := ⟨[(["o"], .directory)], []⟩
  have ho : FileTree.ReadsAs ⟨"o"⟩ ["o"] := ⟨rfl, rfl, rfl, rfl⟩
  have hancestors : Path.ancestors ⟨"o"⟩ = [⟨"o"⟩, ⟨""⟩] := rfl
  have hmake : FileTree.createDirectory ⟨[], []⟩ ⟨"o"⟩ = .ok made := by
    rw [FileTree.createDirectory, ho.holder_eq, List.dropLast_singleton, FileTree.walk]
    rfl
  have hcreate : FileTree.createDirectories ⟨[], []⟩ (FileTree.outputDirectory ⟨"o/a"⟩) =
      (.ok (), made) := by
    show FileTree.createFrom ⟨[], []⟩ (Path.ancestors ⟨"o"⟩) = _
    simp [hancestors, FileTree.createFrom, hmake]
  have hresolve : made.resolve (FileTree.outputDirectory ⟨"o/a"⟩) = .ok ["o"] := by
    show made.resolve ⟨"o"⟩ = .ok ["o"]
    exact ho.resolve_of_walks (.enter rfl ⟨by decide, by decide⟩ rfl rfl (by simp) .nil)
  have hpersist : made.persist (FileTree.outputDirectory ⟨"o/a"⟩) ⟨"o/a"⟩ bytes =
      .ok (made.put ["o", "a"] (.file bytes)) :=
    FileTree.persist_of_free rfl rfl rfl hresolve rfl (by decide) rfl
  simp only [FileTree.putAtomically, hcreate, hpersist]
  rfl

/-- An output in a directory that is missing. -/
theorem bundle_allOrNothing_missing :
    let t : FileTree := ⟨[], []⟩
    let output : Path := ⟨"o/a"⟩
    t.IsClosed ∧ ".." ∉ output.parts ∧
    ∃ b report t', ofOptions (.ofEntryPoint "A") = .ok b ∧
      b.bundleArchives t [oneFile] output = (.ok report, t') ∧
      ∃ bytes directory name created,
        (∃ merged, b.merge [oneFile] = .ok merged ∧ merged.toBytes = .ok bytes) ∧
        report.checksum = Digest.sha256 bytes ∧
        t.Placed t' output bytes directory name created := by
  intro t output
  have ht : t.IsClosed := by decide
  have hdots : ".." ∉ output.parts := by decide
  obtain ⟨b, merged, bytes, hb, hmerged, hbytes⟩ := exists_bytes_oneFile
  have hrun := bundleArchives_of_put hmerged hbytes (putAtomically_missing bytes)
  have hending := (bundle_allOrNothing b t 1 [] [oneFile] output ht hdots).2
  rw [hrun] at hending
  exact ⟨ht, hdots, b, _, _, hb, hrun, hending⟩

/-- A link to the directory in which it stands, and a directory with a file. -/
def ownLinkTree : FileTree where
  nodes := [(["l"], .link "."), (["d"], .directory), (["d", "x"], .file [0x31])]
  workingDirectory := []

theorem resolve_ownLinkTree :
    ownLinkTree.resolve ⟨"."⟩ = .ok [] ∧ ownLinkTree.resolve ⟨"l"⟩ = .ok [] ∧
      ownLinkTree.resolve ⟨"d"⟩ = .ok ["d"] ∧ ownLinkTree.resolve ⟨"d/x"⟩ = .ok ["d", "x"] := by
  have hhere : FileTree.ReadsAs ⟨"."⟩ ["."] := ⟨rfl, rfl, rfl, rfl⟩
  have hl : FileTree.ReadsAs ⟨"l"⟩ ["l"] := ⟨rfl, rfl, rfl, rfl⟩
  have hd : FileTree.ReadsAs ⟨"d"⟩ ["d"] := ⟨rfl, rfl, rfl, rfl⟩
  have hx : FileTree.ReadsAs ⟨"d/x"⟩ ["d", "x"] := ⟨rfl, rfl, rfl, rfl⟩
  exact ⟨hhere.resolve_of_walks (.here rfl .nil),
    hl.resolve_of_walks (.follow rfl ⟨by decide, by decide⟩ rfl rfl (.here rfl .nil)),
    hd.resolve_of_walks (.enter rfl ⟨by decide, by decide⟩ rfl rfl (by simp) .nil),
    hx.resolve_of_walks (.enter rfl ⟨by decide, by decide⟩ rfl rfl (by simp)
      (.enter rfl ⟨by decide, by decide⟩ rfl rfl (by simp) .nil))⟩

theorem isDirectory_ownLinkTree :
    ownLinkTree.isDirectory ⟨"d"⟩ = true ∧ ownLinkTree.isDirectory ⟨"d/x"⟩ = false := by
  obtain ⟨-, -, hd, hx⟩ := resolve_ownLinkTree
  simp only [FileTree.isDirectory, hd, hx]
  decide

theorem readInputs_ownLinkTree (processors requested : Nat) :
    Reading.readInputs ownLinkTree processors requested [⟨.directory, ⟨"d"⟩⟩] = .ok [oneFile] := by
  obtain ⟨-, -, hd, hx⟩ := resolve_ownLinkTree
  obtain ⟨hdirectory, hfile⟩ := isDirectory_ownLinkTree
  have hjoin : Path.join ⟨"d"⟩ ⟨"x"⟩ = ⟨"d/x"⟩ := by decide
  have hlist : ownLinkTree.list ⟨"d"⟩ = .ok ["x"] := by
    rw [FileTree.list, hd]
    rfl
  have hcontent : ownLinkTree.read ⟨"d/x"⟩ = .ok [0x31] := by
    rw [FileTree.read, hx]
    rfl
  have hread : (Source.mk .directory ⟨"d"⟩).read ownLinkTree = .ok oneFile := by
    simp [Source.read, Source.entries, hdirectory, FileTree.depthBound, treeEntries, hlist,
      sortNames, gather, hjoin, hfile, hcontent, Except.mapError, bind, Except.bind, pure,
      Except.pure, oneFile]
  rw [Reading.readInputs_eq_readInTurn]
  simp only [Reading.readInTurn, hread]
  rfl

/-- A file is put under a name that is free. -/
theorem putAtomically_ownLinkTree (bytes : Bytes) :
    ownLinkTree.putAtomically ⟨"a"⟩ bytes = (.ok (), ownLinkTree.put ["a"] (.file bytes)) := by
  have hlast : FileTree.lastStep ⟨"a"⟩ = .name "a" false := rfl
  have hdir : FileTree.outputDirectory ⟨"a"⟩ = ⟨"."⟩ := rfl
  have hresolve : ownLinkTree.resolve (FileTree.outputDirectory ⟨"a"⟩) = .ok [] := by
    rw [hdir, resolve_ownLinkTree.1]
  exact FileTree.putAtomically_of_free hlast rfl rfl hresolve rfl (by decide) rfl

/-- The output need not lead to the file: here the file replaces the link through which the output
led, so that `l/l` goes through a file. -/
theorem bundle_ownLinkTree :
    ownLinkTree.IsClosed ∧ ".." ∉ Path.parts ⟨"l/l"⟩ ∧
    ∃ b report t', ofOptions (.ofEntryPoint "A") = .ok b ∧
      b.bundle ownLinkTree 1 [⟨.directory, ⟨"d"⟩⟩] ⟨"l/l"⟩ = (.ok report, t') ∧
      t'.read ⟨"l/l"⟩ = .error .notDirectory := by
  obtain ⟨b, merged, bytes, hb, hmerged, hbytes⟩ := exists_bytes_oneFile
  have hput : ownLinkTree.putAtomically ⟨"l/l"⟩ bytes =
      (.ok (), ownLinkTree.put ["l"] (.file bytes)) := by
    have hlast : FileTree.lastStep ⟨"l/l"⟩ = .name "l" false := rfl
    have hdir : FileTree.outputDirectory ⟨"l/l"⟩ = ⟨"l"⟩ := rfl
    have hresolve : ownLinkTree.resolve (FileTree.outputDirectory ⟨"l/l"⟩) = .ok [] := by
      rw [hdir, resolve_ownLinkTree.2.1]
    exact FileTree.putAtomically_of_free hlast rfl rfl hresolve rfl (by decide) rfl
  have hunread : (ownLinkTree.put ["l"] (.file bytes)).read ⟨"l/l"⟩ = .error .notDirectory := by
    have hll : FileTree.ReadsAs ⟨"l/l"⟩ ["l", "l"] := ⟨rfl, rfl, rfl, rfl⟩
    rw [FileTree.read, hll.resolve_eq,
      FileTree.walk_enter rfl ⟨by decide, by decide⟩ rfl rfl (by simp), FileTree.walk]
    rfl
  have hbundle : b.bundle ownLinkTree 1 [⟨.directory, ⟨"d"⟩⟩] ⟨"l/l"⟩ =
      b.bundleArchives ownLinkTree [oneFile] ⟨"l/l"⟩ := by
    rw [bundle, if_neg (by simp), readInputs_ownLinkTree]
  have hrun := bundleArchives_of_put hmerged hbytes hput
  exact ⟨by decide, by decide, b, _, _, hb, hbundle.trans hrun, hunread⟩

end FatJar.Bundler
