/-
FatJar.Proofs.Bundle.Delivery — what a bundle that succeeds has delivered, and
what one that fails can fail with.

These facts hold for any output, with or without `..`. A successful run has gone
through all its steps, so its parts can be named: the archives read, their merge,
the bytes of the merge, and the tree in which these bytes stand at the output
(`Delivers`).

Contents:
1. putting bytes at a path;
2. a bundle that succeeds;
3. a bundle that fails.
-/
import FatJar.Proofs.Bundle.Atomic
import FatJar.Proofs.Merge.Refusal
import FatJar.Proofs.Reading.Schedule

namespace FatJar

open Outcome

/-! ## 1. Putting bytes at a path -/

namespace FileTree

variable {t t' : FileTree} {output : Path} {bytes : Bytes}

/-- The second tree is the first with the directories above the output, and with a file of these
bytes in the directory to which they lead, under the last name of the output. -/
def Delivers (t t' : FileTree) (output : Path) (bytes : Bytes) : Prop :=
  ∃ made directory name, t.createDirectories (outputDirectory output) = (.ok (), made) ∧
    made.resolve (outputDirectory output) = .ok directory ∧
    lastStep output = .name name false ∧ t' = made.put (directory ++ [name]) (.file bytes)

theorem putAtomically_eq_ok (h : t.putAtomically output bytes = (.ok (), t')) :
    ∃ made, t.createDirectories (outputDirectory output) = (.ok (), made) ∧
      made.persist (outputDirectory output) output bytes = .ok t' := by
  unfold putAtomically at h
  simp only at h
  split at h
  · cases h
  · rename_i made hmade
    split at h
    · cases h
    · rename_i written hpersist
      cases h
      exact ⟨made, hmade, hpersist⟩

theorem delivers_of_put (h : t.putAtomically output bytes = (.ok (), t')) :
    t.Delivers t' output bytes := by
  obtain ⟨made, hmade, hpersist⟩ := putAtomically_eq_ok h
  obtain ⟨directory, name, hlast, -, -, hresolve, -, -, rfl⟩ := persist_eq_ok hpersist
  exact ⟨made, directory, name, hmade, hresolve, hlast, rfl⟩

/-- The tree, seen from another directory. -/
def seenFrom (t : FileTree) (directory : Place) : FileTree :=
  { t with workingDirectory := directory }

/-- A part of a path is a path of one step. -/
theorem steps_part {name : String} (h : name ∈ output.parts) :
    Path.steps ⟨name⟩ = [name] ∧ Path.isAbsolute ⟨name⟩ = false := by
  obtain ⟨piece, hpiece, rfl⟩ := List.mem_map.mp h
  obtain ⟨hsplit, hne⟩ := List.mem_filter.mp hpiece
  have hchars : ∀ c ∈ piece, (c == '/') = false := fun c hc =>
    (Text.mem_of_mem_splitWhere hsplit c hc).2
  have hparts : Path.parts ⟨String.ofList piece⟩ = [String.ofList piece] := by
    rw [Path.parts, String.toList_ofList, Text.splitWhere_of_forall hchars]
    simp [hne]
  have hends : Path.endsInSlash ⟨String.ofList piece⟩ = false := by
    rw [Path.endsInSlash, String.toList_ofList]
    refine Bool.eq_false_iff.mpr fun hslash => ?_
    have hmem := List.mem_of_getLast? (beq_iff_eq.mp hslash)
    cases hchars '/' hmem
  refine ⟨by rw [Path.steps, hends, hparts]; rfl, ?_⟩
  rw [Path.isAbsolute, String.toList_ofList]
  refine Bool.eq_false_iff.mpr fun hslash => ?_
  have hmem := List.mem_of_head? (beq_iff_eq.mp hslash)
  cases hchars '/' hmem

theorem checkPath_part {name : String} (h : name ∈ output.parts) (hshort : isLong name = false)
    (hcheck : checkPath output = .ok ()) : checkPath ⟨name⟩ = .ok () := by
  obtain ⟨piece, hpiece, rfl⟩ := List.mem_map.mp h
  obtain ⟨hsplit, hne⟩ := List.mem_filter.mp hpiece
  have hzero : Path.hasZero ⟨String.ofList piece⟩ = false := by
    have houtput : output.hasZero = false := (checkPath_eq_ok_iff.mp hcheck).1
    simp only [Path.hasZero, String.toList_ofList, List.contains_eq_mem,
      decide_eq_false_iff_not] at houtput ⊢
    exact fun hmem => houtput (Text.mem_of_mem_splitWhere hsplit _ hmem).1
  have hempty : String.ofList piece ≠ "" := by
    intro heq
    have hnil : piece = [] := by simpa using congrArg String.toList heq
    simp [hnil] at hne
  have hlength : (String.ofList piece).utf8ByteSize ≤ maxPath := by
    have hshort : ¬ maxName < (String.ofList piece).utf8ByteSize := of_decide_eq_false hshort
    simp only [maxName, maxPath] at hshort ⊢
    omega
  exact checkPath_eq_ok_iff.mpr ⟨hzero, hempty, hlength⟩

/-- From the directory in which a file stands, it is read under its name. -/
theorem read_name {directory : Place} {name : String} (hlast : lastStep output = .name name false)
    (hshort : isLong name = false) (hcheck : checkPath output = .ok ())
    (hdir : t.node? directory = some .directory)
    (hfile : t.node? (directory ++ [name]) = some (.file bytes)) :
    (t.seenFrom directory).read ⟨name⟩ = .ok bytes := by
  obtain ⟨hpart, hname, -⟩ := lastStep_eq_name_iff.mp hlast
  have hmem := List.mem_of_getLast? hpart
  obtain ⟨hsteps, hrelative⟩ := steps_part hmem
  have hwalks : Walks (t.seenFrom directory) maxLinks directory [name] maxLinks
      (directory ++ [name]) :=
    .enter hdir hname hshort hfile (fun _ => nofun) .nil
  have hresolve : (t.seenFrom directory).resolve ⟨name⟩ = .ok (directory ++ [name]) := by
    refine resolve_eq_ok_iff.mpr ⟨checkPath_part hmem hshort hcheck, maxLinks, ?_⟩
    rw [hsteps, start, hrelative]
    exact hwalks
  exact read_eq_ok hresolve hfile

/-- A file of these bytes has been put under the last name of the output. From the directory in
which it stands it is read under that name; and the output leads to it, unless its directory has
ceased to lead to one. -/
structure Stands (t' : FileTree) (output : Path) (bytes : Bytes) (directory : Place)
    (name : String) : Prop where
  lastStep : lastStep output = .name name false
  node? : t'.node? (directory ++ [name]) = some (.file bytes)
  read_name : (t'.seenFrom directory).read ⟨name⟩ = .ok bytes
  read_output : t'.read output = .ok bytes ∨ t'.isDirectory (outputDirectory output) = false

theorem stands_of_put (h : t.putAtomically output bytes = (.ok (), t')) :
    ∃ directory name, t'.Stands output bytes directory name := by
  obtain ⟨made, -, hpersist⟩ := putAtomically_eq_ok h
  obtain ⟨directory, name, hlast, hshort, hcheck, hresolve, hdir, hplace, rfl⟩ :=
    persist_eq_ok hpersist
  have hne : directory ++ [name] ≠ [] := by simp
  have hfile : (made.put (directory ++ [name]) (.file bytes)).node? (directory ++ [name]) =
      some (.file bytes) := by
    rw [node?_put hne, if_pos rfl]
  have hdir' : (made.put (directory ++ [name]) (.file bytes)).node? directory =
      some .directory := by
    rw [node?_put hne, if_neg (by simp), hdir]
  exact ⟨directory, name, hlast, hfile, read_name hlast hshort hcheck hdir' hfile,
    (read_put hlast hshort hcheck hresolve hdir hplace).imp_right And.right⟩

end FileTree

variable {b : Bundler} {t t' : FileTree} {processors : Nat} {sources : List Source}
  {output : Path}

/-! ## 2. Success -/

namespace Bundler

theorem bundleArchives_eq_ok {archives : List Archive} {report : BundleReport}
    (h : b.bundleArchives t archives output = (.ok report, t')) :
    ∃ merged bytes, b.merge archives = .ok merged ∧ merged.toBytes = .ok bytes ∧
      t.putAtomically output bytes = (.ok (), t') ∧
      report = ⟨output, merged.entries.length + 2, merged.stats, Digest.sha256 bytes⟩ := by
  unfold bundleArchives at h
  split at h
  · cases h
  · rename_i merged hmerged
    unfold write at h
    split at h
    · cases h
    · rename_i bytes hbytes
      split at h
      · cases h
      · rename_i written hput
        cases h
        exact ⟨merged, bytes, hmerged, hbytes, hput, rfl⟩

theorem bundle_eq_ok {report : BundleReport}
    (h : b.bundle t processors sources output = (.ok report, t')) :
    ∃ inputs merged bytes,
      Reading.readInputs t processors b.options.jobs sources = .ok inputs ∧
      b.merge inputs = .ok merged ∧ merged.toBytes = .ok bytes ∧
      t.putAtomically output bytes = (.ok (), t') ∧
      report = ⟨output, merged.entries.length + 2, merged.stats, Digest.sha256 bytes⟩ := by
  unfold bundle at h
  split at h
  · cases h
  · split at h
    · cases h
    · rename_i inputs hinputs
      obtain ⟨merged, bytes, hmerged, hbytes, hput, hreport⟩ := bundleArchives_eq_ok h
      exact ⟨inputs, merged, bytes, hinputs, hmerged, hbytes, hput, hreport⟩

theorem bundle_of_put {inputs : List Archive} {merged : MergedArchive} {bytes : Bytes}
    (hinputs : Reading.readInputs t processors b.options.jobs sources = .ok inputs)
    (hmerged : b.merge inputs = .ok merged) (hbytes : merged.toBytes = .ok bytes)
    (hput : t.putAtomically output bytes = (.ok (), t')) :
    b.bundle t processors sources output =
      (.ok ⟨output, merged.entries.length + 2, merged.stats, Digest.sha256 bytes⟩, t') := by
  -- without sources there would be no inputs, and no merge of them
  have hne : sources ≠ [] := by
    rintro rfl
    rw [Reading.readInputs_eq_readInTurn] at hinputs
    cases hinputs
    cases hmerged
  rw [bundle, if_neg (by simpa using hne), hinputs]
  exact bundleArchives_of_put hmerged hbytes hput

end Bundler

/-! ## 3. Failure -/

namespace BundleError

/-- An input cannot be read or is not well formed, or the output cannot be written. -/
def IsInputOutput : BundleError → Prop
  | .unreadable _ _ _ | .malformedArchive _ _ _ | .output _ _ => True
  | _ => False

/-- Two inputs have a file of one name. -/
def IsDuplicate : BundleError → Prop
  | .duplicateEntry _ _ _ => True
  | _ => False

theorem ofRead_isInputOutput (index : Nat) (path : String) (e : ReadError) :
    (ofRead index path e).IsInputOutput := by
  cases e <;> trivial

theorem kind_of_isInputOutput {e : BundleError} (h : e.IsInputOutput) : e.kind = .io := by
  cases e <;> first | rfl | exact h.elim

theorem kind_of_isDuplicate {e : BundleError} (h : e.IsDuplicate) : e.kind = .duplicateEntry := by
  cases e <;> first | rfl | exact h.elim

theorem refusal_isInputOutput_or (p : Position) :
    p.refusal.IsInputOutput ∨ p.refusal.IsDuplicate := by
  unfold Position.refusal
  split
  · exact .inl trivial
  · split
    · exact .inl trivial
    · exact .inr trivial

end BundleError

namespace Bundler

theorem readInputs_isInputOutput {jobs : Nat} {e : BundleError}
    (h : Reading.readInputs t processors jobs sources = .error e) : e.IsInputOutput := by
  rw [Reading.readInputs_eq_readInTurn, Reading.readInTurn_eq_error_iff] at h
  obtain ⟨i, source, failure, -, rfl⟩ := h
  exact BundleError.ofRead_isInputOutput _ _ failure

theorem readInputs_ne_nil {jobs : Nat} {inputs : List Archive} (hne : sources ≠ [])
    (h : Reading.readInputs t processors jobs sources = .ok inputs) : inputs ≠ [] := by
  rintro rfl
  rw [Reading.readInputs_eq_readInTurn, Reading.readInTurn_eq_ok_iff] at h
  exact hne (by simpa using h)

/-- A bundle of some sources fails because of an input, of the output, or of a duplicate. -/
theorem bundle_eq_error {e : BundleError} (hne : sources ≠ [])
    (h : b.bundle t processors sources output = (.error e, t')) :
    e.IsInputOutput ∨ e.IsDuplicate := by
  rw [bundle, if_neg (by simpa using hne)] at h
  split at h
  · rename_i failure hread
    cases h
    exact .inl (readInputs_isInputOutput hread)
  · rename_i inputs hinputs
    rw [bundleArchives] at h
    split at h
    · rename_i failure hmerge
      cases h
      rcases (merge_eq_error_iff b inputs _).mp hmerge with
        ⟨hempty, -⟩ | ⟨-, p, -, -, -, -, rfl⟩
      · exact absurd hempty (readInputs_ne_nil hne hinputs)
      · exact BundleError.refusal_isInputOutput_or p
    · rename_i merged hmerged
      rw [write] at h
      split at h
      · cases h
        exact .inl trivial
      · split at h
        · cases h
          exact .inl trivial
        · cases h

/-- A bundle that fails leaves a closed tree as it was, if its output has no `..`. -/
theorem bundle_unchanged {e : BundleError} (ht : t.IsClosed) (hdots : ".." ∉ output.parts)
    (h : b.bundle t processors sources output = (.error e, t')) : t' = t := by
  rw [bundle] at h
  split at h
  · cases h
    rfl
  · split at h
    · cases h
      rfl
    · rename_i inputs _
      have hending := bundleArchives_allOrNothing b ht hdots inputs
      rw [h] at hending
      exact hending

end Bundler

end FatJar
