/-
FatJar.Proofs.Project.Root — the directory of a project, and how it is found.

The description of a project is looked for at the path of a directory with one more
name. Where that path leads depends on the components of the directory only
(`resolve_file_congr`), so it does not matter that going up from below comes upon the
directory written in another way (`findRoot?_join`).

Contents:
1. the path of a description;
2. the directories on the way to it;
3. finding the project from below.
-/
import FatJar.Project.Root
import FatJar.Proofs.FileTree.Joining

namespace FatJar.Project

open FatJar.FileTree

variable {t : FileTree} {dir p q sub : Path} {x h : Place}

/-! ## 1. The path of a description -/

theorem isAbsolute_file (p : Path) : (file p).isAbsolute = p.isAbsolute :=
  Path.isAbsolute_join rfl

theorem parts_file (p : Path) : (file p).parts = p.parts ++ [Tool.projectFile] :=
  Path.parts_join rfl

/-- A path and the name of the description, with a slash between them where one is needed. -/
theorem exists_text_file (p : Path) :
    ∃ slash, (slash = "" ∨ slash = "/") ∧ (file p).text = p.text ++ slash ++ Tool.projectFile := by
  rw [file, Path.join_of_relative rfl]
  split
  · exact ⟨"", .inl rfl, by rw [String.append_empty]⟩
  · exact ⟨"/", .inr rfl, rfl⟩

theorem endsInSlash_file (p : Path) : (file p).endsInSlash = false := by
  obtain ⟨slash, -, htext⟩ := exists_text_file p
  have hlast : Tool.projectFile.toList.getLast? = some 'l' := by decide
  rw [Path.endsInSlash, htext, String.toList_append, List.getLast?_append, hlast]
  rfl

theorem steps_file (p : Path) : (file p).steps = p.parts ++ [Tool.projectFile] := by
  rw [Path.steps, endsInSlash_file, if_neg Bool.false_ne_true, parts_file]

theorem isName_projectFile : IsName Tool.projectFile := ⟨by decide, by decide⟩

theorem lastStep_file (p : Path) : lastStep (file p) = .name Tool.projectFile false := by
  refine lastStep_eq_name_iff.mpr ⟨?_, isName_projectFile, endsInSlash_file p⟩
  rw [parts_file]
  exact List.getLast?_concat

/-- Where the description of a directory can be looked for, it can be where the directory is written
with fewer slashes and dots at its end. -/
theorem checkPath_file (hbegins : q.text.toList <+: p.text.toList)
    (hp : checkPath (file p) = .ok ()) : checkPath (file q) = .ok () := by
  obtain ⟨rest, hrest⟩ := hbegins
  obtain ⟨slash, -, hfile⟩ := exists_text_file p
  obtain ⟨slash', hslash', hfile'⟩ := exists_text_file q
  have htext : p.text = q.text ++ String.ofList rest := by
    rw [← String.ofList_toList (s := p.text), ← hrest, String.ofList_append, String.ofList_toList]
  by_cases hnil : rest = []
  · rw [hnil, List.append_nil] at hrest
    rwa [Path.eq_of_toList hrest]
  · -- what stands in the first path only is no shorter than the slash
    have hrestSize : 0 < (String.ofList rest).utf8ByteSize := by
      rw [Nat.pos_iff_ne_zero, ne_eq, String.utf8ByteSize_eq_zero_iff]
      simpa using hnil
    have hslashSize : slash'.utf8ByteSize ≤ 1 ∧ '\x00' ∉ slash'.toList := by
      rcases hslash' with rfl | rfl <;> decide
    obtain ⟨hzero, -, hsize⟩ := checkPath_eq_ok_iff.mp hp
    rw [hfile, htext] at hsize
    rw [Path.hasZero, hfile, htext] at hzero
    refine checkPath_eq_ok_iff.mpr ⟨?_, ?_, ?_⟩
    · rw [Path.hasZero, hfile']
      simp only [String.toList_append, List.contains_eq_mem, List.mem_append,
        decide_eq_false_iff_not, not_or] at hzero ⊢
      exact ⟨⟨hzero.1.1.1, hslashSize.2⟩, hzero.2⟩
    · rw [hfile']
      simp [Tool.projectFile, Tool.name]
    · rw [hfile']
      simp only [String.utf8ByteSize_append] at hsize ⊢
      omega

/-- An empty path leads nowhere else. -/
theorem file_join_empty (p : Path) : file (p.join ⟨""⟩) = file p := by
  by_cases hslash : (p.text == "" || p.endsInSlash) = true
  · have hsame : p.join ⟨""⟩ = p := by
      rw [Path.join_of_relative rfl, if_pos hslash]
      exact congrArg Path.mk String.append_empty
    rw [hsame]
  · have hjoin : p.join ⟨""⟩ = ⟨p.text ++ "/"⟩ := by
      rw [Path.join_of_relative rfl, if_neg hslash]
      exact congrArg Path.mk String.append_empty
    have hends : Path.endsInSlash ⟨p.text ++ "/"⟩ = true := by
      simp [Path.endsInSlash]
    rw [hjoin, file, file, Path.join_of_relative rfl, Path.join_of_relative rfl,
      if_pos (by simp [hends]), if_neg hslash]

/-- The description of a directory is the same however the directory is written. -/
theorem resolve_file_congr (h : p.components = q.components) (hq : checkPath (file q) = .ok ())
    (hresolve : t.resolve (file p) = .ok x) : t.resolve (file q) = .ok x := by
  obtain ⟨habsolute, hmoves⟩ := Path.eq_of_components h
  obtain ⟨-, left, hwalks⟩ := resolve_eq_ok_iff.mp hresolve
  rw [steps_file, start, isAbsolute_file, habsolute] at hwalks
  obtain ⟨links, holder, hfirst, hlast⟩ := walks_append_iff.mp hwalks
  have hdir := hlast.node?_of_cons
  have hsame : Walks t maxLinks (start t.workingDirectory q) q.parts links holder := by
    rw [← walks_filter_iff hdir] at hfirst ⊢
    rw [Path.moves, Path.moves] at hmoves
    rw [← hmoves]
    exact hfirst
  refine resolve_eq_ok_iff.mpr ⟨hq, left, ?_⟩
  rw [steps_file, start, isAbsolute_file]
  exact hsame.append hlast

/-! ## 2. The directories on the way -/

theorem checkPath_of_file (hbegins : q.text.toList <+: dir.text.toList) (htext : q.text ≠ "")
    (hcheck : checkPath (file dir) = .ok ()) : checkPath q = .ok () := by
  refine checkPath_of_isPrefix (hbegins.trans ?_) htext hcheck
  obtain ⟨slash, -, hfile⟩ := exists_text_file dir
  rw [hfile, String.append_assoc, String.toList_append]
  exact List.prefix_append ..

/-- Where a description can be looked for, the directories on the way are there. -/
theorem isDirectory_of_mem_ancestors (hfile : t.resolve (file dir) = .ok x)
    (hq : q ∈ dir.ancestors) (htext : q.text ≠ "") : t.isDirectory q = true := by
  obtain ⟨habsolute, hbegins, more, hparts⟩ := Path.exists_parts_of_mem_ancestors hq htext
  obtain ⟨hcheck, left, hwalks⟩ := resolve_eq_ok_iff.mp hfile
  rw [steps_file, start, isAbsolute_file, ← habsolute, hparts, List.append_assoc] at hwalks
  obtain ⟨links, place, hfirst, hrest⟩ := walks_append_iff.mp hwalks
  have hdir : t.node? place = some .directory := by
    cases more with
    | nil => exact hrest.node?_of_cons
    | cons part others => exact hrest.node?_of_cons
  have hcheck := checkPath_of_file hbegins htext hcheck
  obtain ⟨k, hsteps⟩ := steps_eq q
  refine isDirectory_iff.mpr ⟨place, resolve_eq_ok_iff.mpr ⟨hcheck, links, ?_⟩, hdir⟩
  rw [hsteps]
  exact (walks_append_dots_iff hdir).mpr hfirst

/-- The description stands where its directory leads. -/
theorem resolve_of_holder_file (htext : dir.text ≠ "")
    (hholder : t.holder maxLinks t.workingDirectory (file dir) = .ok h) :
    t.resolve dir = .ok h := by
  have hcheck := (holder_eq_ok_iff.mp hholder).1
  obtain ⟨k, hsteps⟩ := steps_eq dir
  have hparts : (file dir).parts.dropLast = dir.parts ++ List.replicate 0 "." := by
    rw [parts_file, List.dropLast_concat, List.replicate_zero, List.append_nil]
  exact ((holder_iff_resolve (isAbsolute_file dir).symm hparts hsteps hcheck
    (checkPath_of_file List.prefix_rfl htext hcheck)).mp hholder).1

/-! ## 3. Finding the project -/

/-- From below a directory with a description, the directory is found, unless there is a description
on the way. -/
theorem findRoot?_join (hsub : sub.IsNormal) (hfile : t.resolve (file dir) = .ok x)
    (hbelow : ∀ q ∈ (dir.join sub).ancestors, q.IsBelow dir → isRoot t q = false) :
    ∃ root, findRoot? t (dir.join sub) = some root ∧ root.components = dir.components := by
  obtain ⟨root, hmem, hcomponents, htext⟩ := Path.exists_ancestor_join dir hsub
  have hcheck := (resolve_eq_ok_iff.mp hfile).1
  have hroot : isRoot t root = true := by
    refine pathExists_iff.mpr ⟨x, ?_⟩
    rcases htext with rfl | hbegins
    · rwa [file_join_empty]
    · exact resolve_file_congr hcomponents.symm (checkPath_file hbegins hcheck) hfile
  obtain ⟨before, after, hsplit⟩ := List.append_of_mem hmem
  have hpairwise := Path.pairwise_isBelow_ancestors (dir.join sub)
  rw [hsplit, List.pairwise_append] at hpairwise
  refine ⟨root, ?_, hcomponents⟩
  -- the paths before it are below it, so none of them has a description
  have hbefore : before.find? (isRoot t) = none := by
    rw [List.find?_eq_none]
    intro q hq
    have hq' := hpairwise.2.2 q hq root List.mem_cons_self
    rw [Path.IsBelow, hcomponents] at hq'
    simp [hbelow q (hsplit ▸ List.mem_append_left _ hq) hq']
  rw [findRoot?, hsplit, List.find?_append, hbefore, List.find?_cons, hroot]
  rfl

end FatJar.Project
