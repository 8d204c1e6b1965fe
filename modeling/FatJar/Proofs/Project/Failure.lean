/-
FatJar.Proofs.Project.Failure — what is left when a project is not started.

The directories that are missing for a project are created before its configuration
is checked and written, and they are not taken back when one of these fails. So a
class name of white space, which is refused whatever the tree is like, still leaves
the directory of the project (`init_bareTree_blank`). Nothing else can be left: no
file or link is touched and nothing is removed, and a tree in which nothing is
missing stays as it is (`init_error_leaves`).

Contents:
1. the configuration of a new project, checked;
2. runs that start no project;
3. what they leave.
-/
import FatJar.Proofs.Project.Init

namespace FatJar.Project

open FatJar.FileTree

variable {t t' made : FileTree} {dir : Path} {mainClass : Option String} {e : InitError}

/-! ## 1. The configuration of a new project -/

/-- Only its class can be wrong with the configuration of a new project. -/
theorem fault?_starter (mainClass : Option String) (name : String) :
    (starter mainClass name).fault? =
      if Text.blank (mainClass.getD defaultMainClass) then some .blankMainClass else none := by
  have houtput : Text.blank ("build/libs/" ++ name ++ ".jar") = false := by
    have hb : Text.isBlank 'b' = false := by decide
    simp [Text.blank, hb]
  simp [starter, ProjectConfig.basic, ProjectConfig.fault?, houtput, ProjectConfig.patternFault?,
    ProjectConfig.attributeFault?, AttributeMap.empty]

/-- Writing the configuration finds no fault with it. -/
theorem save_starter_ne (name : String) (fault : ProjectConfig.Fault) (p : Path) :
    (starter mainClass name).save t p ≠ .error (.invalid fault) := by
  rw [ProjectConfig.save_eq_write t p (Nat.zero_le _)]
  cases t.write p _ <;> nofun

/-! ## 2. Runs that start no project -/

/-- Unless there is a description already, all that is done is to create directories. -/
theorem Runs.creates (h : Runs t dir mainClass (.error e) t') :
    e = .alreadyExists dir ∧ t' = t ∨
      ∃ result, t.createDirectories dir = (result, t') ∧
        ∀ err, e = .config err → result = .ok () := by
  cases h with
  | found => exact .inl ⟨rfl, rfl⟩
  | notCreated hmake => exact .inr ⟨_, hmake, nofun⟩
  | refused hmake | notWritten hmake => exact .inr ⟨_, hmake, fun _ _ => rfl⟩

/-- The configuration of a new project is refused for a blank class only. -/
theorem Runs.blank {fault : ProjectConfig.Fault}
    (h : Runs t dir mainClass (.error (.config (.invalid fault))) t') :
    Text.blank (mainClass.getD defaultMainClass) = true := by
  cases h with
  | refused _ hcheck =>
    rw [starterIn, ProjectConfig.validate, fault?_starter] at hcheck
    by_contra hblank
    rw [if_neg hblank] at hcheck
    cases hcheck
  | notWritten _ hsave => exact absurd hsave (save_starter_ne _ fault _)

/-- A blank class is refused when the directories have been created. -/
theorem init_of_blank (hexists : t.pathExists (file dir) = false)
    (hmake : t.createDirectories dir = (.ok (), made))
    (hblank : Text.blank (mainClass.getD defaultMainClass) = true) :
    init t dir mainClass = (.error (.config (.invalid .blankMainClass)), made) := by
  have hcheck : ∀ name, (starter mainClass name).validate = .error (.invalid .blankMainClass) := by
    intro name
    rw [ProjectConfig.validate, fault?_starter, if_pos hblank]
  simp [init, hexists, hmake, writeStarter, hcheck, bind, Except.bind]

/-! ## 3. What they leave -/

/-- **What is left of a project that is not started.** The tree has at most grown, by directories
that were missing for the project. It is as it was if none was missing, or if there was a
description already. If the configuration is refused or cannot be written, all that was missing has
been created and stays. It is refused for a blank class only. -/
theorem init_error_leaves (h : init t dir mainClass = (.error e, t')) :
    (∃ created, Grown t t' created ∧
      ∀ c ∈ created, ∃ q ∈ t.missing dir, t'.resolve q = .ok c) ∧
    (t.missing dir = [] → t' = t) ∧
    (∀ d, e = .alreadyExists d → t' = t) ∧
    (∀ err, e = .config err → (t' = t ↔ t.missing dir = [])) ∧
    (∀ fault, e = .config (.invalid fault) →
      Text.blank (mainClass.getD "com.example.Main") = true) := by
  have hruns := runs_of_init h
  have hblank : ∀ fault, e = .config (.invalid fault) →
      Text.blank (mainClass.getD "com.example.Main") = true := by
    rintro fault rfl
    exact hruns.blank
  rcases hruns.creates with ⟨rfl, rfl⟩ | ⟨result, hmake, hresult⟩
  · exact ⟨⟨[], .refl t', nofun⟩, fun _ => rfl, fun _ _ => rfl, nofun, hblank⟩
  · refine ⟨createFrom_grown hmake, fun hmissing => createFrom_of_absent_eq_nil hmissing hmake,
      fun d hd => ?_, fun err herr => ?_, hblank⟩
    · subst hd
      cases hruns
      rfl
    · rw [hresult err herr] at hmake
      exact createDirectories_eq_self_iff hmake

theorem init_bareTree_of_blank :
    init bareTree ⟨"p"⟩ (some " ") = (.error (.config (.invalid .blankMainClass)), madeTree) :=
  init_of_blank pathExists_bareTree createDirectories_bareTree (by decide)

/-- The directory of a project with a blank class was missing, and stays. -/
theorem init_error_leaves_blank :
    init bareTree ⟨"p"⟩ (some " ") = (.error (.config (.invalid .blankMainClass)), madeTree) ∧
    bareTree.missing ⟨"p"⟩ ≠ [] ∧
    ∃ created, Grown bareTree madeTree created ∧
      ∀ c ∈ created, ∃ q ∈ bareTree.missing ⟨"p"⟩, madeTree.resolve q = .ok c := by
  obtain ⟨hgrown, -, -, hsame, -⟩ := init_error_leaves init_bareTree_of_blank
  have hchanged : madeTree ≠ bareTree := by decide
  exact ⟨init_bareTree_of_blank, fun hmissing => hchanged ((hsame _ rfl).mpr hmissing), hgrown⟩

/-- A project that is not started can leave a directory behind. -/
theorem init_bareTree_blank :
    bareTree.IsClosed ∧ ∃ e t', init bareTree ⟨"p"⟩ (some " ") = (.error e, t') ∧
      bareTree.node? ["p"] = none ∧ t'.node? ["p"] = some .directory :=
  ⟨by decide, _, _, init_bareTree_of_blank, rfl, rfl⟩

end FatJar.Project
