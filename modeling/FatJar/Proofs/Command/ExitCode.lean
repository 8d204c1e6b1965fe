/-
FatJar.Proofs.Command.ExitCode — how the command `bundle` ends.

The command goes through stages that can each stop it: the project is loaded,
options are put together and checked, inputs and output are chosen, and the
bundle is made. The code with which it ends is that of the first stage that
stops it, so it can be told from a list of cases in their order
(`bundle_exitCode`), and it is 0 exactly when the bundle stands at the output.
All of this is said of a working directory that is there; one that has been
removed stops the command before the first stage, unless a configuration is given.

Contents:
1. cases in their order;
2. what can stop the command;
3. the stages of a plan;
4. the code;
5. runs.
-/
import FatJar.Command.Run
import FatJar.Proofs.Bundle.Delivery
import FatJar.Proofs.Bundle.Options

namespace FatJar.Command

/-! ## 1. Cases in their order -/

/-- The code of the first case that applies, or `otherwise` if none does. -/
inductive DecidedBy (otherwise : Nat) : List (Prop × Nat) → Nat → Prop
  | here {applies : Prop} {code : Nat} {rest : List (Prop × Nat)} (h : applies) :
      DecidedBy otherwise ((applies, code) :: rest) code
  | later {applies : Prop} {code result : Nat} {rest : List (Prop × Nat)} (h : ¬ applies)
      (hrest : DecidedBy otherwise rest result) :
      DecidedBy otherwise ((applies, code) :: rest) result
  | none : DecidedBy otherwise [] otherwise

/-! ## 2. What can stop the command -/

section Cases

variable (t : FileTree) (processors : Nat) (r : BundleRequest)

/-- A project has to be looked for, and the working directory has been removed. -/
def LacksWorkingDirectory : Prop :=
  r.config = none ∧ t.node? t.workingDirectory ≠ some .directory

/-- There is a configuration, given or found, and it cannot be loaded. -/
def Unloadable : Prop :=
  ∃ path e, configPath? t r = .ok (some path) ∧ ProjectConfig.load t path = .error e

/-- There is neither a configuration nor a main class. -/
def LacksMainClass : Prop :=
  configPath? t r = .ok none ∧ r.mainClass = none

/-- The options of the project with those of the request are refused. -/
def Rejected : Prop :=
  ∃ project e, findProject t r = .ok project ∧
    Bundler.ofOptions (r.adjust (baseOptions project)) = .error e

/-- There are inputs neither in the request nor in the project. -/
def LacksInputs : Prop :=
  ∃ project, findProject t r = .ok project ∧ inputPaths project r = []

/-- There is an output neither in the request nor in the project. -/
def LacksOutput : Prop :=
  ∃ project, findProject t r = .ok project ∧ outputPath? project r = none

/-- The output that the request or else the project gives. -/
def Selects (output : Path) : Prop :=
  ∃ project, findProject t r = .ok project ∧ outputPath? project r = some output

/-- Making the bundle fails with such an error. -/
def Fails (error : BundleError → Prop) : Prop :=
  ∃ project b output e t', findProject t r = .ok project ∧
    Bundler.ofOptions (r.adjust (baseOptions project)) = .ok b ∧
    outputPath? project r = some output ∧
    b.bundle t processors ((inputPaths project r).map (Source.ofPath t)) output =
      (.error e, t') ∧ error e

/-- The inputs are read and merged, and the merge has these bytes. -/
def Makes (bytes : Bytes) : Prop :=
  ∃ project b inputs merged, findProject t r = .ok project ∧
    Bundler.ofOptions (r.adjust (baseOptions project)) = .ok b ∧
    Reading.readInputs t processors b.options.jobs
      ((inputPaths project r).map (Source.ofPath t)) = .ok inputs ∧
    b.merge inputs = .ok merged ∧ merged.toBytes = .ok bytes

end Cases

variable {t t' : FileTree} {processors : Nat} {r : BundleRequest} {project : Option LoadedProject}
  {b : Bundler} {output : Path}

/-! ## 3. The stages of a plan -/

theorem configPath?_of_lacksWorkingDirectory (h : LacksWorkingDirectory t r) :
    configPath? t r = .error (.noWorkingDirectory .notFound) := by
  obtain ⟨hconfig, hnode⟩ := h
  have hhere : t.currentDirectory = .error .notFound := by simp [FileTree.currentDirectory, hnode]
  rw [configPath?, hconfig]
  simp [hhere, Except.mapError, bind, Except.bind]

/-- Nothing but the want of a working directory keeps a configuration from being looked for. -/
theorem configPath?_of_not_lacksWorkingDirectory (h : ¬ LacksWorkingDirectory t r) :
    ∃ path?, configPath? t r = .ok path? := by
  cases hconfig : r.config with
  | some path => exact ⟨some path, by rw [configPath?, hconfig]⟩
  | none =>
    have hnode : t.node? t.workingDirectory = some .directory := by
      simpa [LacksWorkingDirectory, hconfig] using h
    have hhere : t.currentDirectory = .ok t.workingPath := by
      simp [FileTree.currentDirectory, hnode]
    refine ⟨(Project.findRoot? t t.workingPath).map Project.file, ?_⟩
    rw [configPath?, hconfig]
    simp only [hhere, Except.mapError, bind, Except.bind, pure, Except.pure]

theorem plan_of_lacksWorkingDirectory (h : LacksWorkingDirectory t r) :
    plan t r = .error (.noWorkingDirectory .notFound) := by
  simp [plan, findProject, configPath?_of_lacksWorkingDirectory h, bind, Except.bind]

theorem unloadable_of_findProject (hthere : ¬ LacksWorkingDirectory t r) {f : Failure}
    (h : findProject t r = .error f) : Unloadable t r ∧ f.exitCode = 1 := by
  obtain ⟨path?, hpath⟩ := configPath?_of_not_lacksWorkingDirectory hthere
  rw [findProject, hpath] at h
  cases path? with
  | none => cases h
  | some path =>
    simp only [loadProject] at h
    cases hload : ProjectConfig.load t path with
    | error e =>
      rw [hload] at h
      cases h
      exact ⟨⟨path, e, hpath, hload⟩, rfl⟩
    | ok config =>
      rw [hload] at h
      cases h

theorem not_unloadable_of_findProject (h : findProject t r = .ok project) :
    ¬ Unloadable t r := by
  rintro ⟨path, e, hpath, hload⟩
  rw [findProject, hpath] at h
  simp only [loadProject, hload] at h
  cases h

/-- There is no project exactly when there is no configuration. -/
theorem configPath?_eq_none_iff (h : findProject t r = .ok project) :
    configPath? t r = .ok none ↔ project = none := by
  unfold findProject at h
  split at h
  · cases h
  · rename_i hpath
    cases h
    simp [hpath]
  · rename_i path hpath
    cases hload : loadProject t path with
    | error f =>
      rw [hload] at h
      cases h
    | ok loaded =>
      rw [hload] at h
      cases h
      simp [hpath]

/-- The options of a request without a main class and without a project are refused. -/
theorem not_lacksMainClass (h : findProject t r = .ok project)
    (hb : Bundler.ofOptions (r.adjust (baseOptions project)) = .ok b) : ¬ LacksMainClass t r := by
  rintro ⟨hpath, hmain⟩
  rw [(configPath?_eq_none_iff h).mp hpath] at hb
  have hentry : (r.adjust (baseOptions none)).entryPoint = "" := by
    simp [BundleRequest.adjust, hmain, baseOptions, BundleOptions.ofEntryPoint]
  rw [Bundler.ofOptions, hentry] at hb
  simp [Bundler.isEntryPoint, Text.blank] at hb

theorem ofOptions_kind {options : BundleOptions} {e : BundleError}
    (h : Bundler.ofOptions options = .error e) : e.kind = .invalidArgument := by
  cases Bundler.refused_of_ofOptions h with
  | badEntryPoint => rfl
  | badAttribute => rfl
  | badPattern => rfl

section Stages

variable (hproject : findProject t r = .ok project)

include hproject

theorem plan_of_lacksMainClass (h : LacksMainClass t r) : plan t r = .error .noMainClass := by
  obtain ⟨hpath, hmain⟩ := h
  have hnone := (configPath?_eq_none_iff hproject).mp hpath
  simp [plan, hproject, hnone, optionsFor, hmain, bind, Except.bind]

theorem optionsFor_eq (h : ¬ LacksMainClass t r) :
    optionsFor project r = .ok (r.adjust (baseOptions project)) := by
  rw [optionsFor, if_neg]
  intro hnone
  simp only [Bool.and_eq_true, Option.isNone_iff_eq_none] at hnone
  exact h ⟨(configPath?_eq_none_iff hproject).mpr hnone.1, hnone.2⟩

theorem plan_of_rejected (hmain : ¬ LacksMainClass t r) {e : BundleError}
    (h : Bundler.ofOptions (r.adjust (baseOptions project)) = .error e) :
    plan t r = .error (.bundle e) := by
  simp [plan, hproject, optionsFor_eq hproject hmain, h, Except.mapError, bind, Except.bind]

variable (hb : Bundler.ofOptions (r.adjust (baseOptions project)) = .ok b)

include hb

theorem plan_of_lacksInputs (h : inputPaths project r = []) :
    plan t r = .error (.bundle .emptyInput) := by
  have hoptions := optionsFor_eq hproject (not_lacksMainClass hproject hb)
  simp [plan, hproject, hoptions, hb, h, Except.mapError, bind, Except.bind]

theorem plan_of_lacksOutput (hinputs : inputPaths project r ≠ [])
    (h : outputPath? project r = none) : plan t r = .error .noOutput := by
  have hoptions := optionsFor_eq hproject (not_lacksMainClass hproject hb)
  simp [plan, hproject, hoptions, hb, hinputs, h, Except.mapError, bind, Except.bind]

theorem plan_of_selects (hinputs : inputPaths project r ≠ [])
    (h : outputPath? project r = some output) :
    plan t r = .ok ⟨b, (inputPaths project r).map (Source.ofPath t), output⟩ := by
  have hoptions := optionsFor_eq hproject (not_lacksMainClass hproject hb)
  simp [plan, hproject, hoptions, hb, hinputs, h, Except.mapError, bind, Except.bind]

end Stages

/-! ## 4. The code -/

/-- What comes of a bundle, as the code with which the command ends. -/
def endingCode (ending : Except Failure (BundlePlan × BundleReport) × FileTree) : Nat :=
  codeOf (Outcome.failure? ending.1)

theorem bundle_of_plan_error {f : Failure} (h : plan t r = .error f) :
    bundle t processors r = (.error f, t) := by
  rw [bundle, h]

section Run

variable (hproject : findProject t r = .ok project)
  (hb : Bundler.ofOptions (r.adjust (baseOptions project)) = .ok b)
  (houtput : outputPath? project r = some output)

include hproject hb houtput

theorem fails_iff {error : BundleError → Prop} :
    Fails t processors r error ↔
      ∃ e t', b.bundle t processors ((inputPaths project r).map (Source.ofPath t)) output =
        (.error e, t') ∧ error e := by
  constructor
  · rintro ⟨project', b', output', e, t', hproject', hb', houtput', hbundle, he⟩
    rw [hproject] at hproject'
    cases hproject'
    rw [hb] at hb'
    cases hb'
    rw [houtput] at houtput'
    cases houtput'
    exact ⟨e, t', hbundle, he⟩
  · rintro ⟨e, t', hbundle, he⟩
    exact ⟨project, b, output, e, t', hproject, hb, houtput, hbundle, he⟩

/-- With a plan, the code is decided by what comes of the bundle. -/
theorem decidedBy_of_plan (hinputs : inputPaths project r ≠ []) :
    DecidedBy 0
      [(Fails t processors r BundleError.IsInputOutput, 4),
        (Fails t processors r BundleError.IsDuplicate, 5)]
      (endingCode (bundle t processors r)) := by
  have hplan := plan_of_selects hproject hb hinputs houtput
  simp only [fails_iff hproject hb houtput, endingCode, bundle, hplan]
  rcases hbundle : b.bundle t processors ((inputPaths project r).map (Source.ofPath t)) output
    with ⟨e | report, t'⟩
  · show DecidedBy 0 _ (Failure.bundleCode e.kind)
    have hkind := Bundler.bundle_eq_error (by simpa using hinputs) hbundle
    by_cases hio : e.IsInputOutput
    · rw [BundleError.kind_of_isInputOutput hio]
      exact .here ⟨e, t', rfl, hio⟩
    · have hduplicate := hkind.resolve_left hio
      refine .later ?_ ?_
      · rintro ⟨e', t'', heq, he'⟩
        cases heq
        exact hio he'
      · rw [BundleError.kind_of_isDuplicate hduplicate]
        exact .here ⟨e, t', rfl, hduplicate⟩
  · refine .later ?_ (.later ?_ .none)
    · rintro ⟨e, t'', heq, -⟩
      cases heq
    · rintro ⟨e, t'', heq, -⟩
      cases heq

end Run

/-- Without a working directory to look from, the code is 1. -/
theorem endingCode_of_lacksWorkingDirectory (h : LacksWorkingDirectory t r) :
    endingCode (bundle t processors r) = 1 := by
  rw [bundle_of_plan_error (plan_of_lacksWorkingDirectory h)]
  rfl

/-- The code is that of the first stage that stops the command. -/
theorem decidedBy_endingCode (processors : Nat) (hthere : ¬ LacksWorkingDirectory t r) :
    DecidedBy 0
      [(Unloadable t r, 1), (LacksMainClass t r, 1), (Rejected t r, 2), (LacksInputs t r, 3),
        (LacksOutput t r, 1), (Fails t processors r BundleError.IsInputOutput, 4),
        (Fails t processors r BundleError.IsDuplicate, 5)]
      (endingCode (bundle t processors r)) := by
  cases hproject : findProject t r with
  | error f =>
    obtain ⟨hunloadable, hcode⟩ := unloadable_of_findProject hthere hproject
    have hplan : plan t r = .error f := by
      simp [plan, hproject, bind, Except.bind]
    rw [bundle_of_plan_error hplan]
    exact hcode ▸ .here hunloadable
  | ok project =>
    -- each case speaks of the project that has been loaded
    have hsame : ∀ {other}, findProject t r = .ok other → other = project := by
      intro other hother
      rw [hproject] at hother
      exact (Except.ok.inj hother).symm
    refine .later (not_unloadable_of_findProject hproject) ?_
    by_cases hmain : LacksMainClass t r
    · rw [bundle_of_plan_error (plan_of_lacksMainClass hproject hmain)]
      exact .here hmain
    refine .later hmain ?_
    cases hb : Bundler.ofOptions (r.adjust (baseOptions project)) with
    | error e =>
      have hcode : Failure.exitCode (.bundle e) = 2 := by
        rw [Failure.exitCode, ofOptions_kind hb]
        rfl
      rw [bundle_of_plan_error (plan_of_rejected hproject hmain hb)]
      exact hcode ▸ .here ⟨project, e, hproject, hb⟩
    | ok b =>
      refine .later ?_ ?_
      · rintro ⟨other, e, hother, he⟩
        rw [hsame hother, hb] at he
        cases he
      by_cases hinputs : inputPaths project r = []
      · rw [bundle_of_plan_error (plan_of_lacksInputs hproject hb hinputs)]
        exact .here ⟨project, hproject, hinputs⟩
      refine .later ?_ ?_
      · rintro ⟨other, hother, hempty⟩
        exact hinputs (hsame hother ▸ hempty)
      cases houtput : outputPath? project r with
      | none =>
        rw [bundle_of_plan_error (plan_of_lacksOutput hproject hb hinputs houtput)]
        exact .here ⟨project, hproject, houtput⟩
      | some output =>
        refine .later ?_ ?_
        · rintro ⟨other, hother, hnone⟩
          rw [hsame hother, houtput] at hnone
          cases hnone
        · exact decidedBy_of_plan hproject hb houtput hinputs

/-- A plan comes from a project, options that are accepted, inputs and an output. -/
theorem plan_eq_ok {p : BundlePlan} (h : plan t r = .ok p) :
    ∃ project, findProject t r = .ok project ∧
      Bundler.ofOptions (r.adjust (baseOptions project)) = .ok p.bundler ∧
      p.sources = (inputPaths project r).map (Source.ofPath t) ∧
      outputPath? project r = some p.output := by
  cases hproject : findProject t r with
  | error f => simp [plan, hproject, bind, Except.bind] at h
  | ok project =>
    by_cases hmain : LacksMainClass t r
    · simp [plan_of_lacksMainClass hproject hmain] at h
    cases hb : Bundler.ofOptions (r.adjust (baseOptions project)) with
    | error e => simp [plan_of_rejected hproject hmain hb] at h
    | ok b =>
      by_cases hinputs : inputPaths project r = []
      · simp [plan_of_lacksInputs hproject hb hinputs] at h
      cases houtput : outputPath? project r with
      | none => simp [plan_of_lacksOutput hproject hb hinputs houtput] at h
      | some output =>
        rw [plan_of_selects hproject hb hinputs houtput] at h
        cases h
        exact ⟨project, rfl, hb, rfl, houtput⟩

theorem Failure.exitCode_ne_zero (f : Failure) : f.exitCode ≠ 0 := by
  cases f with
  | bundle e =>
    rw [Failure.exitCode]
    cases e.kind <;> simp [Failure.bundleCode]
  | _ => simp [Failure.exitCode]

theorem endingCode_eq_zero_iff_ok :
    endingCode (bundle t processors r) = 0 ↔ ∃ made, (bundle t processors r).1 = .ok made := by
  rw [endingCode, ← Outcome.failure?_eq_none]
  cases Outcome.failure? (bundle t processors r).1 with
  | none => simp [codeOf]
  | some f => simp [codeOf, Failure.exitCode_ne_zero]

/-- The code is 0 exactly when the bytes of the merge have been put at the output. -/
theorem endingCode_eq_zero_iff :
    endingCode (bundle t processors r) = 0 ↔
      ∃ output bytes, Selects t r output ∧ Makes t processors r bytes ∧
        t.putAtomically output bytes = (.ok (), (bundle t processors r).2) ∧
        t.Delivers (bundle t processors r).2 output bytes := by
  rw [endingCode_eq_zero_iff_ok]
  constructor
  · rintro ⟨made, hmade⟩
    unfold bundle at hmade ⊢
    split at hmade
    · cases hmade
    · rename_i p hplan
      obtain ⟨project, hproject, hb, hsources, houtput⟩ := plan_eq_ok hplan
      split at hmade
      · cases hmade
      · rename_i report t' hbundle
        obtain ⟨inputs, merged, bytes, hinputs, hmerged, hbytes, hput, -⟩ :=
          Bundler.bundle_eq_ok hbundle
        rw [hsources] at hinputs
        exact ⟨p.output, bytes, ⟨project, hproject, houtput⟩,
          ⟨project, p.bundler, inputs, merged, hproject, hb, hinputs, hmerged, hbytes⟩, hput,
          FileTree.delivers_of_put hput⟩
  · rintro ⟨output, bytes, ⟨project, hproject, houtput⟩,
      ⟨project', b, inputs, merged, hproject', hb, hinputs, hmerged, hbytes⟩, hput, -⟩
    rw [hproject] at hproject'
    cases hproject'
    -- a merge needs inputs, so there is a plan
    have hne : inputPaths project r ≠ [] := by
      intro hempty
      rw [hempty, Reading.readInputs_eq_readInTurn] at hinputs
      cases hinputs
      cases hmerged
    rw [bundle, plan_of_selects hproject hb hne houtput]
    simp only [Bundler.bundle_of_put hinputs hmerged hbytes hput]
    exact ⟨_, rfl⟩

/-- A command that fails leaves a closed tree as it was, if it has no output with `..`. -/
theorem bundle_unchanged (ht : t.IsClosed)
    (hdots : ∀ output, Selects t r output → ".." ∉ output.parts)
    (hcode : endingCode (bundle t processors r) ≠ 0) : (bundle t processors r).2 = t := by
  unfold bundle at hcode ⊢
  split
  · rfl
  · rename_i p hplan
    obtain ⟨project, hproject, -, -, houtput⟩ := plan_eq_ok hplan
    split
    · rename_i e t' hbundle
      exact Bundler.bundle_unchanged ht (hdots p.output ⟨project, hproject, houtput⟩) hbundle
    · rename_i report t' hbundle
      simp [hplan, hbundle, endingCode, Outcome.failure?, codeOf] at hcode

/-! ## 5. Runs -/

theorem runBundle_eq (t : FileTree) (processors : Nat) (r : BundleRequest) :
    codeOf (runBundle t processors r).failure = endingCode (bundle t processors r) ∧
      (runBundle t processors r).tree = (bundle t processors r).2 := by
  rw [runBundle]
  rcases bundle t processors r with ⟨f | ⟨p, report⟩, t'⟩ <;> exact ⟨rfl, rfl⟩

theorem run_bundle {words : List String} {i : Invocation} (env : Environment) (t : FileTree)
    (hwords : readArguments words = .ok i) (hrequest : i.request = .bundle r) :
    (run env t words).exitCode = endingCode (bundle t env.processors r) ∧
      (run env t words).tree = (bundle t env.processors r).2 := by
  rw [run, hwords]
  simp only [Invocation.run, hrequest, Request.run]
  exact runBundle_eq t env.processors r

/-- **How `bundle` ends.** Where the words ask for a bundle, the code is that of the first of the
cases that applies: the configuration cannot be loaded, there is neither a configuration nor a main
class, the options are refused, there are no inputs, there is no output, an input or the output
fails, two inputs have a file of one name. Only where no configuration is given and the working
directory is no directory of the tree any more, the code is 1 whatever else applies. It is 0 exactly
when the bytes of the merge have been put at the output that was chosen. Any other code leaves a
closed tree as it was, if the output has no `..`. -/
theorem bundle_exitCode {words : List String} {i : Invocation} (env : Environment) (t : FileTree)
    (hwords : readArguments words = .ok i) (hrequest : i.request = .bundle r) :
    let outcome := run env t words
    (¬ LacksWorkingDirectory t r →
      DecidedBy 0
        [(Unloadable t r, 1), (LacksMainClass t r, 1), (Rejected t r, 2), (LacksInputs t r, 3),
          (LacksOutput t r, 1), (Fails t env.processors r BundleError.IsInputOutput, 4),
          (Fails t env.processors r BundleError.IsDuplicate, 5)]
        outcome.exitCode) ∧
    (LacksWorkingDirectory t r → outcome.exitCode = 1) ∧
    (outcome.exitCode = 0 ↔
      ∃ output bytes, Selects t r output ∧ Makes t env.processors r bytes ∧
        t.putAtomically output bytes = (.ok (), outcome.tree) ∧
        t.Delivers outcome.tree output bytes) ∧
    (t.IsClosed → (∀ output, Selects t r output → ".." ∉ output.parts) → outcome.exitCode ≠ 0 →
      outcome.tree = t) := by
  obtain ⟨hcode, htree⟩ := run_bundle env t hwords hrequest
  simp only [hcode, htree]
  exact ⟨decidedBy_endingCode env.processors, endingCode_of_lacksWorkingDirectory,
    endingCode_eq_zero_iff, bundle_unchanged⟩

section OneFile

open Bundler

/-- A request to bundle a directory with one file. -/
def oneFileRequest : BundleRequest where
  inputs := [⟨"d"⟩]
  mainClass := some "A"
  output := some ⟨"a"⟩
  duplicates := none
  exclude := []
  noDefaultExcludes := false
  attributes := []
  jobs := none
  config := none

theorem findProject_oneFileRequest : findProject ownLinkTree oneFileRequest = .ok none := by
  have hwalk : ownLinkTree.walk FileTree.maxLinks [] [Tool.projectFile] = .error .notFound := by
    rw [FileTree.walk]
    rfl
  have hresolve : ownLinkTree.resolve (Project.file ⟨"/"⟩) = .error .notFound := hwalk
  have hroot : Project.findRoot? ownLinkTree ⟨"/"⟩ = none := by
    show List.find? _ [Path.mk "/"] = none
    simp [Project.isRoot, FileTree.pathExists, hresolve]
  have hhere : ownLinkTree.currentDirectory = .ok ⟨"/"⟩ := by decide
  simp [findProject, configPath?, oneFileRequest, hhere, hroot, Except.mapError, bind, Except.bind,
    pure, Except.pure]

/-- The command succeeds from the root, and fails from a directory that has been removed. -/
theorem bundle_exitCode_oneFile :
    let env : Environment := ⟨false, none, none, 1⟩
    let words := ["bundle", "d", "-m", "A", "-o", "a"]
    let removed : FileTree := ⟨[], ["w"]⟩
    ∃ i, readArguments words = .ok i ∧ i.request = .bundle oneFileRequest ∧
      ¬ LacksWorkingDirectory ownLinkTree oneFileRequest ∧
      (run env ownLinkTree words).exitCode = 0 ∧
      LacksWorkingDirectory removed oneFileRequest ∧ (run env removed words).exitCode = 1 := by
  intro env words removed
  have hread : (readArguments words).toOption.map (·.request) = some (.bundle oneFileRequest) := by
    decide +kernel
  obtain ⟨i, hwords, hrequest⟩ := Option.map_eq_some_iff.mp hread
  have hwords := Outcome.eq_ok_of_toOption hwords
  have hremoved : LacksWorkingDirectory removed oneFileRequest := ⟨rfl, by decide⟩
  refine ⟨i, hwords, hrequest, fun hlacks => hlacks.2 rfl, ?_, hremoved,
    (bundle_exitCode env removed hwords hrequest).2.1 hremoved⟩
  obtain ⟨b, merged, bytes, hb, hmerged, hbytes⟩ := exists_bytes_oneFile
  have hproject := findProject_oneFileRequest
  have hinputs : Reading.readInputs ownLinkTree 1 b.options.jobs
      ((inputPaths none oneFileRequest).map (Source.ofPath ownLinkTree)) = .ok [oneFile] := by
    have hsources : (inputPaths none oneFileRequest).map (Source.ofPath ownLinkTree) =
        [⟨.directory, ⟨"d"⟩⟩] := by
      simp [inputPaths, oneFileRequest, Source.ofPath, isDirectory_ownLinkTree]
    rw [hsources, readInputs_ownLinkTree]
  have hput := putAtomically_ownLinkTree bytes
  have htree : (run env ownLinkTree words).tree = ownLinkTree.put ["a"] (.file bytes) := by
    rw [(run_bundle env ownLinkTree hwords hrequest).2, bundle,
      plan_of_selects hproject hb (by decide) rfl]
    simp only [env, bundle_of_put hinputs hmerged hbytes hput]
  refine (bundle_exitCode env ownLinkTree hwords hrequest).2.2.1.mpr
    ⟨⟨"a"⟩, bytes, ⟨none, hproject, rfl⟩,
      ⟨none, b, [oneFile], merged, hproject, hb, hinputs, hmerged, hbytes⟩, ?_⟩
  rw [htree]
  exact ⟨hput, FileTree.delivers_of_put hput⟩

end OneFile

end FatJar.Command
