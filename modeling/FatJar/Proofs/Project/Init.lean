/-
FatJar.Proofs.Project.Init — what starting a project does.

A project is started by creating the directories that are missing for it and writing
its description there. Whether there is a description already is looked up first,
when a directory on the way may still be missing. Where the way goes up from such a
directory by `..`, it may lead to a description that is found only once that
directory has been created, and is then written over (`init_heldTree`). Otherwise
the description is new (`Started`).

Contents:
1. what is there after a project has been started;
2. how a run can go;
3. the description is new;
4. starting a project.
-/
import FatJar.Project.Init
import FatJar.Proofs.FileTree.Creation
import FatJar.Proofs.Project.Root
import FatJar.Proofs.Project.Store

namespace FatJar

/-! ## 1. What is there afterwards -/

/-- What the path names is a link, and it leads nowhere. -/
def FileTree.IsDangling (t : FileTree) (p : Path) : Prop :=
  t.pathExists p = false ∧ ∃ h name slash target, lastStep p = .name name slash ∧
    t.holder maxLinks t.workingDirectory p = .ok h ∧ t.node? (h ++ [name]) = some (.link target)

namespace Project

open FatJar.FileTree

variable {t t' made : FileTree} {dir p : Path} {x : Place} {mainClass : Option String}
  {content : Bytes}

/-- What starting a project in a directory has done to a tree: new directories and the
description, and nothing else. -/
structure Started (t t' : FileTree) (dir : Path) (content : Bytes) (created : List Place)
    (x : Place) : Prop where
  node? : ∀ q, t'.node? q =
    if q = x then some (.file content) else if q ∈ created then some .directory else t.node? q
  workingDirectory : t'.workingDirectory = t.workingDirectory
  /-- The new directories are those that were missing for the project. -/
  fresh : ∀ c ∈ created, t.node? c = none
  leads : ∀ c ∈ created, ∃ q ∈ t.missing dir, t'.resolve q = .ok c
  directories : ∀ q ∈ t.missing dir, t'.isDirectory q = true
  /-- The path of the description leads to it. -/
  file : t'.resolve (file dir) = .ok x
  replaces : t.node? x = none ∨ ∃ old, t.node? x = some (.file old)
  /-- The description is new and in the directory itself, unless a link that leads nowhere stands
  in its place or the way goes up from a directory that is missing. -/
  new : ¬ t.IsDangling (Project.file dir) →
    (∀ q ∈ t.missing dir, q.components.getLast? ≠ some .up) → t.node? x = none ∧
      ∃ h, t'.holder maxLinks t'.workingDirectory (Project.file dir) = .ok h ∧
        x = h ++ [Tool.projectFile]

/-! ## 2. How a run can go -/

/-- The configuration with which a project is started when its directory is there. -/
def starterIn (made : FileTree) (dir : Path) (mainClass : Option String) : ProjectConfig :=
  starter mainClass ((made.resolvedName? dir).getD defaultName)

/-- How starting a project can go, with what it leaves. -/
inductive Runs (t : FileTree) (dir : Path) (mainClass : Option String) :
    Except InitError Path → FileTree → Prop
  | found (hexists : t.pathExists (file dir) = true) :
      Runs t dir mainClass (.error (.alreadyExists dir)) t
  | notCreated {t' : FileTree} {e : FileError}
      (hmake : t.createDirectories dir = (.error e, t')) :
      Runs t dir mainClass (.error (.system e)) t'
  | refused {made : FileTree} {e : ProjectConfig.Error}
      (hmake : t.createDirectories dir = (.ok (), made))
      (hcheck : (starterIn made dir mainClass).validate = .error e) :
      Runs t dir mainClass (.error (.config e)) made
  | notWritten {made : FileTree} {e : ProjectConfig.Error}
      (hmake : t.createDirectories dir = (.ok (), made))
      (hsave : (starterIn made dir mainClass).save made (file dir) = .error e) :
      Runs t dir mainClass (.error (.config e)) made
  | started {made t' : FileTree} (hexists : t.pathExists (file dir) = false)
      (hmake : t.createDirectories dir = (.ok (), made))
      (hvalid : (starterIn made dir mainClass).validate = .ok ())
      (hsave : (starterIn made dir mainClass).save made (file dir) = .ok t') :
      Runs t dir mainClass (.ok (file dir)) t'

theorem runs_of_init {result : Except InitError Path} (h : init t dir mainClass = (result, t')) :
    Runs t dir mainClass result t' := by
  unfold init at h
  simp only at h
  split at h
  · cases h
    exact .found ‹_›
  · rename_i hexists
    split at h
    · rename_i e t₁ hmake
      cases h
      exact .notCreated hmake
    · rename_i made hmake
      split at h
      · rename_i e hwrite
        cases h
        rcases Outcome.bind_eq_error.mp hwrite with hcheck | ⟨-, -, hsave⟩
        · exact .refused hmake hcheck
        · exact .notWritten hmake hsave
      · rename_i t₂ hwrite
        cases h
        obtain ⟨⟨⟩, hvalid, hsave⟩ := Outcome.bind_eq_ok.mp hwrite
        exact .started (by simpa using hexists) hmake hvalid hsave

theorem init_eq_ok (h : init t dir mainClass = (.ok p, t')) :
    p = file dir ∧ t.pathExists (file dir) = false ∧ ∃ made,
      t.createDirectories dir = (.ok (), made) ∧
      (starter mainClass ((made.resolvedName? dir).getD defaultName)).validate = .ok () ∧
      (starter mainClass ((made.resolvedName? dir).getD defaultName)).save made (file dir) =
        .ok t' := by
  cases runs_of_init h with
  | started hexists hmake hvalid hsave => exact ⟨rfl, hexists, _, hmake, hvalid, hsave⟩

/-- The converse of `init_eq_ok`, with the text that is written. -/
theorem init_of_write {name text : String} (hexists : t.pathExists (file dir) = false)
    (hmake : t.createDirectories dir = (.ok (), made))
    (hname : made.resolvedName? dir = some name)
    (hvalid : (starter mainClass name).validate = .ok ())
    (htext : (starter mainClass name).toText = .ok text)
    (hwrite : made.write (file dir) (Text.encode text) = .ok t') :
    init t dir mainClass = (.ok (file dir), t') := by
  have hsave : (starter mainClass name).save made (file dir) = .ok t' := by
    rw [ProjectConfig.save, htext]
    simp only [bind, Except.bind, hwrite]
    rfl
  have hstarter : writeStarter made (file dir) (starter mainClass name) = .ok t' := by
    rw [writeStarter, hvalid]
    exact hsave
  simp [init, hexists, hmake, hname, hstarter]

/-! ## 3. The description is new -/

/-- Where creating the missing directories has led up a ladder, the description is new. -/
theorem new_of_attempt {created : List Place}
    (hattempt : Attempt t dir dir.above (.ok ()) made created)
    (hexists : t.pathExists (file dir) = false) (hdangling : ¬ t.IsDangling (file dir))
    (hwrites : Writes made t' (file dir) content x) :
    made.node? x = none ∧ ∃ h, made.holder maxLinks made.workingDirectory (file dir) = .ok h ∧
      x = h ++ [Tool.projectFile] := by
  obtain ⟨hne, hwritable, -, -, name, h, hlast, hholder, hheld⟩ := hwrites
  obtain rfl : name = Tool.projectFile := by
    rw [lastStep_file] at hlast
    cases hlast
    rfl
  have hnone : made.node? (h ++ [Tool.projectFile]) = none ∨
      made = t ∧ ∀ target, t.node? (h ++ [Tool.projectFile]) ≠ some (.link target) := by
    cases created with
    | nil =>
      obtain rfl := hattempt.same rfl rfl
      refine .inr ⟨rfl, fun target hlink => hdangling ⟨hexists, ?_⟩⟩
      exact ⟨h, Tool.projectFile, false, target, hlast, hholder, hlink⟩
    | cons c rest =>
      -- the innermost of the new directories is the one of the description, and is empty
      obtain ⟨htext, hresolve⟩ := hattempt.resolve_of_created
      rw [resolve_of_holder_file htext hholder] at hresolve
      cases hresolve
      exact .inl (hattempt.empty _ rfl _)
  have hx : x = h ++ [Tool.projectFile] := by
    rcases hheld with hx | ⟨target, hlink⟩
    · exact hx
    · rcases hnone with hnone | ⟨rfl, hnolink⟩
      · rw [hnone] at hlink
        cases hlink
      · exact absurd hlink (hnolink target)
  refine ⟨?_, h, hholder, hx⟩
  rcases hnone with hnone | ⟨rfl, -⟩
  · rw [hx, hnone]
  · rcases hwritable.none_or_file with hnone | ⟨old, hold⟩
    · exact hnone
    · -- a file there would have been found before
      rw [hx] at hold
      have hresolve := resolve_of_holder hlast hholder (by decide) hold (fun _ => nofun) nofun
      rw [pathExists_iff.mpr ⟨_, hresolve⟩] at hexists
      cases hexists

theorem started_of_write (ht : t.IsClosed) (hexists : t.pathExists (file dir) = false)
    (hmake : t.createDirectories dir = (.ok (), made))
    (hwrite : made.write (file dir) content = .ok t') :
    ∃ created x, Started t t' dir content created x := by
  obtain ⟨created, hgrown, hleads⟩ := createFrom_grown hmake
  obtain ⟨x, hwrites⟩ := exists_writes hwrite
  have hne := hwrites.ne_nil
  have hwritable := hwrites.writable
  obtain rfl := hwrites.eq_put
  have hx : made.node? x = t.node? x := by
    rw [hgrown.node?, if_neg]
    intro hmem
    rw [hgrown.node?, if_pos hmem] at hwritable
    exact hwritable
  refine ⟨created, x, fun q => ?_, ?_, hgrown.fresh, fun c hc => ?_, fun q hq => ?_,
    hwrites.resolve, ?_, fun hdangling hup => ?_⟩
  · rw [node?_put hne, hgrown.node?]
  · rw [workingDirectory_put, hgrown.workingDirectory]
  · obtain ⟨q, hq, hresolve⟩ := hleads c hc
    exact ⟨q, hq, resolve_put_writable hne hwritable hresolve⟩
  · have hmem : q ∈ dir.ancestors := List.takeWhile_subset _ hq
    exact isDirectory_of_mem_ancestors hwrites.resolve hmem (text_ne_of_mem_absent hq)
  · exact (hx ▸ hwritable).none_or_file
  · obtain ⟨ladder, hattempt⟩ := createDirectories_attempt ht hup hmake
    obtain ⟨hnew, h, hholder, hplace⟩ := new_of_attempt hattempt hexists hdangling hwrites
    exact ⟨hx ▸ hnew, h, holder_keeps (keeps_put hne hnew _) hholder, hplace⟩

/-- The name of the directory is what it is before the description is written. -/
theorem resolvedName?_of_write (hwrite : made.write (file dir) content = .ok t') :
    t'.resolvedName? dir = made.resolvedName? dir := by
  obtain ⟨x, hne, hwritable, rfl, -, name, h, -, hholder, -⟩ := exists_writes hwrite
  by_cases htext : dir.text = ""
  · have hcheck : checkPath dir = .error .notFound := by
      rw [checkPath, htext]
      simp [Path.hasZero, htext]
    rw [resolvedName?, resolvedName?, resolve, resolve, hcheck]
    rfl
  · have hresolve := resolve_of_holder_file htext hholder
    rw [resolvedName?, resolvedName?, hresolve, resolve_put_writable hne hwritable hresolve]

/-! ## 4. Starting a project -/

/-- **What starting a project does.** Its directory led to no description before. The missing
directories and the description are all that changes, and the description is new, unless a link that
leads nowhere stood in its place or the way goes up from a directory that was missing. It is loaded
as the configuration that has been asked for. The project is found from every directory below, by
its own components, unless there is a description on the way. -/
theorem init_started (ht : t.IsClosed) (h : init t dir mainClass = (.ok p, t')) :
    p = file dir ∧ t.pathExists p = false ∧
    (∃ content created x, Started t t' dir content created x) ∧
    ProjectConfig.load t' p = .ok {
      mainClass := mainClass.getD "com.example.Main"
      output := "build/libs/" ++ (t'.resolvedName? dir).getD "app" ++ ".jar"
      duplicates := .default
      inputs := ["build/classes", "libs"]
      exclude := none
      jobs := none
      manifest := .empty } ∧
    ∀ sub : Path, sub.IsNormal →
      (∀ q ∈ (dir.join sub).ancestors, q.IsBelow dir → isRoot t' q = false) →
      ∃ root, findRoot? t' (dir.join sub) = some root ∧ root.components = dir.components := by
  obtain ⟨rfl, hexists, made, hmake, hvalid, hsave⟩ := init_eq_ok h
  obtain ⟨text, -, hwrite⟩ := ProjectConfig.save_eq_ok hsave
  obtain ⟨created, x, hstarted⟩ := started_of_write ht hexists hmake hwrite
  refine ⟨rfl, hexists, ⟨_, created, x, hstarted⟩, ?_, fun sub hsub hbelow => ?_⟩
  · have hload := ProjectConfig.load_of_save hsave
    rw [hvalid, ← resolvedName?_of_write hwrite] at hload
    exact hload
  · exact findRoot?_join hsub hstarted.file hbelow

/-- A tree with nothing in it. -/
def bareTree : FileTree := ⟨[], []⟩

/-- The text of a new configuration. -/
def starterText (mainClass name : String) : String :=
  "[bundle]\nmain-class = \"" ++ mainClass ++ "\"\noutput = \"build/libs/" ++ name ++
    ".jar\"\nduplicates = \"first-wins\"\ninputs = [\n    \"build/classes\",\n    \"libs\",\n]\n"

/-- The tree in which a project has been started with a description of these bytes. -/
def startedTree (content : Bytes) : FileTree :=
  ⟨[(["p"], .directory), (["p", "jarpack.toml"], .file content)], []⟩

/-- A tree with a directory that is empty. -/
def madeTree : FileTree := ⟨[(["p"], .directory)], []⟩

theorem pathExists_bareTree : bareTree.pathExists (file ⟨"p"⟩) = false := by
  have hfile : ReadsAs (file ⟨"p"⟩) ["p", "jarpack.toml"] := ⟨rfl, rfl, rfl, rfl⟩
  rw [pathExists, hfile.resolve_eq, walk_missing rfl ⟨by decide, by decide⟩ rfl rfl]

theorem createDirectories_bareTree : bareTree.createDirectories ⟨"p"⟩ = (.ok (), madeTree) := by
  have hp : ReadsAs ⟨"p"⟩ ["p"] := ⟨rfl, rfl, rfl, rfl⟩
  have hancestors : Path.ancestors ⟨"p"⟩ = [⟨"p"⟩, ⟨""⟩] := rfl
  have hmake : bareTree.createDirectory ⟨"p"⟩ = .ok madeTree := by
    rw [createDirectory, hp.holder_of_walks .nil rfl]
    rfl
  simp [createDirectories, hancestors, createFrom, hmake]

theorem init_bareTree :
    init bareTree ⟨"p"⟩ (some "App") =
      (.ok ⟨"p/jarpack.toml"⟩, startedTree (Text.encode (starterText "App" "p"))) := by
  have hp : ReadsAs ⟨"p"⟩ ["p"] := ⟨rfl, rfl, rfl, rfl⟩
  have hfile : ReadsAs (file ⟨"p"⟩) (["p"] ++ ["jarpack.toml"]) := ⟨rfl, rfl, rfl, rfl⟩
  have hwalks : Walks madeTree maxLinks [] ["p"] maxLinks ["p"] :=
    .enter rfl ⟨by decide, by decide⟩ rfl rfl (by simp) .nil
  have hname : madeTree.resolvedName? ⟨"p"⟩ = some "p" := by
    rw [resolvedName?, hp.resolve_of_walks hwalks]
    rfl
  have htext : (starter (some "App") "p").toText = .ok (starterText "App" "p") :=
    Outcome.eq_ok_of_toOption (by decide +kernel)
  have hwrite : madeTree.write (file ⟨"p"⟩) (Text.encode (starterText "App" "p")) =
      .ok (madeTree.put ["p", "jarpack.toml"] (.file (Text.encode (starterText "App" "p")))) :=
    hfile.write_of_walks isName_projectFile hwalks rfl rfl trivial
  exact init_of_write pathExists_bareTree createDirectories_bareTree hname rfl htext hwrite

/-- The description is new, and the project is found from a directory that does not exist. -/
theorem init_started_bare :
    bareTree.IsClosed ∧ ∃ t' x root,
      init bareTree ⟨"p"⟩ (some "App") = (.ok ⟨"p/jarpack.toml"⟩, t') ∧
      t'.resolve ⟨"p/jarpack.toml"⟩ = .ok x ∧ bareTree.node? x = none ∧
      findRoot? t' ⟨"p/b/c"⟩ = some root ∧ root.components = [.name "p"] := by
  have hclosed : bareTree.IsClosed := by decide
  obtain ⟨-, -, ⟨content, created, x, hstarted⟩, -, hfound⟩ := init_started hclosed init_bareTree
  have hp : ReadsAs ⟨"p"⟩ ["p"] := ⟨rfl, rfl, rfl, rfl⟩
  have hdangling : ¬ bareTree.IsDangling (file ⟨"p"⟩) := by
    rintro ⟨-, h, name, slash, target, -, -, hlink⟩
    have hnone : bareTree.node? (h ++ [name]) = none :=
      (node?_eq_none_iff (by simp)).mpr (List.forall_mem_nil _)
    rw [hnone] at hlink
    cases hlink
  have hmissing : bareTree.missing ⟨"p"⟩ = [⟨"p"⟩] := by
    have hancestors : Path.ancestors ⟨"p"⟩ = [⟨"p"⟩, ⟨""⟩] := rfl
    have hnone : bareTree.resolve ⟨"p"⟩ = .error .notFound := by
      rw [hp.resolve_eq, walk_missing rfl ⟨by decide, by decide⟩ rfl rfl]
    simp [missing, hancestors, pathExists, hnone]
  have hup : ∀ q ∈ bareTree.missing ⟨"p"⟩, q.components.getLast? ≠ some .up := by
    rw [hmissing, List.forall_mem_singleton]
    decide
  have hbelow : ∀ q ∈ Path.ancestors ⟨"p/b/c"⟩, q.IsBelow ⟨"p"⟩ →
      isRoot (startedTree (Text.encode (starterText "App" "p"))) q = false := by
    generalize Text.encode (starterText "App" "p") = bytes
    have hc : ReadsAs (file ⟨"p/b/c"⟩) ["p", "b", "c", "jarpack.toml"] := ⟨rfl, rfl, rfl, rfl⟩
    have hb : ReadsAs (file ⟨"p/b"⟩) ["p", "b", "jarpack.toml"] := ⟨rfl, rfl, rfl, rfl⟩
    have hancestors : Path.ancestors ⟨"p/b/c"⟩ = [⟨"p/b/c"⟩, ⟨"p/b"⟩, ⟨"p"⟩, ⟨""⟩] := rfl
    have hnone : ∀ rest, (startedTree bytes).walk maxLinks (startedTree bytes).workingDirectory
        ("p" :: "b" :: rest) = .error .notFound := by
      intro rest
      rw [walk_enter rfl ⟨by decide, by decide⟩ rfl rfl (by simp),
        walk_missing rfl ⟨by decide, by decide⟩ rfl rfl]
    rw [hancestors]
    refine List.forall_mem_cons.mpr ⟨fun _ => ?_, List.forall_mem_cons.mpr ⟨fun _ => ?_, ?_⟩⟩
    · rw [isRoot, pathExists, hc.resolve_eq, hnone]
    · rw [isRoot, pathExists, hb.resolve_eq, hnone]
    · simp only [List.mem_cons, List.not_mem_nil, or_false, forall_eq_or_imp, forall_eq]
      exact ⟨fun h => absurd rfl h.2, fun h => absurd h.1 (by decide)⟩
  obtain ⟨root, hroot, hcomponents⟩ := hfound ⟨"b/c"⟩ (by decide) hbelow
  exact ⟨hclosed, _, x, root, init_bareTree, hstarted.file, (hstarted.new hdangling hup).1, hroot,
    hcomponents⟩

/-- A directory with a description in it, whatever it says. -/
def heldTree : FileTree := ⟨[(["d"], .directory), (["d", "jarpack.toml"], .file [0x31])], []⟩

/-- The description is written over when the way goes up from a directory that is missing. -/
theorem init_heldTree :
    heldTree.IsClosed ∧ ¬ heldTree.IsDangling (file ⟨"n/../d"⟩) ∧ ∃ t' content,
      init heldTree ⟨"n/../d"⟩ none = (.ok ⟨"n/../d/jarpack.toml"⟩, t') ∧
      t'.resolve ⟨"n/../d/jarpack.toml"⟩ = .ok ["d", "jarpack.toml"] ∧
      heldTree.node? ["d", "jarpack.toml"] = some (.file [0x31]) ∧
      t'.node? ["d", "jarpack.toml"] = some (.file content) ∧ content ≠ [0x31] := by
  have hdown : ReadsAs ⟨"n/../d"⟩ ["n", "..", "d"] := ⟨rfl, rfl, rfl, rfl⟩
  have hfile : ReadsAs (file ⟨"n/../d"⟩) (["n", "..", "d"] ++ ["jarpack.toml"]) :=
    ⟨rfl, rfl, rfl, rfl⟩
  have hexists : heldTree.pathExists (file ⟨"n/../d"⟩) = false := by
    rw [pathExists, hfile.resolve_eq, List.cons_append,
      walk_missing rfl ⟨by decide, by decide⟩ rfl rfl]
  have hdangling : ¬ heldTree.IsDangling (file ⟨"n/../d"⟩) := by
    rintro ⟨-, h, name, slash, target, -, hholder, -⟩
    rw [hfile.holder_eq, List.dropLast_concat, walk_missing rfl ⟨by decide, by decide⟩ rfl rfl]
      at hholder
    cases hholder
  have hcreate := createDirectories_throughMissing (t := heldTree) rfl rfl rfl
  have hwalks : Walks (heldTree.put ["n"] .directory) maxLinks [] ["n", "..", "d"] maxLinks
      ["d"] :=
    .enter rfl ⟨by decide, by decide⟩ rfl rfl (by simp)
      (.up rfl (.enter rfl ⟨by decide, by decide⟩ rfl rfl (by simp) .nil))
  have hname : (heldTree.put ["n"] .directory).resolvedName? ⟨"n/../d"⟩ = some "d" := by
    rw [resolvedName?, hdown.resolve_of_walks hwalks]
    rfl
  have htext : (starter none "d").toText = .ok (starterText "com.example.Main" "d") :=
    Outcome.eq_ok_of_toOption (by decide +kernel)
  have hwrite : ∀ content, (heldTree.put ["n"] .directory).write (file ⟨"n/../d"⟩) content =
      .ok ((heldTree.put ["n"] .directory).put ["d", "jarpack.toml"] (.file content)) :=
    fun content => hfile.write_of_walks isName_projectFile hwalks rfl rfl trivial
  have hresolve : ∀ content, FileTree.resolve
      ((heldTree.put ["n"] .directory).put ["d", "jarpack.toml"] (.file content))
      (file ⟨"n/../d"⟩) = .ok ["d", "jarpack.toml"] := by
    intro content
    exact hfile.resolve_of_walks (.enter rfl ⟨by decide, by decide⟩ rfl rfl (by simp)
      (.up rfl (.enter rfl ⟨by decide, by decide⟩ rfl rfl (by simp)
        (.enter rfl ⟨by decide, by decide⟩ rfl rfl (by simp) .nil))))
  have hinit := init_of_write hexists hcreate hname rfl htext (hwrite _)
  exact ⟨by decide, hdangling, _, _, hinit, hresolve _, rfl, rfl, by decide +kernel⟩

end Project

end FatJar
