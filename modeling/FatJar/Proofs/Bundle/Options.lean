/-
FatJar.Proofs.Bundle.Options — which options a bundler accepts, and the manifest it
makes of them.

Options are checked in their order: the entry point, then the attributes, then the
patterns. Each attribute is looked at by itself, whatever has been set before it, so
the first fault can be told from the options alone (`Refused`). The manifest of a
bundler starts with the three attributes that the tool sets itself. None of the
others has one of their names, so these follow as if they had been set in an empty
manifest (`Settles`).

Contents:
1. entry points and attributes;
2. adding attributes;
3. patterns;
4. options;
5. the manifest of a bundler, read back;
6. attributes from the command line.
-/
import FatJar.Command.Bundle
import FatJar.Proofs.Manifest.RoundTrip
import FatJar.Proofs.Manifest.Setting
import Mathlib.Data.List.Forall2
import Mathlib.Data.List.TakeWhile

namespace FatJar

open Outcome

/-! ## 1. Entry points and attributes -/

/-- No line break and no NUL. -/
structure OneLine (s : String) : Prop where
  noReturn : '\r' ∉ s.toList
  noLineFeed : '\n' ∉ s.toList
  noZero : '\x00' ∉ s.toList

/-- A text of one line that is not empty and has no white space at its ends. -/
structure IsEntryPoint (s : String) : Prop where
  ne_empty : s ≠ ""
  trimmed : Text.trim s = s
  oneLine : OneLine s

/-- An attribute that may be added: its name is valid and, in any case, none of those that the tool
sets itself, and its value has one line. -/
structure IsExtra (a : Attribute) : Prop where
  unmanaged : Manifest.isManaged a.name = false
  name : Manifest.isName a.name = true
  value : OneLine a.value

/-- What is wrong with an attribute. The name that the tool keeps for itself comes first, then the
name that is not valid, and the value last. -/
inductive IsFault (a : Attribute) : Manifest.Error → Prop
  | managed (hmanaged : Manifest.isManaged a.name = true) : IsFault a (.managed a.name)
  | name (hmanaged : Manifest.isManaged a.name = false) (hname : Manifest.isName a.name = false) :
      IsFault a (.invalidName a.name)
  | value (hmanaged : Manifest.isManaged a.name = false) (hname : Manifest.isName a.name = true)
      (hvalue : ¬ OneLine a.value) : IsFault a (.invalidValue a.name)

theorem isValue_iff {s : String} : Manifest.isValue s = true ↔ OneLine s := by
  constructor
  · intro h
    exact ⟨Manifest.not_mem_of_isValue h (by decide), Manifest.not_mem_of_isValue h (by decide),
      Manifest.not_mem_of_isValue h (by decide)⟩
  · rintro ⟨hreturn, hfeed, hzero⟩
    simp only [Manifest.isValue, Bool.not_eq_true', List.any_eq_false, Manifest.isForbidden]
    grind

theorem trim_of_blank {s : String} (h : Text.blank s = true) : Text.trim s = "" := by
  have hdrop : s.toList.dropWhile Text.isBlank = [] := by
    rw [List.dropWhile_eq_nil_iff]
    exact List.all_eq_true.mp h
  rw [Text.trim, hdrop]
  rfl

theorem isEntryPoint_iff {s : String} : Bundler.isEntryPoint s = true ↔ IsEntryPoint s := by
  have hvalue : s.toList.any Manifest.isForbidden = !Manifest.isValue s := by
    simp [Manifest.isValue]
  simp only [Bundler.isEntryPoint, hvalue, Bool.not_eq_true', Bool.or_eq_false_iff,
    bne_eq_false_iff_eq, Bool.not_eq_false', isValue_iff]
  constructor
  · rintro ⟨⟨hblank, htrim⟩, hline⟩
    refine ⟨?_, htrim, hline⟩
    rintro rfl
    cases hblank
  · rintro ⟨hne, htrim, hline⟩
    refine ⟨⟨Bool.eq_false_iff.mpr fun hblank => hne ?_, htrim⟩, hline⟩
    rw [← htrim, trim_of_blank hblank]

/-- Every attribute may be added or has a fault. -/
theorem isExtra_or_isFault (a : Attribute) : IsExtra a ∨ ∃ e, IsFault a e := by
  cases hmanaged : Manifest.isManaged a.name with
  | true => exact .inr ⟨_, .managed hmanaged⟩
  | false =>
    cases hname : Manifest.isName a.name with
    | false => exact .inr ⟨_, .name hmanaged hname⟩
    | true =>
      by_cases hvalue : OneLine a.value
      · exact .inl ⟨hmanaged, hname, hvalue⟩
      · exact .inr ⟨_, .value hmanaged hname hvalue⟩

/-! ## 2. Adding attributes -/

namespace Bundler

variable {m m' : Manifest} {a : Attribute} {attributes : List Attribute} {e : Manifest.Error}

theorem addAttributes_cons_of_isExtra (ha : IsExtra a) :
    addAttributes m (a :: attributes) =
      addAttributes ⟨Manifest.put a.name a.value m.attributes⟩ attributes := by
  have hset : m.set a.name a.value = .ok ⟨Manifest.put a.name a.value m.attributes⟩ :=
    Manifest.set_eq_ok_iff.mpr ⟨ha.name, isValue_iff.mpr ha.value, rfl⟩
  rw [addAttributes, if_neg (by simp [ha.unmanaged]), hset]
  rfl

theorem addAttributes_cons_of_isFault (ha : IsFault a e) :
    addAttributes m (a :: attributes) = .error e := by
  rw [addAttributes]
  cases ha with
  | managed hmanaged => rw [if_pos hmanaged]
  | name hmanaged hname =>
    rw [if_neg (by simp [hmanaged]), Manifest.set, if_pos (by simp [hname])]
    rfl
  | value hmanaged hname hvalue =>
    have hvalue' : Manifest.isValue a.value = false :=
      Bool.eq_false_iff.mpr fun h => hvalue (isValue_iff.mp h)
    rw [if_neg (by simp [hmanaged]), Manifest.set, if_neg (by simp [hname]),
      if_pos (by simp [hvalue'])]
    rfl

/-- Attributes that may all be added are set one after the other. -/
theorem addAttributes_of_forall (h : ∀ a ∈ attributes, IsExtra a) :
    addAttributes m attributes = .ok ⟨Manifest.settle m.attributes attributes⟩ := by
  induction attributes generalizing m with
  | nil => rfl
  | cons a rest ih =>
    rw [addAttributes_cons_of_isExtra (h a List.mem_cons_self),
      ih fun b hb => h b (List.mem_cons_of_mem a hb)]
    rfl

/-- The first attribute that has a fault decides. -/
theorem addAttributes_of_append {before after : List Attribute}
    (hbefore : ∀ a ∈ before, IsExtra a) (ha : IsFault a e) :
    addAttributes m (before ++ a :: after) = .error e := by
  induction before generalizing m with
  | nil => exact addAttributes_cons_of_isFault ha
  | cons first rest ih =>
    rw [List.cons_append, addAttributes_cons_of_isExtra (hbefore first List.mem_cons_self)]
    exact ih fun b hb => hbefore b (List.mem_cons_of_mem first hb)

end Bundler

/-- The attributes that the tool sets itself. -/
def managedAttributes (entryPoint : String) : List Attribute :=
  [⟨"Manifest-Version", "1.0"⟩, ⟨"Main-Class", entryPoint⟩, ⟨"Created-By", "jarpack 0.2.0"⟩]

theorem executable_eq {entryPoint : String} (h : OneLine entryPoint) :
    Manifest.executable entryPoint = .ok ⟨managedAttributes entryPoint⟩ := by
  have hnew : Text.sameIgnoringCase "Main-Class" "Created-By" = false := by decide
  have hsignature : Tool.signature = "jarpack 0.2.0" := by decide
  have hversion : Manifest.empty.set Manifest.versionName "1.0" =
      .ok ⟨[⟨"Manifest-Version", "1.0"⟩]⟩ :=
    Manifest.set_new (by decide) (by decide) nofun
  have hclass : Manifest.set ⟨[⟨"Manifest-Version", "1.0"⟩]⟩ Manifest.mainClassName entryPoint =
      .ok ⟨[⟨"Manifest-Version", "1.0"⟩, ⟨"Main-Class", entryPoint⟩]⟩ :=
    Manifest.set_new (by decide) (isValue_iff.mpr h) (by decide)
  have hcreator : Manifest.set ⟨[⟨"Manifest-Version", "1.0"⟩, ⟨"Main-Class", entryPoint⟩]⟩
      Manifest.creatorName Tool.signature = .ok ⟨managedAttributes entryPoint⟩ := by
    rw [hsignature]
    exact Manifest.set_new (by decide) (by decide)
      (List.forall_mem_cons.mpr ⟨by decide, List.forall_mem_singleton.mpr hnew⟩)
  exact bind_eq_ok.mpr ⟨_, hversion, bind_eq_ok.mpr ⟨_, hclass, hcreator⟩⟩

/-- An attribute that may be added has the name of none that the tool sets itself. -/
theorem sameIgnoringCase_managed {entryPoint : String} {a x : Attribute}
    (ha : Manifest.isManaged a.name = false) (hx : x ∈ managedAttributes entryPoint) :
    Text.sameIgnoringCase x.name a.name = false := by
  have hname : x.name ∈ Manifest.managedNames := by
    simp only [managedAttributes, List.mem_cons, List.not_mem_nil, or_false] at hx
    rcases hx with rfl | rfl | rfl <;> simp [Manifest.managedNames, Manifest.versionName,
      Manifest.mainClassName, Manifest.creatorName]
  simpa using List.any_eq_false.mp ha x.name hname

/-! ## 3. Patterns -/

/-- The text is read as the pattern. -/
def Compiles (text : String) (pattern : Glob.Pattern) : Prop :=
  Glob.Pattern.compile text = .ok pattern

theorem exists_forall₂_compiles {texts : List String} (h : ∀ text ∈ texts, ∃ p, Compiles text p) :
    ∃ patterns, List.Forall₂ Compiles texts patterns := by
  induction texts with
  | nil => exact ⟨[], .nil⟩
  | cons text rest ih =>
    obtain ⟨p, hp⟩ := h text List.mem_cons_self
    obtain ⟨patterns, hpatterns⟩ :=
      ih fun other hother => h other (List.mem_cons_of_mem text hother)
    exact ⟨p :: patterns, .cons hp hpatterns⟩

namespace Bundler

theorem compileAll_cons {text : String} {rest : List String} {p : Glob.Pattern}
    (hp : Compiles text p) :
    compileAll (text :: rest) = (compileAll rest).map (p :: ·) := by
  have hcompile : Glob.Pattern.compile text = .ok p := hp
  rw [compileAll, hcompile]
  cases compileAll rest <;> rfl

theorem compileAll_of_forall₂ {texts : List String} {patterns : List Glob.Pattern}
    (h : List.Forall₂ Compiles texts patterns) : compileAll texts = .ok patterns := by
  induction h with
  | nil => rfl
  | cons hp _ ih =>
    rw [compileAll_cons hp, ih]
    rfl

/-- The first pattern that is faulty decides. -/
theorem compileAll_of_append {before after : List String} {text : String}
    {e : Glob.Error} (hbefore : ∀ other ∈ before, ∃ p, Compiles other p)
    (he : Glob.Pattern.compile text = .error e) :
    compileAll (before ++ text :: after) = .error (.invalidPattern text e) := by
  induction before with
  | nil => rw [List.nil_append, compileAll, he]
  | cons first rest ih =>
    obtain ⟨p, hp⟩ := hbefore first List.mem_cons_self
    rw [List.cons_append, compileAll_cons hp,
      ih fun other hother => hbefore other (List.mem_cons_of_mem first hother)]
    rfl

end Bundler

/-! ## 4. Options -/

/-- The options are in order. -/
structure Accepted (options : BundleOptions) : Prop where
  entryPoint : IsEntryPoint options.entryPoint
  attributes : ∀ a ∈ options.attributes, IsExtra a
  exclude : ∀ text ∈ options.exclude, ∃ pattern, Compiles text pattern

/-- The first thing that is wrong with options: the entry point, or else the first attribute that
has a fault, or else the first pattern that cannot be read. -/
inductive Refused (options : BundleOptions) : BundleError → Prop
  | badEntryPoint (hentry : ¬ IsEntryPoint options.entryPoint) :
      Refused options (.invalidEntryPoint options.entryPoint)
  | badAttribute {before after : List Attribute} {a : Attribute} {e : Manifest.Error}
      (hentry : IsEntryPoint options.entryPoint)
      (hattributes : options.attributes = before ++ a :: after)
      (hbefore : ∀ x ∈ before, IsExtra x) (ha : IsFault a e) : Refused options (.manifest e)
  | badPattern {before after : List String} {text : String} {e : Glob.Error}
      (hentry : IsEntryPoint options.entryPoint)
      (hattributes : ∀ a ∈ options.attributes, IsExtra a)
      (hexclude : options.exclude = before ++ text :: after)
      (hbefore : ∀ x ∈ before, ∃ pattern, Compiles x pattern)
      (he : Glob.Pattern.compile text = .error e) : Refused options (.invalidPattern text e)

/-- What a bundler is made of: the options, the patterns that are read from them, and a manifest of
the attributes that the tool sets itself and, after them, what the others leave. -/
structure Made (options : BundleOptions) (b : Bundler) : Prop where
  options_eq : b.options = options
  excludes : List.Forall₂ Compiles options.exclude b.excludes
  manifest : ∃ extras, b.manifest.attributes = managedAttributes options.entryPoint ++ extras ∧
    Manifest.Settles options.attributes extras ∧ ∀ a ∈ extras, IsExtra a

/-- All of a list are in order, or there is a first that is not. -/
theorem forall_or_first {α : Type} (P : α → Prop) (xs : List α) :
    (∀ x ∈ xs, P x) ∨
      ∃ before x after, xs = before ++ x :: after ∧ (∀ y ∈ before, P y) ∧ ¬ P x := by
  induction xs with
  | nil => exact .inl nofun
  | cons x rest ih =>
    by_cases hx : P x
    · rcases ih with hall | ⟨before, y, after, rfl, hbefore, hy⟩
      · exact .inl (List.forall_mem_cons.mpr ⟨hx, hall⟩)
      · exact .inr ⟨x :: before, y, after, rfl, List.forall_mem_cons.mpr ⟨hx, hbefore⟩, hy⟩
    · exact .inr ⟨[], x, rest, rfl, nofun, hx⟩

/-- Options are in order, or there is a first thing that is wrong with them. -/
theorem accepted_or_refused (options : BundleOptions) :
    Accepted options ∨ ∃ e, Refused options e := by
  by_cases hentry : IsEntryPoint options.entryPoint
  · rcases forall_or_first IsExtra options.attributes with
      hattributes | ⟨before, a, after, hsplit, hbefore, ha⟩
    · rcases forall_or_first (fun text => ∃ pattern, Compiles text pattern) options.exclude with
        hexclude | ⟨before, text, after, hsplit, hbefore, htext⟩
      · exact .inl ⟨hentry, hattributes, hexclude⟩
      · cases he : Glob.Pattern.compile text with
        | ok pattern => exact absurd ⟨pattern, he⟩ htext
        | error e => exact .inr ⟨_, .badPattern hentry hattributes hsplit hbefore he⟩
    · obtain ⟨e, he⟩ := (isExtra_or_isFault a).resolve_left ha
      exact .inr ⟨_, .badAttribute hentry hsplit hbefore he⟩
  · exact .inr ⟨_, .badEntryPoint hentry⟩

namespace Bundler

variable {options : BundleOptions} {b : Bundler}

theorem ofOptions_of_isEntryPoint (hentry : IsEntryPoint options.entryPoint) :
    ofOptions options = do
      let manifest ← (addAttributes ⟨managedAttributes options.entryPoint⟩
        options.attributes).mapError BundleError.manifest
      let excludes ← compileAll options.exclude
      return { options, excludes, manifest } := by
  rw [ofOptions, if_neg (by simp [isEntryPoint_iff.mpr hentry]), manifestOf,
    executable_eq hentry.oneLine]
  rfl

theorem ofOptions_of_refused {e : BundleError} (h : Refused options e) :
    ofOptions options = .error e := by
  cases h with
  | badEntryPoint hentry =>
    have hfalse : isEntryPoint options.entryPoint = false :=
      Bool.eq_false_iff.mpr fun h => hentry (isEntryPoint_iff.mp h)
    rw [ofOptions, if_pos (by simp [hfalse])]
  | badAttribute hentry hattributes hbefore ha =>
    rw [ofOptions_of_isEntryPoint hentry, hattributes, addAttributes_of_append hbefore ha]
    rfl
  | badPattern hentry hattributes hexclude hbefore he =>
    rw [ofOptions_of_isEntryPoint hentry, addAttributes_of_forall hattributes, hexclude,
      compileAll_of_append hbefore he]
    rfl

/-- The bundler of options that are in order. -/
theorem ofOptions_of_accepted (h : Accepted options) :
    ∃ b, ofOptions options = .ok b ∧ List.Forall₂ Compiles options.exclude b.excludes ∧
      b.options = options ∧ b.manifest.attributes =
        Manifest.settle (managedAttributes options.entryPoint) options.attributes := by
  obtain ⟨patterns, hpatterns⟩ := exists_forall₂_compiles h.exclude
  refine ⟨⟨options, patterns, ⟨_⟩⟩, ?_, hpatterns, rfl, rfl⟩
  rw [ofOptions_of_isEntryPoint h.entryPoint, addAttributes_of_forall h.attributes,
    compileAll_of_forall₂ hpatterns]
  rfl

theorem accepted_of_ofOptions (h : ofOptions options = .ok b) : Accepted options := by
  rcases accepted_or_refused options with haccepted | ⟨e, hrefused⟩
  · exact haccepted
  · rw [ofOptions_of_refused hrefused] at h
    cases h

theorem refused_of_ofOptions {e : BundleError} (h : ofOptions options = .error e) :
    Refused options e := by
  rcases accepted_or_refused options with haccepted | ⟨e', hrefused⟩
  · obtain ⟨b, hb, -⟩ := ofOptions_of_accepted haccepted
    rw [hb] at h
    cases h
  · rw [ofOptions_of_refused hrefused] at h
    cases h
    exact hrefused

theorem made_of_ofOptions (h : ofOptions options = .ok b) : Made options b := by
  have haccepted := accepted_of_ofOptions h
  obtain ⟨b', hb', hexcludes, hoptions, hmanifest⟩ := ofOptions_of_accepted haccepted
  rw [h] at hb'
  cases hb'
  refine ⟨hoptions, hexcludes, Manifest.settle [] options.attributes, ?_,
    Manifest.settles_settle options.attributes, ?_⟩
  · rw [hmanifest, ← List.append_nil (managedAttributes options.entryPoint)]
    refine Manifest.settle_append (fun a ha x hx => ?_) []
    exact sameIgnoringCase_managed (haccepted.attributes a ha).unmanaged hx
  · intro a ha
    obtain ⟨⟨hunmanaged, hname⟩, hvalue⟩ := Manifest.forall_settle
      (N := fun name => Manifest.isManaged name = false ∧ Manifest.isName name = true)
      (V := OneLine)
      (fun a ha => ⟨⟨(haccepted.attributes a ha).unmanaged, (haccepted.attributes a ha).name⟩,
        (haccepted.attributes a ha).value⟩) (fun a ha => absurd ha List.not_mem_nil) a ha
    exact ⟨hunmanaged, hname, hvalue⟩

/-! ## 5. The manifest, read back -/

theorem isSound_of_ofOptions (h : ofOptions options = .ok b) : b.manifest.IsSound := by
  obtain ⟨extras, hattributes, -, hextras⟩ := (made_of_ofOptions h).manifest
  have hentry := (accepted_of_ofOptions h).entryPoint
  have hname : Manifest.isName "Main-Class" = true := by decide
  intro a ha
  rw [hattributes] at ha
  rcases List.mem_append.mp ha with ha | ha
  · simp only [managedAttributes, List.mem_cons, List.not_mem_nil, or_false] at ha
    rcases ha with rfl | rfl | rfl
    · decide
    · exact ⟨hname, hentry.oneLine.noLineFeed⟩
    · decide
  · exact ⟨(hextras a ha).name, (hextras a ha).value.noLineFeed⟩

/-- The manifest of a bundler is read back from its bytes, and names the entry point. -/
theorem manifest_of_ofOptions (h : ofOptions options = .ok b) :
    Manifest.ofBytes b.manifest.toBytes = .ok b.manifest ∧
      b.manifest.mainClass? = some options.entryPoint := by
  obtain ⟨extras, hattributes, -, -⟩ := (made_of_ofOptions h).manifest
  have hversion : Text.sameIgnoringCase "Manifest-Version" Manifest.mainClassName = false := by
    decide
  have hclass : Text.sameIgnoringCase "Main-Class" Manifest.mainClassName = true := by decide
  refine ⟨Manifest.ofBytes_toBytes (isSound_of_ofOptions h), ?_⟩
  simp [Manifest.mainClass?, Manifest.get?, hattributes, managedAttributes, hversion, hclass]

/-! ## 6. The command line -/

/-- Attributes from the command line are set after those of the project: what was there stays in
its place, and the last of them of a name gives the value. -/
theorem ofOptions_adjust {r : Command.BundleRequest} (h : ofOptions (r.adjust options) = .ok b) :
    ∃ b₀, ofOptions { r.adjust options with attributes := options.attributes } = .ok b₀ ∧
      b₀.manifest.attributes.map (·.name) <+: b.manifest.attributes.map (·.name) ∧
      ∀ name, b.manifest.get? name =
        ((Manifest.settingsOf name r.attributes).getLast?.map (·.value)).or
          (b₀.manifest.get? name) := by
  have haccepted := accepted_of_ofOptions h
  have haccepted₀ : Accepted { r.adjust options with attributes := options.attributes } :=
    ⟨haccepted.entryPoint, fun a ha => haccepted.attributes a (List.mem_append_left _ ha),
      haccepted.exclude⟩
  obtain ⟨b', hb', -, -, hmanifest⟩ := ofOptions_of_accepted haccepted
  rw [h] at hb'
  cases hb'
  obtain ⟨b₀, hb₀, -, -, hmanifest₀⟩ := ofOptions_of_accepted haccepted₀
  have hsettled : b.manifest =
      ⟨Manifest.settle b₀.manifest.attributes r.attributes⟩ := by
    rw [hmanifest₀, Manifest.settle, Manifest.settle, ← List.foldl_append]
    exact congrArg Manifest.mk hmanifest
  refine ⟨b₀, hb₀, ?_, fun name => ?_⟩
  · rw [hsettled]
    exact Manifest.names_prefix_settle _ _
  · rw [hsettled]
    exact Manifest.get?_settle name _ _

/-- **Which options a bundler accepts.** They are accepted exactly when they are in order, and
otherwise the first thing that is wrong with them is the error. The manifest is then made of the
three attributes that the tool sets itself and of what the others leave, so that none of them
changes one of the three. Attributes that come from the command line take the places of those that
the project has set. -/
theorem ofOptions_checks (options : BundleOptions) :
    ((∃ b, ofOptions options = .ok b) ↔ Accepted options) ∧
    (∀ e, ofOptions options = .error e ↔ Refused options e) ∧
    (∀ b, ofOptions options = .ok b → Made options b) ∧
    (∀ (r : Command.BundleRequest) (b : Bundler), ofOptions (r.adjust options) = .ok b →
      ∃ b₀, ofOptions { r.adjust options with attributes := options.attributes } = .ok b₀ ∧
        b₀.manifest.attributes.map (·.name) <+: b.manifest.attributes.map (·.name) ∧
        ∀ name, b.manifest.get? name =
          ((Manifest.settingsOf name r.attributes).getLast?.map (·.value)).or
            (b₀.manifest.get? name)) := by
  refine ⟨⟨?_, ?_⟩, fun e => ⟨refused_of_ofOptions, ofOptions_of_refused⟩,
    fun b => made_of_ofOptions, fun r b => ofOptions_adjust⟩
  · rintro ⟨b, hb⟩
    exact accepted_of_ofOptions hb
  · intro haccepted
    obtain ⟨b, hb, -⟩ := ofOptions_of_accepted haccepted
    exact ⟨b, hb⟩

/-- The options of a project with two attributes. -/
def projectOptions : BundleOptions :=
  ⟨"App", .firstWins, ["*.txt"], [⟨"X-Level", "1"⟩, ⟨"Title", "t"⟩], 1⟩

/-- A request that gives one of these attributes another value. -/
def levelRequest : Command.BundleRequest :=
  ⟨[], none, none, none, [], false, [⟨"x-level", "2"⟩, ⟨"X-LEVEL", "3"⟩], none, none⟩

/-- The attribute takes the last value that is given, and of two faulty attributes the first is
reported. -/
theorem ofOptions_checks_level :
    (∃ b, ofOptions (levelRequest.adjust projectOptions) = .ok b ∧
      Made (levelRequest.adjust projectOptions) b ∧ b.manifest.get? "X-Level" = some "3") ∧
    ofOptions { projectOptions with attributes := [⟨"T", ""⟩, ⟨"main-class", "B"⟩, ⟨"", "\n"⟩] } =
      .error (.manifest (.managed "main-class")) := by
  have hentry : IsEntryPoint "App" := isEntryPoint_iff.mp (by decide)
  have hextra : ∀ a ∈ (levelRequest.adjust projectOptions).attributes, IsExtra a := by
    have hchecked : ∀ a ∈ (levelRequest.adjust projectOptions).attributes,
        Manifest.isManaged a.name = false ∧ Manifest.isName a.name = true ∧
          Manifest.isValue a.value = true := by decide
    exact fun a ha => ⟨(hchecked a ha).1, (hchecked a ha).2.1, isValue_iff.mp (hchecked a ha).2.2⟩
  have hcompiles : Compiles "*.txt" ⟨[.anySequence, .literal '.', .literal 't', .literal 'x',
      .literal 't']⟩ := eq_ok_of_toOption (by decide +kernel)
  have haccepted : Accepted (levelRequest.adjust projectOptions) :=
    ⟨hentry, hextra, List.forall_mem_singleton.mpr ⟨_, hcompiles⟩⟩
  constructor
  · obtain ⟨b, hb⟩ := (ofOptions_checks _).1.mpr haccepted
    obtain ⟨b₀, -, -, hvalues⟩ := (ofOptions_checks projectOptions).2.2.2 levelRequest b hb
    refine ⟨b, hb, (ofOptions_checks _).2.2.1 b hb, ?_⟩
    rw [hvalues]
    rfl
  · have htitle : ∀ a ∈ [(⟨"T", ""⟩ : Attribute)], IsExtra a :=
      List.forall_mem_singleton.mpr ⟨by decide, by decide, isValue_iff.mp (by decide)⟩
    exact ((ofOptions_checks _).2.1 _).mpr (.badAttribute hentry rfl htitle (.managed (by decide)))

end Bundler

end FatJar
