/-
FatJar.Proofs.Project.Checking — configurations that are checked, and what is made
of them.

A configuration is checked when it is loaded, and its options are checked again when
they are bundled. The two checks are written apart from each other. The first does
not look at values, and it lets a class name have white space at its ends; this is
all that the second can still refuse (`exists_ofOptions_iff_validate`).

The attributes of a configuration have distinct names, but case makes names distinct
here and not in a manifest. Of attributes whose names differ in case only, the last
gives the value of all of them (`get?_of_configured`).

Contents:
1. what checking accepts;
2. the options of a configuration;
3. checking twice;
4. configured attributes in the manifest.
-/
import FatJar.Project.Store
import FatJar.Proofs.Bundle.Options
import Mathlib.Data.List.Nodup

namespace FatJar

open Outcome

/-! ## 1. What checking accepts -/

namespace ProjectConfig

/-- A configuration without a fault. -/
structure IsValid (c : ProjectConfig) : Prop where
  mainClass : Text.blank c.mainClass = false
  output : Text.blank c.output = false
  inputs : c.inputs ≠ []
  exclude : ∀ pattern ∈ c.exclude.getD [], ∃ p, Compiles pattern p
  names : ∀ a ∈ c.manifest.entries,
    Manifest.isName a.name = true ∧ Manifest.isManaged a.name = false

theorem patternFault?_eq_none_iff {patterns : List String} :
    patternFault? patterns = none ↔ ∀ pattern ∈ patterns, ∃ p, Compiles pattern p := by
  induction patterns with
  | nil => simp [patternFault?]
  | cons pattern rest ih =>
    rw [patternFault?, List.forall_mem_cons]
    cases hcompile : Glob.Pattern.compile pattern with
    | error e => simp [Compiles, hcompile]
    | ok p => simp [Compiles, hcompile, ih]

theorem attributeFault?_eq_none_iff {attributes : List Attribute} :
    attributeFault? attributes = none ↔ ∀ a ∈ attributes,
      Manifest.isName a.name = true ∧ Manifest.isManaged a.name = false := by
  induction attributes with
  | nil => simp [attributeFault?]
  | cons a rest ih =>
    rw [attributeFault?, List.forall_mem_cons]
    cases hname : Manifest.isName a.name with
    | false => simp
    | true => cases hmanaged : Manifest.isManaged a.name <;> simp [ih]

/-- Checking finds no fault in valid configurations, and in no others. -/
theorem validate_eq_ok_iff {c : ProjectConfig} : c.validate = .ok () ↔ c.IsValid := by
  have hvalidate : c.validate = .ok () ↔ c.fault? = none := by
    rw [validate]
    split <;> simp_all
  rw [hvalidate, fault?]
  constructor
  · intro h
    split at h
    · cases h
    · rename_i hclass
      split at h
      · cases h
      · rename_i houtput
        split at h
        · cases h
        · rename_i hinputs
          split at h
          · cases h
          · rename_i hpatterns
            exact ⟨by simpa using hclass, by simpa using houtput, by simpa using hinputs,
              patternFault?_eq_none_iff.mp hpatterns, attributeFault?_eq_none_iff.mp h⟩
  · rintro ⟨hclass, houtput, hinputs, hpatterns, hnames⟩
    simp [hclass, houtput, hinputs, patternFault?_eq_none_iff.mpr hpatterns,
      attributeFault?_eq_none_iff.mpr hnames]

/-! ## 2. The options of a configuration -/

/-- The patterns that count where none are given can be read. -/
theorem compiles_defaultExcludes : ∀ text ∈ defaultExcludes, ∃ p, Compiles text p := by
  have hcompile : ∀ text ∈ defaultExcludes, (Glob.Pattern.compile text).toOption.isSome := by
    decide +kernel
  intro text htext
  obtain ⟨p, hp⟩ := Option.isSome_iff_exists.mp (hcompile text htext)
  exact ⟨p, eq_ok_of_toOption hp⟩

/-- Patterns that are not given cause no fault in the options. -/
theorem compiles_toOptions_iff {c : ProjectConfig} :
    (∀ text ∈ c.toOptions.exclude, ∃ p, Compiles text p) ↔
      ∀ text ∈ c.exclude.getD [], ∃ p, Compiles text p := by
  cases hexclude : c.exclude with
  | none => simpa [toOptions, hexclude] using compiles_defaultExcludes
  | some patterns => simp [toOptions, hexclude]

theorem isEntryPoint_iff_notBlank {s : String} :
    IsEntryPoint s ↔ Text.blank s = false ∧ Text.trim s = s ∧ OneLine s := by
  constructor
  · rintro ⟨hne, htrim, hline⟩
    refine ⟨Bool.eq_false_iff.mpr fun hblank => hne ?_, htrim, hline⟩
    rw [← htrim, trim_of_blank hblank]
  · rintro ⟨hblank, htrim, hline⟩
    refine ⟨?_, htrim, hline⟩
    rintro rfl
    cases hblank

/-- A class name without white space at its ends and, like all values, without line breaks and
NULs: what is left to check of the options of a valid configuration. -/
structure IsBundleable (c : ProjectConfig) : Prop where
  trimmed : Text.trim c.mainClass = c.mainClass
  mainClass : OneLine c.mainClass
  values : ∀ a ∈ c.manifest.entries, OneLine a.value

theorem accepted_toOptions {c : ProjectConfig} (hvalid : c.IsValid) (h : c.IsBundleable) :
    Accepted c.toOptions where
  entryPoint := isEntryPoint_iff_notBlank.mpr ⟨hvalid.mainClass, h.trimmed, h.mainClass⟩
  attributes := fun a ha => ⟨(hvalid.names a ha).2, (hvalid.names a ha).1, h.values a ha⟩
  exclude := compiles_toOptions_iff.mpr hvalid.exclude

theorem isBundleable_of_accepted {c : ProjectConfig} (h : Accepted c.toOptions) :
    c.IsBundleable where
  trimmed := h.entryPoint.trimmed
  mainClass := h.entryPoint.oneLine
  values := fun a ha => (h.attributes a ha).value

theorem isValid_of_accepted {c : ProjectConfig} (h : Accepted c.toOptions) (hinputs : c.inputs ≠ [])
    (houtput : Text.blank c.output = false) : c.IsValid where
  mainClass := (isEntryPoint_iff_notBlank.mp h.entryPoint).1
  output := houtput
  inputs := hinputs
  exclude := compiles_toOptions_iff.mp h.exclude
  names := fun a ha => ⟨(h.attributes a ha).name, (h.attributes a ha).unmanaged⟩

/-! ## 3. Checking twice -/

/-- The options of a valid configuration are refused for the class or for a value only. -/
theorem error_of_isValid {c : ProjectConfig} {e : BundleError} (hvalid : c.IsValid)
    (h : Bundler.ofOptions c.toOptions = .error e) :
    e = .invalidEntryPoint c.mainClass ∨
      ∃ a ∈ c.manifest.entries, ¬ OneLine a.value ∧ e = .manifest (.invalidValue a.name) := by
  cases Bundler.refused_of_ofOptions h with
  | badEntryPoint => exact .inl rfl
  | @badAttribute before after a _ _ hattributes _ ha =>
    have hmem : a ∈ c.manifest.entries := by
      have hentries : c.manifest.entries = before ++ a :: after := hattributes
      rw [hentries]
      exact List.mem_append_right before List.mem_cons_self
    obtain ⟨hname, hmanaged⟩ := hvalid.names a hmem
    cases ha with
    | managed hmanaged' =>
      rw [hmanaged] at hmanaged'
      cases hmanaged'
    | name _ hname' =>
      rw [hname] at hname'
      cases hname'
    | value _ _ hvalue => exact .inr ⟨a, hmem, hvalue, rfl⟩
  | @badPattern before after text _ _ _ hexclude _ he =>
    have hmem : text ∈ c.toOptions.exclude := by
      rw [hexclude]
      exact List.mem_append_right before List.mem_cons_self
    obtain ⟨p, hp⟩ := compiles_toOptions_iff.mpr hvalid.exclude text hmem
    rw [Compiles, he] at hp
    cases hp

/-- **The two checks agree up to the class name and the values.** There is a bundler for the options
of a configuration that has inputs and an output exactly when checking finds no fault in it, its
class name has no white space at its ends, and neither the class name nor a value has a line break
or a NUL. So where checking finds no fault, the options can be refused only for the entry point or
for a value. -/
theorem exists_ofOptions_iff_validate (c : ProjectConfig) :
    ((∃ b, Bundler.ofOptions c.toOptions = .ok b) ∧ c.inputs ≠ [] ∧ Text.blank c.output = false ↔
      c.validate = .ok () ∧ c.IsBundleable) ∧
    ∀ e, c.validate = .ok () → Bundler.ofOptions c.toOptions = .error e →
      e = .invalidEntryPoint c.mainClass ∨
        ∃ a ∈ c.manifest.entries, ¬ OneLine a.value ∧ e = .manifest (.invalidValue a.name) := by
  refine ⟨⟨?_, ?_⟩, fun e hvalid => error_of_isValid (validate_eq_ok_iff.mp hvalid)⟩
  · rintro ⟨⟨b, hb⟩, hinputs, houtput⟩
    have haccepted := Bundler.accepted_of_ofOptions hb
    exact ⟨validate_eq_ok_iff.mpr (isValid_of_accepted haccepted hinputs houtput),
      isBundleable_of_accepted haccepted⟩
  · rintro ⟨hvalidate, hbundleable⟩
    have hvalid := validate_eq_ok_iff.mp hvalidate
    obtain ⟨b, hb, -⟩ := Bundler.ofOptions_of_accepted (accepted_toOptions hvalid hbundleable)
    exact ⟨⟨b, hb⟩, hvalid.inputs, hvalid.output⟩

/-- A configuration with an attribute. -/
def notedConfig (mainClass value : String) : ProjectConfig :=
  { basic mainClass "a.jar" ["a"] with
    manifest := ⟨[⟨"Note", value⟩], List.pairwise_singleton _ _⟩ }

/-- Checking finds no fault in a value of two lines. The options have one, and none once the value
has one line. -/
theorem exists_ofOptions_iff_validate_noted :
    (∃ b, Bundler.ofOptions (notedConfig "App" "a").toOptions = .ok b) ∧
    (notedConfig "App" "a\nb").validate = .ok () ∧
    ∃ e, Bundler.ofOptions (notedConfig "App" "a\nb").toOptions = .error e ∧
      (e = .invalidEntryPoint "App" ∨ ∃ a ∈ (notedConfig "App" "a\nb").manifest.entries,
        ¬ OneLine a.value ∧ e = .manifest (.invalidValue a.name)) := by
  have hvalid : (notedConfig "App" "a").validate = .ok () := rfl
  have hvalid' : (notedConfig "App" "a\nb").validate = .ok () := rfl
  have hbundleable : (notedConfig "App" "a").IsBundleable :=
    ⟨by decide, isValue_iff.mp (by decide),
      List.forall_mem_singleton.mpr (isValue_iff.mp (by decide))⟩
  have herror : Bundler.ofOptions (notedConfig "App" "a\nb").toOptions =
      .error (.manifest (.invalidValue "Note")) := failure?_eq_some.mp (by decide +kernel)
  exact ⟨((exists_ofOptions_iff_validate _).1.mpr ⟨hvalid, hbundleable⟩).1, hvalid', _, herror,
    (exists_ofOptions_iff_validate _).2 _ hvalid' herror⟩

/-! ## 4. Configured attributes -/

/-- The attributes of a configuration that have the name, in any case, in their order. -/
theorem pairwise_settingsOf (m : AttributeMap) (name : String) :
    (Manifest.settingsOf name m.entries).Pairwise fun a b => a.name < b.name :=
  m.sorted.sublist List.filter_sublist

/-- Of the attributes that have a name, in any case, the last is the greatest in its spelling. -/
theorem exists_last (m : AttributeMap) {a : Attribute} (ha : a ∈ m.entries) :
    ∃ last ∈ m.entries, (Manifest.settingsOf a.name m.entries).getLast? = some last ∧
      Text.sameIgnoringCase last.name a.name = true ∧
      ∀ x ∈ m.entries, Text.sameIgnoringCase x.name a.name = true → x.name ≤ last.name := by
  have hself : a ∈ Manifest.settingsOf a.name m.entries :=
    List.mem_filter.mpr ⟨ha, beq_iff_eq.mpr rfl⟩
  obtain ⟨before, last, hsplit⟩ :=
    List.eq_nil_or_concat _ |>.resolve_left (List.ne_nil_of_mem hself)
  rw [List.concat_eq_append] at hsplit
  have hlast : last ∈ Manifest.settingsOf a.name m.entries := by simp [hsplit]
  obtain ⟨hmem, hsame⟩ := List.mem_filter.mp hlast
  refine ⟨last, hmem, by rw [hsplit, List.getLast?_concat], hsame, fun x hx hxsame => ?_⟩
  have hsorted := pairwise_settingsOf m a.name
  have hxmem : x ∈ Manifest.settingsOf a.name m.entries := List.mem_filter.mpr ⟨hx, hxsame⟩
  rw [hsplit] at hsorted hxmem
  rcases List.mem_append.mp hxmem with hbefore | hhere
  · have hlt := (List.pairwise_append.mp hsorted).2.2 x hbefore last List.mem_cons_self
    exact String.not_lt.mp fun hgt => String.lt_irrefl _ (String.lt_trans hgt hlt)
  · obtain rfl := List.mem_singleton.mp hhere
    exact String.le_refl x.name

/-- A bundler's manifest gives an attribute of the configuration the value of the last one of its
name, in any case. -/
theorem get?_of_ofOptions {c : ProjectConfig} {b : Bundler}
    (hb : Bundler.ofOptions c.toOptions = .ok b) {a last : Attribute}
    (hlast : (Manifest.settingsOf a.name c.manifest.entries).getLast? = some last) :
    b.manifest.get? a.name = some last.value := by
  obtain ⟨b', hb', -, -, hmanifest⟩ :=
    Bundler.ofOptions_of_accepted (Bundler.accepted_of_ofOptions hb)
  rw [hb] at hb'
  cases hb'
  have hsettled : b.manifest =
      ⟨Manifest.settle (managedAttributes c.mainClass) c.manifest.entries⟩ :=
    congrArg Manifest.mk hmanifest
  rw [hsettled, Manifest.get?_settle, hlast]
  rfl

/-- **Where configured attributes are found.** Under each name of a configuration that is bundled,
the manifest gives the value of the last attribute, in the order of the names, that has the name up
to its case, and it does so again after it has been written and read. So an attribute keeps its
value if no later name differs from its own in case only. -/
theorem get?_of_configured {c : ProjectConfig} {b : Bundler}
    (hb : Bundler.ofOptions c.toOptions = .ok b) :
    ∃ again, Manifest.ofBytes b.manifest.toBytes = .ok again ∧
      ∀ a ∈ c.manifest.entries,
        (∃ last ∈ c.manifest.entries, Text.sameIgnoringCase last.name a.name = true ∧
          (∀ x ∈ c.manifest.entries, Text.sameIgnoringCase x.name a.name = true →
            x.name ≤ last.name) ∧
          b.manifest.get? a.name = some last.value ∧ again.get? a.name = some last.value) ∧
        ((∀ x ∈ c.manifest.entries, Text.sameIgnoringCase x.name a.name = true →
            x.name ≤ a.name) →
          b.manifest.get? a.name = some a.value ∧ again.get? a.name = some a.value) := by
  refine ⟨b.manifest, (Bundler.manifest_of_ofOptions hb).1, fun a ha => ?_⟩
  obtain ⟨last, hmem, hlast, hsame, hgreatest⟩ := exists_last c.manifest ha
  have hget := get?_of_ofOptions hb hlast
  refine ⟨⟨last, hmem, hsame, hgreatest, hget, hget⟩, fun hown => ?_⟩
  have heq : last.name = a.name :=
    String.le_antisymm (hown last hmem hsame) (hgreatest a ha (beq_iff_eq.mpr rfl))
  rw [List.inj_on_of_nodup_map c.manifest.nodup_names hmem ha heq] at hget
  exact ⟨hget, hget⟩

/-- A project in which the case of a letter makes two attributes. -/
def casedText : String :=
  "[bundle]\nmain-class = \"App\"\noutput = \"a.jar\"\ninputs = [\"a\"]\n" ++
    "[manifest]\nX-A = \"1\"\nx-a = \"2\"\n"

/-- What is read from it. -/
def casedConfig : ProjectConfig :=
  { basic "App" "a.jar" ["a"] with
    manifest := ⟨[⟨"X-A", "1"⟩, ⟨"x-a", "2"⟩], by decide⟩ }

theorem ofText_casedText : ofText casedText = .ok casedConfig :=
  eq_ok_of_toOption (by decide +kernel)

theorem exists_ofOptions_casedConfig : ∃ b, Bundler.ofOptions casedConfig.toOptions = .ok b := by
  have hvalid : casedConfig.IsValid := validate_eq_ok_iff.mp rfl
  have hbundleable : casedConfig.IsBundleable :=
    ⟨by decide, isValue_iff.mp (by decide), List.forall_mem_cons.mpr
      ⟨isValue_iff.mp (by decide), List.forall_mem_singleton.mpr (isValue_iff.mp (by decide))⟩⟩
  obtain ⟨b, hb, -⟩ := Bundler.ofOptions_of_accepted (accepted_toOptions hvalid hbundleable)
  exact ⟨b, hb⟩

/-- The later spelling has its value, and the earlier one has that value too. -/
theorem get?_of_configured_cased :
    ∃ b again, Bundler.ofOptions casedConfig.toOptions = .ok b ∧
      Manifest.ofBytes b.manifest.toBytes = .ok again ∧
      b.manifest.get? "x-a" = some "2" ∧ again.get? "x-a" = some "2" := by
  obtain ⟨b, hb⟩ := exists_ofOptions_casedConfig
  obtain ⟨again, hagain, hvalues⟩ := get?_of_configured hb
  have hlater : ∀ x ∈ casedConfig.manifest.entries,
      Text.sameIgnoringCase x.name "x-a" = true → x.name ≤ "x-a" := by decide
  obtain ⟨hvalue, hvalue'⟩ := (hvalues ⟨"x-a", "2"⟩ (by decide)).2 hlater
  exact ⟨b, again, hb, hagain, hvalue, hvalue'⟩

/-- An attribute loses its value to another whose name differs from its own in case only. -/
theorem get?_casedConfig_lost :
    ofText casedText = .ok casedConfig ∧ ⟨"X-A", "1"⟩ ∈ casedConfig.manifest.entries ∧
      ∃ b, Bundler.ofOptions casedConfig.toOptions = .ok b ∧
        b.manifest.get? "X-A" = some "2" := by
  obtain ⟨b, hb⟩ := exists_ofOptions_casedConfig
  have hlast : (Manifest.settingsOf "X-A" casedConfig.manifest.entries).getLast? =
      some ⟨"x-a", "2"⟩ := by decide
  exact ⟨ofText_casedText, by decide, b, hb,
    get?_of_ofOptions (a := ⟨"X-A", "1"⟩) hb hlast⟩

end ProjectConfig

end FatJar
