/-
FatJar.Proofs.Project.Store — a configuration that is saved is loaded again.

The text of a configuration is that of one or two tables (`tables`), so it is read
as these tables, and each setting is found in them under its key. A configuration
is checked after it has been read, with what was written, so loading fails as
checking does.

Contents:
1. the tables of a configuration;
2. settings found in them;
3. texts;
4. files.
-/
import FatJar.Project.Store
import FatJar.Proofs.FileTree.Write
import FatJar.Proofs.Toml.Document

namespace FatJar

open Toml (Item Setting Table lookup? shows_printText shows_printArray shows_toString)

/-! ## 1. Tables -/

namespace ProjectConfig

/-- The settings that have to be there. -/
def requiredSettings (c : ProjectConfig) : List Setting :=
  [⟨"main-class", _, _, shows_printText c.mainClass⟩,
    ⟨"output", _, _, shows_printText c.output⟩,
    ⟨"duplicates", _, _, shows_printText c.duplicates.name⟩,
    ⟨"inputs", _, _, shows_printArray c.inputs⟩]

/-- The patterns, if there are any or if none is said to count. -/
def excludeSettings : Option (List String) → List Setting
  | none => []
  | some patterns => [⟨"exclude", _, _, shows_printArray patterns⟩]

/-- The number of jobs, if it is given. -/
def jobsSettings : (jobs : Option Nat) → jobs.getD 0 ≤ Toml.maxInteger → List Setting
  | none, _ => []
  | some _, h => [⟨"jobs", _, _, shows_toString h⟩]

/-- The table of the bundle. -/
def bundleTable (c : ProjectConfig) (h : c.jobs.getD 0 ≤ Toml.maxInteger) : Table where
  name := "bundle"
  settings := c.requiredSettings ++ excludeSettings c.exclude ++ jobsSettings c.jobs h
  keys := by
    rcases c with ⟨_, _, _, _, _ | _, _ | _, _⟩ <;>
      simp [requiredSettings, excludeSettings, jobsSettings]

/-- The table of the attributes. -/
def manifestTable (attributes : AttributeMap) : Table where
  name := "manifest"
  settings := attributes.entries.map fun a => ⟨a.name, _, _, shows_printText a.value⟩
  keys := by
    rw [List.map_map]
    exact attributes.nodup_names

/-- The tables of a configuration. -/
def tables (c : ProjectConfig) (h : c.jobs.getD 0 ≤ Toml.maxInteger) : List Table :=
  c.bundleTable h :: if c.manifest.entries.isEmpty then [] else [manifestTable c.manifest]

theorem names_tables (c : ProjectConfig) (h : c.jobs.getD 0 ≤ Toml.maxInteger) :
    ((c.tables h).map Table.name).Nodup := by
  rw [tables]
  split <;> simp [bundleTable, manifestTable]

/-- The text of a configuration is that of its tables. -/
theorem toText_eq (c : ProjectConfig) (h : c.jobs.getD 0 ≤ Toml.maxInteger) :
    c.toText = .ok (String.ofList (Table.printAll (c.tables h))) := by
  have hbundle : (c.bundleTable h).print =
      Toml.printHeader "bundle" ++ c.printRequired ++ c.printOptional := by
    rcases c with ⟨_, _, _, _, _ | _, _ | _, _⟩ <;>
      simp [Table.print, bundleTable, requiredSettings, excludeSettings, jobsSettings,
        Setting.print, printRequired, printOptional]
  have hmanifest : (manifestTable c.manifest).print = Toml.printHeader "manifest" ++
      c.manifest.entries.flatMap fun a => Toml.printPair a.name (Toml.printText a.value) := by
    simp [Table.print, manifestTable, Setting.print, List.flatMap_map]
  rw [toText, if_neg (Nat.not_lt.mpr h), tables, printManifest]
  split
  · simp [Table.printAll, hbundle]
  · simp [Table.printAll, hbundle, hmanifest]

/-! ## 2. Settings -/

theorem textsOf?_map (texts : List String) : textsOf? (texts.map .string) = some texts := by
  induction texts with
  | nil => rfl
  | cons s texts ih => simp [textsOf?, text?, ih]

theorem texts?_array (texts : List String) : texts? (.array (texts.map .string)) = some texts :=
  textsOf?_map texts

theorem policyOfName?_name (policy : DuplicatePolicy) :
    policyOfName? policy.name = some policy := by
  cases policy <;> rfl

theorem bundle?_bundleTable (c : ProjectConfig) (h : c.jobs.getD 0 ≤ Toml.maxInteger) :
    bundle? (c.bundleTable h).pair.2 = some { c with manifest := .empty } := by
  rcases c with ⟨_, _, _, _, _ | _, _ | _, _⟩ <;>
    simp [bundle?, Table.pair, bundleTable, requiredSettings, excludeSettings, jobsSettings,
      Setting.pair, lookup?, settings?, text?, optional?, policy?, policyOfName?_name, texts?_array,
      jobs?]

theorem attributesOf?_map (attributes : List Attribute) :
    attributesOf? (attributes.map fun a => (a.name, .string a.value)) = some attributes := by
  induction attributes with
  | nil => rfl
  | cons a attributes ih => simp [attributesOf?, text?, ih]

theorem manifest?_manifestTable (attributes : AttributeMap) :
    manifest? (manifestTable attributes).pair.2 = some attributes.entries := by
  have hpairs : (manifestTable attributes).settings.map Setting.pair =
      attributes.entries.map fun a => (a.name, .string a.value) := by
    simp [manifestTable, Setting.pair]
  simp [manifest?, Table.pair, hpairs, attributesOf?_map]

end ProjectConfig

namespace AttributeMap

/-- An attribute whose name comes after all others is put at the end. -/
theorem place_eq_concat {a : Attribute} {attributes : List Attribute}
    (h : ∀ b ∈ attributes, b.name < a.name) : place a attributes = attributes ++ [a] := by
  induction attributes with
  | nil => rfl
  | cons b attributes ih =>
    have hlt := h b List.mem_cons_self
    have hnot : ¬ a.name < b.name := fun hgt => String.lt_irrefl _ (String.lt_trans hlt hgt)
    have hne : a.name ≠ b.name := by
      intro heq
      rw [heq] at hlt
      exact String.lt_irrefl _ hlt
    rw [place, if_neg hnot, if_neg (by simpa using hne),
      ih fun c hc => h c (List.mem_cons_of_mem b hc)]
    rfl

theorem foldl_insert {m : AttributeMap} {attributes : List Attribute}
    (h : (m.entries ++ attributes).Pairwise fun a b => a.name < b.name) :
    (attributes.foldl insert m).entries = m.entries ++ attributes := by
  induction attributes generalizing m with
  | nil => simp
  | cons a attributes ih =>
    have hplace : (m.insert a).entries = m.entries ++ [a] :=
      place_eq_concat fun b hb =>
        (List.pairwise_append.mp h).2.2 b hb a List.mem_cons_self
    rw [List.foldl_cons, ih]
    · rw [hplace, List.append_assoc]
      rfl
    · rw [hplace, List.append_assoc]
      exact h

/-- Attributes in their order are those of a map. -/
theorem ofList_entries (m : AttributeMap) : ofList m.entries = m := by
  have hentries : (ofList m.entries).entries = m.entries := foldl_insert m.sorted
  cases hm : ofList m.entries
  cases m
  simp_all

end AttributeMap

namespace ProjectConfig

theorem ofPairs?_tables (c : ProjectConfig) (h : c.jobs.getD 0 ≤ Toml.maxInteger) :
    ofPairs? ((c.tables h).map Table.pair) = some c := by
  have hbundle := bundle?_bundleTable c h
  have hmanifest := manifest?_manifestTable c.manifest
  have hmap := AttributeMap.ofList_entries c.manifest
  rw [tables]
  split
  · rename_i hempty
    have hnone : c.manifest.entries = [] := by simpa using hempty
    have hfound : lookup? "bundle" [(c.bundleTable h).pair] = some (c.bundleTable h).pair.2 := rfl
    have hmissing : lookup? "manifest" [(c.bundleTable h).pair] = none := rfl
    rw [hnone] at hmap
    simp [ofPairs?, hfound, hmissing, hbundle, optional?, hmap]
  · have hfound : lookup? "bundle" [(c.bundleTable h).pair, (manifestTable c.manifest).pair] =
        some (c.bundleTable h).pair.2 := rfl
    have hattributes : lookup? "manifest" [(c.bundleTable h).pair,
        (manifestTable c.manifest).pair] = some (manifestTable c.manifest).pair.2 := rfl
    simp [ofPairs?, hfound, hattributes, hbundle, optional?, hmanifest, hmap]

/-! ## 3. Texts -/

theorem ofText?_printAll (c : ProjectConfig) (h : c.jobs.getD 0 ≤ Toml.maxInteger) :
    ofText? (String.ofList (Table.printAll (c.tables h))) = some c := by
  rw [ofText?, Toml.parse?_printAll (c.names_tables h)]
  exact c.ofPairs?_tables h

/-- Only a number of jobs that is too great has no written form. -/
theorem toText_eq_error {c : ProjectConfig} (h : Toml.maxInteger < c.jobs.getD 0) :
    c.toText = .error .unwritable := by
  rw [toText, if_pos h]

/-- The text of a configuration is read as the configuration, and checked. -/
theorem ofText_toText {c : ProjectConfig} {text : String} (h : c.toText = .ok text) :
    ofText text = c.validate.map fun _ => c := by
  by_cases hjobs : c.jobs.getD 0 ≤ Toml.maxInteger
  · rw [c.toText_eq hjobs] at h
    cases h
    rw [ofText, c.ofText?_printAll hjobs]
    cases hvalid : c.validate <;> simp [hvalid, Except.map, bind, Except.bind, pure, Except.pure]
  · rw [toText_eq_error (Nat.lt_of_not_le hjobs)] at h
    cases h

/-! ## 4. Files -/

theorem exceeds_iff {jobs : Option Nat} :
    Toml.maxInteger < jobs.getD 0 ↔ ∃ n, jobs = some n ∧ Nat.pow 2 63 - 1 < n := by
  cases jobs with
  | none => simp
  | some n => simp [Toml.maxInteger]

theorem save_eq_write {c : ProjectConfig} (t : FileTree) (p : Path)
    (h : c.jobs.getD 0 ≤ Toml.maxInteger) :
    c.save t p = (t.write p (Text.encode (String.ofList (Table.printAll (c.tables h))))).mapError
      .system := by
  rw [save, c.toText_eq h]
  rfl

theorem save_eq_ok {c : ProjectConfig} {t t' : FileTree} {p : Path} (h : c.save t p = .ok t') :
    ∃ text, c.toText = .ok text ∧ t.write p (Text.encode text) = .ok t' := by
  obtain ⟨text, htext, hwrite⟩ := Outcome.bind_eq_ok.mp h
  refine ⟨text, htext, ?_⟩
  cases hresult : t.write p (Text.encode text) with
  | error e =>
    rw [hresult] at hwrite
    cases hwrite
  | ok written =>
    rw [hresult] at hwrite
    cases hwrite
    rfl

/-- A configuration that has been saved is read again, and checked. -/
theorem load_of_save {c : ProjectConfig} {t t' : FileTree} {p : Path} (h : c.save t p = .ok t') :
    load t' p = c.validate.map fun _ => c := by
  obtain ⟨text, htext, hwrite⟩ := save_eq_ok h
  rw [load, FileTree.read_write hwrite]
  simp only [Text.decode?_encode, ofText_toText htext]

/-- The tree after an attempt to save, which is the one before if that has failed. -/
def treeAfter (t : FileTree) : Except Error FileTree → FileTree
  | .ok t' => t'
  | .error _ => t

/-- **A configuration that is saved is loaded again.** Saving has nothing to write exactly when the
number of jobs exceeds the greatest integer; then everything stays as it was. Otherwise there is a
text, and what becomes of it is for the system to say. Where it has been written, loading gives the
same configuration if it is valid, and the fault that checking finds if it is not. -/
theorem load_save (c : ProjectConfig) (t : FileTree) (p : Path) :
    (c.save t p = .error .unwritable ↔ ∃ n, c.jobs = some n ∧ Nat.pow 2 63 - 1 < n) ∧
    ((∃ n, c.jobs = some n ∧ Nat.pow 2 63 - 1 < n) → treeAfter t (c.save t p) = t) ∧
    ((∀ n, c.jobs = some n → n ≤ Nat.pow 2 63 - 1) →
      ∃ text, c.toText = .ok text ∧
        c.save t p = (t.write p (Text.encode text)).mapError .system) ∧
    ∀ t', c.save t p = .ok t' →
      (c.validate = .ok () → load t' p = .ok c) ∧
      ∀ e, c.validate = .error e → load t' p = .error e := by
  have hrefused : (∃ n, c.jobs = some n ∧ Nat.pow 2 63 - 1 < n) →
      c.save t p = .error .unwritable := by
    intro hgreat
    rw [save, toText_eq_error (exceeds_iff.mpr hgreat)]
    rfl
  refine ⟨⟨?_, hrefused⟩, ?_, ?_, ?_⟩
  · intro hsave
    refine exceeds_iff.mp (Nat.lt_of_not_le fun hjobs => ?_)
    rw [save_eq_write t p hjobs] at hsave
    cases hwrite : t.write p (Text.encode (String.ofList (Table.printAll (c.tables hjobs)))) with
    | error e =>
      rw [hwrite] at hsave
      cases hsave
    | ok written =>
      rw [hwrite] at hsave
      cases hsave
  · intro hgreat
    rw [hrefused hgreat]
    rfl
  · intro hsmall
    have hjobs : c.jobs.getD 0 ≤ Toml.maxInteger := by
      refine Nat.le_of_not_lt fun hgreat => ?_
      obtain ⟨n, hn, hgreat⟩ := exceeds_iff.mp hgreat
      exact absurd (hsmall n hn) (Nat.not_le.mpr hgreat)
    exact ⟨_, c.toText_eq hjobs, save_eq_write t p hjobs⟩
  · intro t' hsave
    have hload := load_of_save hsave
    refine ⟨fun hvalid => ?_, fun e hinvalid => ?_⟩
    · rw [hload, hvalid]
      rfl
    · rw [hload, hinvalid]
      rfl

end ProjectConfig

end FatJar
