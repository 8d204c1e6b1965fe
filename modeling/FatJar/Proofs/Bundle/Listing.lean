/-
FatJar.Proofs.Bundle.Listing — what the container of a merged archive lists.

Two members that are in no table of a merge are written in front of the merged
entries: the manifest's directory and the manifest. That they meet no entry of
the same name rests on what a merge leaves out: an entry gets into the table only
if its name is neither of the two, in any case, and then only once.

`merge_toBytes_lists` follows from this on the side of the names, and on the side
of the bytes from the fact that a written container is read back.

Contents:
1. merged entries;
2. repeated names;
3. the members of a bundle.
-/
import FatJar.Bundle.Writing
import FatJar.Proofs.Merge.Resolution
import FatJar.Proofs.Zip.Size

namespace FatJar

open Outcome

/-! ## 1. Merged entries -/

namespace Bundler

variable {b : Bundler} {inputs : List Archive} {m : MergedArchive}

theorem merge_survives (h : b.merge inputs = .ok m) {e : MergedEntry} (he : e ∈ m.entries) :
    b.survives e.name = true := by
  have hname : e.name ∈ (b.survivors inputs).map (·.name) :=
    (merge_tabulates h).mem_names.mp (List.mem_map_of_mem he)
  obtain ⟨o, ho, hsame⟩ := List.mem_map.mp hname
  rw [← hsame]
  exact (List.mem_filter.mp ho).2

/-- Merged entries are made of entries of the inputs. -/
theorem merge_origin (h : b.merge inputs = .ok m) {e : MergedEntry} (he : e ∈ m.entries) :
    ∃ first kept : Entry, (∃ a ∈ inputs, first ∈ a.entries) ∧ (∃ a ∈ inputs, kept ∈ a.entries) ∧
      first.name = e.name ∧ first.kind = e.kind ∧ kept.name = e.name ∧ kept.payload = e.payload ∧
      (kept = first ∨ kept.kind = .file) := by
  obtain ⟨first, later, kept, hnamed, hkind, hpayload, -, hkept⟩ := (merge_tabulates h).origin he
  have hinput : ∀ o ∈ first :: later, (∃ a ∈ inputs, o.entry ∈ a.entries) ∧ o.name = e.name := by
    intro o ho
    obtain ⟨ho, hname⟩ := Occurrence.mem_named.mp (hnamed ▸ ho)
    exact ⟨entry_mem_of_mem_occurrencesFrom (List.mem_filter.mp ho).1, hname⟩
  obtain ⟨hfirst, hname⟩ := hinput first List.mem_cons_self
  rcases hkept with rfl | ⟨-, hlater, hfile⟩
  · exact ⟨kept.entry, kept.entry, hfirst, hfirst, hname, hkind, hname, hpayload, .inl rfl⟩
  · obtain ⟨hkept, hname'⟩ := hinput kept (List.mem_cons_of_mem _ hlater)
    exact ⟨first.entry, kept.entry, hfirst, hkept, hname, hkind, hname', hpayload,
      .inr (by simpa [Occurrence.isFile] using hfile)⟩

end Bundler

/-! ## 2. Repeated names -/

namespace Zip

theorem repeatedName?_eq_none_iff (seen names : List String) :
    repeatedName? seen names = none ↔ names.Nodup ∧ ∀ name ∈ names, name ∉ seen := by
  induction names generalizing seen with
  | nil => simp [repeatedName?]
  | cons name rest ih =>
    rw [repeatedName?]
    by_cases hseen : name ∈ seen
    · simp [hseen]
    · simp only [List.contains_eq_mem, hseen, decide_false, Bool.false_eq_true, if_false, ih,
        List.nodup_cons, List.mem_cons, not_or]
      grind

theorem write_eq_ok {entries : List Entry} (h : (entries.map writtenName).Nodup) :
    write entries = .ok (containerBytes entries) := by
  have hnone : repeatedName? [] (entries.map writtenName) = none :=
    (repeatedName?_eq_none_iff [] _).mpr ⟨h, fun name _ => List.not_mem_nil⟩
  rw [write, hnone]

/-- The entry as a member of a container. -/
def written (e : Entry) : Entry :=
  ⟨writtenName e, e.kind, writtenPayload e⟩

end Zip

/-! ## 3. The members of a bundle -/

/-- The manifest's directory, the manifest, and the entries with their own names; directories have
no payload. -/
def bundleMembers (manifest : Manifest) (entries : List MergedEntry) : List Entry :=
  ⟨"META-INF/", .directory, []⟩ :: ⟨"META-INF/MANIFEST.MF", .file, manifest.toBytes⟩ ::
    entries.map fun e =>
      ⟨e.name, e.kind, match e.kind with | .directory => [] | .file => e.payload⟩

namespace Bundler

variable {b : Bundler} {inputs : List Archive} {m : MergedArchive}

theorem names_bundleMembers (manifest : Manifest) (entries : List MergedEntry) :
    (bundleMembers manifest entries).map (·.name) =
      Manifest.directory :: Manifest.path :: entries.map (·.name) := by
  simp only [bundleMembers, List.map_cons, List.map_map]
  rfl

/-- Names that survive are not those of the manifest and its directory. -/
theorem nodup_bundleMembers (h : b.merge inputs = .ok m) :
    ((bundleMembers b.manifest m.entries).map (·.name)).Nodup := by
  have hsurvives : ∀ name ∈ m.entries.map (·.name), b.survives name = true := by
    intro name hname
    obtain ⟨e, he, rfl⟩ := List.mem_map.mp hname
    exact merge_survives h he
  have hpath : Manifest.isPath Manifest.path = true := by decide
  have hdirectory : Manifest.isDirectory Manifest.directory = true := by decide
  rw [names_bundleMembers, List.nodup_cons, List.nodup_cons, List.mem_cons, not_or]
  refine ⟨⟨by decide, fun hmem => ?_⟩, fun hmem => ?_, (merge_tabulates h).nodup⟩
  · rw [(survives_iff.mp (hsurvives _ hmem)).2.1] at hdirectory
    cases hdirectory
  · rw [(survives_iff.mp (hsurvives _ hmem)).1] at hpath
    cases hpath

theorem written_writtenEntries (h : b.merge inputs = .ok m)
    (hslashed : ∀ a ∈ inputs, ∀ e ∈ a.entries, e.Slashed) :
    m.writtenEntries.map Zip.written = bundleMembers b.manifest m.entries := by
  have hmanifest : m.manifest = b.manifest := by
    obtain ⟨t, -, rfl⟩ := merge_eq_ok h
    rfl
  have hentry : ∀ e ∈ m.entries, Zip.written e.toEntry =
      ⟨e.name, e.kind, match e.kind with | .directory => [] | .file => e.payload⟩ := by
    intro e he
    have hname : Zip.writtenName e.toEntry = e.name := by
      apply Entry.Slashed.writtenName
      intro hkind
      obtain ⟨first, -, ⟨a, ha, hfirst⟩, -, hname, hfirstKind, -⟩ := merge_origin h he
      show e.name.toList.getLast? = some '/'
      rw [← hname]
      exact hslashed a ha first hfirst (hfirstKind.trans hkind)
    rw [Zip.written, hname]
    rfl
  rw [MergedArchive.writtenEntries, bundleMembers, ← hmanifest]
  simp only [List.map_cons, List.map_map]
  congr 2
  exact List.map_congr_left fun e he => hentry e he

theorem toBytes_of_merge (h : b.merge inputs = .ok m)
    (hslashed : ∀ a ∈ inputs, ∀ e ∈ a.entries, e.Slashed) :
    (m.writtenEntries.map Zip.writtenName).Nodup ∧
      m.toBytes = .ok (Zip.containerBytes m.writtenEntries) := by
  have hnames : (m.writtenEntries.map Zip.writtenName).Nodup := by
    have hmembers := nodup_bundleMembers h
    rw [← written_writtenEntries h hslashed, List.map_map] at hmembers
    exact hmembers
  refine ⟨hnames, ?_⟩
  rw [MergedArchive.toBytes, Zip.write_eq_ok hnames]
  rfl

theorem filter_isPath_bundleMembers (h : b.merge inputs = .ok m) :
    (bundleMembers b.manifest m.entries).filter (fun e => Manifest.isPath e.name) =
      [⟨"META-INF/MANIFEST.MF", .file, b.manifest.toBytes⟩] := by
  have hdirectory : Manifest.isPath "META-INF/" = false := by decide
  have hpath : Manifest.isPath "META-INF/MANIFEST.MF" = true := by decide
  have hothers : ∀ e ∈ m.entries, Manifest.isPath e.name = false := fun e he =>
    (survives_iff.mp (merge_survives h he)).1
  simp only [bundleMembers, List.filter_cons, hdirectory, hpath, Bool.false_eq_true, if_false,
    if_true, List.cons.injEq, true_and, List.filter_eq_nil_iff, List.forall_mem_map]
  intro e he
  simp [hothers e he]

/-- **The members of a bundle.** If the names of directories end in slashes, a merged archive can
be written, since no name is repeated. Its container lists the manifest's directory, the manifest
of the bundler and the merged entries in their order, whose names are distinct and of which only
the manifest has the name of one, in any case. The report counts them. What is read from the bytes
is this list if they can be written with the numbers of a container. -/
theorem merge_toBytes_lists (h : b.merge inputs = .ok m)
    (hslashed : ∀ a ∈ inputs, ∀ e ∈ a.entries, e.Slashed) :
    m.toBytes = .ok (Zip.containerBytes m.writtenEntries) ∧
    m.writtenEntries.map Zip.written = bundleMembers b.manifest m.entries ∧
    (Zip.Fits m.writtenEntries → Zip.listing (Zip.containerBytes m.writtenEntries) =
      .ok ((bundleMembers b.manifest m.entries).map fun e => (e.name, e.payload))) ∧
    ((bundleMembers b.manifest m.entries).map (·.name)).Nodup ∧
    (bundleMembers b.manifest m.entries).filter (fun e => Manifest.isPath e.name) =
      [⟨"META-INF/MANIFEST.MF", .file, b.manifest.toBytes⟩] ∧
    ∀ t output report t', write t m output = (.ok report, t') →
      report.entries = (bundleMembers b.manifest m.entries).length := by
  obtain ⟨hnames, hbytes⟩ := toBytes_of_merge h hslashed
  refine ⟨hbytes, written_writtenEntries h hslashed, fun hfits => ?_, nodup_bundleMembers h,
    filter_isPath_bundleMembers h, ?_⟩
  · rw [Zip.listing_containerBytes hfits hnames, ← written_writtenEntries h hslashed, List.map_map]
    rfl
  · intro t output report t' hwrite
    have hlength : (bundleMembers b.manifest m.entries).length = m.entries.length + 2 := by
      simp [bundleMembers]
    rw [hlength]
    unfold write at hwrite
    rw [hbytes] at hwrite
    simp only at hwrite
    split at hwrite
    · cases hwrite
    · cases hwrite
      rfl

end Bundler

/-- A bundler with an empty manifest under which the last one wins. -/
def bareBundler : Bundler where
  options := ⟨"A", .lastWins, [], [], 1⟩
  excludes := []
  manifest := .empty

/-- Two inputs with a common directory and a common file. One has a manifest, whose name is not
spelled as that of the bundle. -/
def overlappingInputs : List Archive :=
  [⟨"a.jar", [.directory "meta-inf", .file "Meta-Inf/manifest.MF" [9], .directory "d",
    .file "x" [1]]⟩,
   ⟨"b.jar", [.directory "d", .file "x" [2]]⟩]

/-- What they are merged into. -/
def overlappingMerged : MergedArchive :=
  ⟨.empty, [⟨"d/", .directory, [], 0⟩, ⟨"x", .file, [2], 1⟩], ⟨1, 0, 1⟩⟩

namespace Bundler

theorem merge_overlappingInputs : bareBundler.merge overlappingInputs = .ok overlappingMerged :=
  eq_ok_of_toOption (by decide +kernel)

theorem fits_overlappingMerged : Zip.Fits overlappingMerged.writtenEntries := by
  have hsmall : Zip.Small overlappingMerged.writtenEntries := by decide +kernel
  exact hsmall.fits

theorem merge_toBytes_lists_overlapping :
    bareBundler.merge overlappingInputs = .ok overlappingMerged ∧
    ∃ bytes, overlappingMerged.toBytes = .ok bytes ∧
      Zip.listing bytes = .ok [("META-INF/", []), ("META-INF/MANIFEST.MF", Manifest.empty.toBytes),
        ("d/", []), ("x", [2])] := by
  have hslashed : ∀ a ∈ overlappingInputs, ∀ e ∈ a.entries, e.Slashed := by decide
  obtain ⟨hbytes, -, hlisting, -⟩ := merge_toBytes_lists merge_overlappingInputs hslashed
  exact ⟨merge_overlappingInputs, _, hbytes, hlisting fits_overlappingMerged⟩

end Bundler

end FatJar
