/-
FatJar.Proofs.Command.Inspection — what `inspect` says about a bundle.

A bundle has one manifest, whatever manifests its inputs bring, so the last one
that `inspect` meets is the bundler's own. Its class is the entry point of the
options: no attribute that is added to it may have that name, in any case, and
what is written of it is read back.

Contents:
1. the members of a bundle, read back;
2. their rows;
3. inspecting a bundle.
-/
import FatJar.Command.Run
import FatJar.Proofs.Bundle.Delivery
import FatJar.Proofs.Bundle.Options
import FatJar.Proofs.Bundle.Staged
import FatJar.Proofs.Zip.Size

namespace FatJar

open Outcome

/-! ## 1. Members, read back -/

namespace Zip

theorem writtenName_written (e : Entry) : writtenName (written e) = writtenName e := by
  have hagain : ∀ name, directoryName (directoryName name) = directoryName name := by
    intro name
    by_cases hends : name.toList.getLast?.any EntryName.isSeparator
    · simp [directoryName, hends]
    · simp [directoryName, hends, EntryName.isSeparator]
  cases hkind : e.kind <;> simp [written, writtenName, hkind, hagain]

theorem writtenPayload_written (e : Entry) : writtenPayload (written e) = writtenPayload e := by
  cases hkind : e.kind <;> simp [written, writtenPayload, hkind]

theorem writtenData_written (e : Entry) : writtenData (written e) = writtenData e := by
  cases hkind : e.kind <;> simp [written, writtenData, writtenPayload, hkind]

/-- An entry is written like the member that it becomes. -/
theorem layout_written (offset : Nat) (entries : List Entry) :
    layout offset (entries.map written) = layout offset entries := by
  induction entries generalizing offset with
  | nil => rfl
  | cons e entries ih =>
    have hheader : ∀ size, headerOf offset size (written e) = headerOf offset size e := by
      intro size
      simp only [headerOf, writtenName_written, writtenPayload_written]
      rfl
    simp only [List.map_cons, layout, writtenData_written, hheader, ih]

theorem containerBytes_written (entries : List Entry) :
    containerBytes (entries.map written) = containerBytes entries := by
  simp only [containerBytes, layout_written, List.length_map]

theorem Fits.written {entries : List Entry} (h : Fits entries) :
    Fits (entries.map Zip.written) where
  names := by simpa [writtenName_written] using h.names
  payloads := by simpa [writtenPayload_written] using h.payloads
  count := by simpa using h.count
  bytes := by simpa [containerBytes_written] using h.bytes

end Zip

namespace Bundler

variable {b : Bundler} {inputs : List Archive} {merged : MergedArchive}

/-- The names of directories end in slashes, and those of files in no separator. -/
def Plain (inputs : List Archive) : Prop :=
  ∀ a ∈ inputs, ∀ e ∈ a.entries,
    e.Slashed ∧ (e.kind = .file → Zip.isDirectoryName e.name = false)

instance (inputs : List Archive) : Decidable (Plain inputs) :=
  inferInstanceAs (Decidable (∀ a ∈ inputs, ∀ e ∈ a.entries,
    e.Slashed ∧ (e.kind = .file → Zip.isDirectoryName e.name = false)))

theorem bundleMembers_regular (h : b.merge inputs = .ok merged) (hplain : Plain inputs) :
    ∀ e ∈ bundleMembers b.manifest merged.entries, e.Regular := by
  have hdirectory : Entry.Regular ⟨"META-INF/", .directory, []⟩ := by decide
  have hmanifest : Entry.Regular ⟨"META-INF/MANIFEST.MF", .file, b.manifest.toBytes⟩ := by
    have hends : Zip.isDirectoryName "META-INF/MANIFEST.MF" = false := by decide
    exact ⟨nofun, nofun, fun _ => hends⟩
  simp only [bundleMembers, List.forall_mem_cons, List.forall_mem_map]
  refine ⟨hdirectory, hmanifest, fun e he => ?_⟩
  obtain ⟨first, -, ⟨a, ha, hfirst⟩, -, hname, hkind, -⟩ := merge_origin h he
  obtain ⟨hslashed, hfile⟩ := hplain a ha first hfirst
  refine ⟨fun hdir => ?_, fun hdir => ?_, fun hfileKind => ?_⟩
  · show e.name.toList.getLast? = some '/'
    rw [← hname]
    exact hslashed (hkind.trans hdir)
  · have hdir : e.kind = .directory := hdir
    simp [hdir]
  · show Zip.isDirectoryName e.name = false
    rw [← hname]
    exact hfile (hkind.trans hfileKind)

/-- The members of a bundle are read back as they are. -/
theorem read_bundleMembers (h : b.merge inputs = .ok merged) (hplain : Plain inputs)
    {read : List Entry} (hread : Zip.ReadsBack merged.writtenEntries read) :
    read = bundleMembers b.manifest merged.entries := by
  have hmembers := written_writtenEntries h fun a ha e he => (hplain a ha e he).1
  have hregular := bundleMembers_regular h hplain
  refine Zip.ReadsBack.eq_of_regular ⟨?_, ?_, hread.kinds⟩ hregular
  · rw [List.map_congr_left fun e he => (hregular e he).slashed.writtenName, ← hmembers,
      List.map_map, hread.names]
    rfl
  · rw [List.map_congr_left fun e he => (hregular e he).writtenPayload, ← hmembers,
      List.map_map, hread.payloads]
    rfl

/-- A bundle whose numbers fit is read back. -/
theorem exists_readsBack (h : b.merge inputs = .ok merged) (hplain : Plain inputs) {bytes : Bytes}
    (hbytes : merged.toBytes = .ok bytes) (hfits : Zip.Fits merged.writtenEntries) :
    ∃ read, Zip.read bytes = .ok read ∧ Zip.ReadsBack merged.writtenEntries read := by
  have hslashed : ∀ a ∈ inputs, ∀ e ∈ a.entries, e.Slashed := fun a ha e he => (hplain a ha e he).1
  obtain ⟨hnames, hcontainer⟩ := toBytes_of_merge h hslashed
  have hregular := bundleMembers_regular h hplain
  rw [hcontainer] at hbytes
  cases hbytes
  rw [← written_writtenEntries h hslashed] at hregular
  have hread := Zip.read_containerBytes hfits.written
    (by simpa [Function.comp_def, Zip.writtenName_written] using hnames) hregular
  rw [Zip.containerBytes_written] at hread
  refine ⟨_, hread, ?_, ?_, fun e he => (hregular e he).kind_iff⟩
  · rw [List.map_map]
    rfl
  · rw [List.map_map]
    rfl

end Bundler

/-! ## 2. Rows -/

namespace Command

theorem inspectEntries_of_forall {entries : List Entry} (m : Option Manifest)
    (h : ∀ e ∈ entries, Manifest.isPath e.name = false) :
    inspectEntries m entries = ⟨entries.map Row.ofEntry, .ok m⟩ := by
  induction entries with
  | nil => rfl
  | cons e entries ih =>
    have hafter : manifestAfter e m = .ok m := by simp [manifestAfter, h e List.mem_cons_self]
    have hrest := ih fun other hother => h other (List.mem_cons_of_mem e hother)
    simp [inspectEntries, hafter, hrest]

variable {b : Bundler} {inputs : List Archive} {merged : MergedArchive} {options : BundleOptions}

/-- Of the members of a bundle each has a row, and the manifest is the bundler's. -/
theorem inspectEntries_bundleMembers (hb : Bundler.ofOptions options = .ok b)
    (h : b.merge inputs = .ok merged) :
    inspectEntries none (bundleMembers b.manifest merged.entries) =
      ⟨(bundleMembers b.manifest merged.entries).map Row.ofEntry, .ok (some b.manifest)⟩ := by
  have hpath : Manifest.isPath "META-INF/MANIFEST.MF" = true := by decide
  have hmanifest : manifestAfter ⟨"META-INF/MANIFEST.MF", .file, b.manifest.toBytes⟩ none =
      .ok (some b.manifest) := by
    simp [manifestAfter, Entry.isDirectory, hpath, (Bundler.manifest_of_ofOptions hb).1, Except.map]
  have hdirectory : manifestAfter ⟨"META-INF/", .directory, []⟩ none = .ok none := by
    simp [manifestAfter, Entry.isDirectory]
  -- no member after the first two has the name of a manifest
  obtain ⟨others, hmembers⟩ : ∃ others, bundleMembers b.manifest merged.entries =
      ⟨"META-INF/", .directory, []⟩ ::
        ⟨"META-INF/MANIFEST.MF", .file, b.manifest.toBytes⟩ :: others := ⟨_, rfl⟩
  have honly := Bundler.filter_isPath_bundleMembers h
  rw [hmembers] at honly ⊢
  have hothers : ∀ e ∈ others, Manifest.isPath e.name = false := by
    have hnone : Manifest.isPath "META-INF/" = false := by decide
    simpa [List.filter_cons, hpath, hnone] using honly
  simp [inspectEntries, hdirectory, hmanifest, inspectEntries_of_forall _ hothers]

/-! ## 3. Inspecting a bundle -/

/-- What is written about the entries of an archive, each on a line of its own. -/
def listing (entries : List Entry) : List Piece :=
  (entries.map Row.ofEntry).flatMap fun row => row.pieces ++ [newline]

variable {t t' : FileTree} {processors : Nat} {sources : List Source} {output : Path}
  {report : BundleReport}

theorem runInspect_of_read {p : Path} {bytes : Bytes} {entries : List Entry} {m : Manifest}
    {rows : List Row}
    (hbytes : t.read p = .ok bytes) (hread : Zip.read bytes = .ok entries)
    (hrows : inspectEntries none entries = ⟨rows, .ok (some m)⟩) :
    runInspect t p = ⟨rows.flatMap (fun row => row.pieces ++ [newline]) ++
      summary rows.length m.mainClass?, [], none, t⟩ := by
  have hsource : (Source.mk .container p).read t = .ok ⟨p.text, entries⟩ := by
    simp [Source.read, Source.entries, hbytes, hread, Except.mapError, bind, Except.bind]
    rfl
  simp [runInspect, inspect, hsource, hrows, Inspection.report, Inspection.mainClass?]

/-- **What `inspect` says about a bundle.** Let the names of directories in the inputs end in
slashes and those of files in no separator. Then a bundle that succeeds has put its archive under
the last name of the output. If the reader of containers gives back the names and the payloads that
were written, `inspect` succeeds on the archive, by any path that leads to it, wherever that starts.
It lists the members of the bundle, which have distinct names, in their order, counts as many as the
report does, and names the entry point of the options as the class to run. -/
theorem inspect_bundle (hb : Bundler.ofOptions options = .ok b)
    (hbundle : b.bundle t processors sources output = (.ok report, t'))
    (hinputs : Reading.readInputs t processors b.options.jobs sources = .ok inputs)
    (hplain : Bundler.Plain inputs) :
    ∃ merged bytes directory name,
      b.merge inputs = .ok merged ∧ merged.toBytes = .ok bytes ∧
      t'.Stands output bytes directory name ∧
      ((bundleMembers b.manifest merged.entries).map (·.name)).Nodup ∧
      (Zip.Fits merged.writtenEntries →
        ∃ read, Zip.read bytes = .ok read ∧ Zip.ReadsBack merged.writtenEntries read) ∧
      ∀ read, Zip.read bytes = .ok read → Zip.ReadsBack merged.writtenEntries read →
        ∀ place p, (t'.seenFrom place).read p = .ok bytes →
          runInspect (t'.seenFrom place) p =
            ⟨listing (bundleMembers b.manifest merged.entries) ++
              summary report.entries (some options.entryPoint), [], none, t'.seenFrom place⟩ := by
  obtain ⟨_, merged, bytes, hsame, hmerged, hbytes, hput, rfl⟩ := Bundler.bundle_eq_ok hbundle
  rw [hinputs] at hsame
  cases hsame
  obtain ⟨directory, name, hstands⟩ := FileTree.stands_of_put hput
  refine ⟨merged, bytes, directory, name, hmerged, hbytes, hstands,
    Bundler.nodup_bundleMembers hmerged, Bundler.exists_readsBack hmerged hplain hbytes, ?_⟩
  intro read hread hback place p hp
  obtain rfl := Bundler.read_bundleMembers hmerged hplain hback
  rw [runInspect_of_read hp hread (inspectEntries_bundleMembers hb hmerged),
    (Bundler.manifest_of_ofOptions hb).2]
  simp [listing, bundleMembers]

theorem small_oneFile (hb : Bundler.ofOptions (.ofEntryPoint "A") = .ok b)
    (h : b.merge [Bundler.oneFile] = .ok merged) :
    Zip.Small merged.writtenEntries ∧ merged.entries = [⟨"x", .file, [0x31], 0⟩] := by
  have hmade : (do
      let b ← (Bundler.ofOptions (.ofEntryPoint "A")).toOption
      let merged ← (b.merge [Bundler.oneFile]).toOption
      return decide (Zip.Small merged.writtenEntries ∧
        merged.entries = [⟨"x", .file, [0x31], 0⟩])) = some true := by decide +kernel
  rw [hb] at hmade
  simp only [Except.toOption, Option.bind_eq_bind, Option.bind_some, h] at hmade
  exact of_decide_eq_true (Option.some.inj hmade)

/-- A bundle of one file, inspected under its name. -/
theorem inspect_bundle_oneFile :
    ∃ b report t', Bundler.ofOptions (.ofEntryPoint "A") = .ok b ∧
      b.bundle Bundler.ownLinkTree 1 [⟨.directory, ⟨"d"⟩⟩] ⟨"a"⟩ = (.ok report, t') ∧
      runInspect t' ⟨"a"⟩ = ⟨listing [⟨"META-INF/", .directory, []⟩,
        ⟨"META-INF/MANIFEST.MF", .file, b.manifest.toBytes⟩, ⟨"x", .file, [0x31]⟩] ++
          summary 3 (some "A"), [], none, t'⟩ := by
  obtain ⟨b, merged, bytes, hb, hmerged, hbytes⟩ := Bundler.exists_bytes_oneFile
  obtain ⟨hsmall, hentries⟩ := small_oneFile hb hmerged
  have hplain : Bundler.Plain [Bundler.oneFile] := by decide
  have hinputs : Reading.readInputs Bundler.ownLinkTree 1 b.options.jobs [⟨.directory, ⟨"d"⟩⟩] =
      .ok [Bundler.oneFile] := Bundler.readInputs_ownLinkTree 1 b.options.jobs
  have hput := Bundler.putAtomically_ownLinkTree bytes
  have hfound : ((Bundler.ownLinkTree.put ["a"] (.file bytes)).seenFrom []).read ⟨"a"⟩ =
      .ok bytes := by
    have ha : FileTree.ReadsAs ⟨"a"⟩ ["a"] := ⟨rfl, rfl, rfl, rfl⟩
    rw [FileTree.read, ha.resolve_of_walks
      (.enter rfl ⟨by decide, by decide⟩ rfl rfl (by simp) .nil)]
    rfl
  have hbundle := Bundler.bundle_of_put hinputs hmerged hbytes hput
  obtain ⟨merged', bytes', directory, name, hmerged', hbytes', -, -, hreadable, hinspect⟩ :=
    inspect_bundle hb hbundle hinputs hplain
  rw [hmerged] at hmerged'
  cases hmerged'
  rw [hbytes] at hbytes'
  cases hbytes'
  obtain ⟨read, hread, hback⟩ := hreadable hsmall.fits
  have hrun := hinspect read hread hback [] ⟨"a"⟩ hfound
  rw [hentries] at hrun hbundle
  exact ⟨b, _, _, hb, hbundle, hrun⟩

end Command

end FatJar
