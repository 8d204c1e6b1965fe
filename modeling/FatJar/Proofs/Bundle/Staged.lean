/-
FatJar.Proofs.Bundle.Staged — bundling in stages.

A bundle can be an input of another bundle. Merging it with further archives
gives what merging its own inputs with them gives (`merge_staged`), whatever the
policy is.

The first stage is written and read back, and taken as one archive it fills an
empty table with just its entries: their names are valid, survive and are
distinct, and the two members that were put in front of them are left out again.
From there on the two runs are in lockstep. Their tables have the same entries up
to the sources, and these are looked at for errors only.

Contents:
1. what is read back;
2. the bundle as an archive;
3. tables with the same content;
4. stages.
-/
import FatJar.Proofs.Bundle.Listing
import FatJar.Proofs.Merge.Lockstep

namespace FatJar

open Outcome

/-! ## 1. Reading back -/

namespace Zip

/-- The entries that a reader gets back for the written ones: in their order, with the names and
payloads that were written, and directories where the names say so. -/
structure ReadsBack (written read : List Entry) : Prop where
  names : read.map (·.name) = written.map writtenName
  payloads : read.map (·.payload) = written.map writtenPayload
  kinds : ∀ e ∈ read, e.kind = .directory ↔ isDirectoryName e.name = true

theorem ReadsBack.of_regular {entries : List Entry} (h : ∀ e ∈ entries, e.Regular) :
    ReadsBack entries entries where
  names := List.map_congr_left fun e he => (h e he).slashed.writtenName.symm
  payloads := List.map_congr_left fun e he => (h e he).writtenPayload.symm
  kinds := fun e he => (h e he).kind_iff

/-- Regular entries are read back as they are. -/
theorem ReadsBack.eq_of_regular {written read : List Entry} (h : ReadsBack written read)
    (hregular : ∀ e ∈ written, e.Regular) : read = written := by
  induction written generalizing read with
  | nil => simpa using h.names
  | cons w written ih =>
    cases read with
    | nil => simpa using h.names
    | cons e read =>
      have hnames := h.names
      have hpayloads := h.payloads
      simp only [List.map_cons, List.cons.injEq] at hnames hpayloads
      have hw := hregular w List.mem_cons_self
      have hname : e.name = w.name := hnames.1.trans hw.slashed.writtenName
      have hpayload : e.payload = w.payload := hpayloads.1.trans hw.writtenPayload
      have hkind : e.kind = .directory ↔ w.kind = .directory := by
        rw [hw.kind_iff, ← hname]
        exact h.kinds e List.mem_cons_self
      have hrest := ih ⟨hnames.2, hpayloads.2, fun e he => h.kinds e (List.mem_cons_of_mem _ he)⟩
        fun e he => hregular e (List.mem_cons_of_mem _ he)
      obtain ⟨name, kind, payload⟩ := e
      obtain ⟨name', kind', payload'⟩ := w
      simp only at hname hpayload hkind
      subst hname hpayload hrest
      cases kind <;> cases kind' <;> simp at hkind ⊢

end Zip

/-! ## 2. The bundle as an archive -/

namespace Bundler

variable {b : Bundler} {source : Nat} {label : String} {seen : List String} {t : MergeTable}

/-- Entries that can only be appended: their names are valid, survive, are distinct and are new,
both in their archive and in the table. -/
structure Fresh (b : Bundler) (seen : List String) (t : MergeTable) (entries : List Entry) :
    Prop where
  valid : ∀ e ∈ entries, EntryName.fault? e.name = none
  survives : ∀ e ∈ entries, b.survives e.name = true
  distinct : (entries.map (·.name)).Nodup
  unseen : ∀ e ∈ entries, e.name ∉ seen
  new : ∀ e ∈ entries, e.name ∉ t.entries.map (·.name)

namespace Fresh

variable {e : Entry} {entries : List Entry}

theorem take (h : Fresh b seen t (e :: entries)) :
    b.take source label seen e t = .ok (t.append ⟨e.name, e.kind, e.payload, source⟩) := by
  have hvalid := h.valid e List.mem_cons_self
  have hunseen := h.unseen e List.mem_cons_self
  have hfault : entryFault? seen e = none := by simp [entryFault?, hvalid, hunseen]
  have hfind : t.find? e.name = none :=
    MergeTable.find?_eq_none_iff.mpr (h.new e List.mem_cons_self)
  obtain ⟨hpath, hdirectory, hexcluded⟩ := survives_iff.mp (h.survives e List.mem_cons_self)
  simp [Bundler.take, hfault, hpath, hdirectory, hexcluded, MergeTable.add, hfind]

theorem tail (h : Fresh b seen t (e :: entries)) :
    Fresh b (e.name :: seen) (t.append ⟨e.name, e.kind, e.payload, source⟩) entries := by
  obtain ⟨hfirst, hdistinct⟩ := List.nodup_cons.mp h.distinct
  have hne : ∀ other ∈ entries, other.name ≠ e.name := fun other hother heq =>
    hfirst (List.mem_map.mpr ⟨other, hother, heq⟩)
  refine ⟨?_, ?_, hdistinct, ?_, ?_⟩
  · exact fun other hother => h.valid other (List.mem_cons_of_mem _ hother)
  · exact fun other hother => h.survives other (List.mem_cons_of_mem _ hother)
  · intro other hother
    have hold := h.unseen other (List.mem_cons_of_mem _ hother)
    simp [hne other hother, hold]
  · intro other hother
    have hold := h.new other (List.mem_cons_of_mem _ hother)
    simp only [MergeTable.append, List.map_append, List.mem_append, not_or]
    exact ⟨hold, by simp [hne other hother]⟩

theorem takeEntries (h : Fresh b seen t entries) :
    b.takeEntries source label seen entries t =
      .ok { t with entries := t.entries ++
        entries.map fun e => ⟨e.name, e.kind, e.payload, source⟩ } := by
  induction entries generalizing seen t with
  | nil => simp [Bundler.takeEntries]
  | cons e rest ih =>
    rw [Bundler.takeEntries, h.take]
    have hrest := ih (h.tail : Fresh b _ (t.append ⟨e.name, e.kind, e.payload, source⟩) rest)
    simpa [MergeTable.append, bind, Except.bind] using hrest

end Fresh

/-- The names that a merge has taken are valid. -/
theorem merge_fault? {inputs : List Archive} {m : MergedArchive} (h : b.merge inputs = .ok m)
    {e : MergedEntry} (he : e ∈ m.entries) : EntryName.fault? e.name = none := by
  have hvalid : ∀ o ∈ occurrencesFrom 0 inputs, EntryName.fault? o.name = none := by
    refine merge_invariant (P := fun done _ => ∀ o ∈ done, EntryName.fault? o.name = none) ?_
      (by simp) h
    intro source label seen e done t t' htake hdone o ho
    rcases List.mem_append.mp ho with hold | hlast
    · exact hdone o hold
    · cases List.mem_singleton.mp hlast
      have hfault := (take_cases htake).1
      show EntryName.fault? e.name = none
      cases hname : EntryName.fault? e.name with
      | none => rfl
      | some fault => simp [entryFault?, hname] at hfault
  obtain ⟨o, ho, hname⟩ :=
    List.mem_map.mp ((merge_tabulates h).mem_names.mp (List.mem_map_of_mem he))
  rw [← hname]
  exact hvalid o (List.mem_filter.mp ho).1

/-- Regular inputs are merged into regular entries. -/
theorem merge_regular {inputs : List Archive} {m : MergedArchive} (h : b.merge inputs = .ok m)
    (hregular : ∀ a ∈ inputs, ∀ e ∈ a.entries, e.Regular) {e : MergedEntry}
    (he : e ∈ m.entries) : e.toEntry.Regular := by
  obtain ⟨first, kept, ⟨a, ha, hfirst⟩, ⟨a', ha', hkept⟩, hname, hkind, hname', hpayload, hor⟩ :=
    merge_origin h he
  have hfirst := hregular a ha first hfirst
  refine ⟨fun hdirectory => ?_, fun hdirectory => ?_, fun hfile => ?_⟩
  · show e.name.toList.getLast? = some '/'
    rw [← hname]
    exact hfirst.slashed (hkind.trans hdirectory)
  · show e.payload = []
    rw [← hpayload]
    rcases hor with rfl | hfile
    · exact hfirst.empty (hkind.trans hdirectory)
    · -- a file of this name would not be regular, since the name ends in a slash
      have hends := hfirst.slashed.isDirectoryName (hkind.trans hdirectory)
      rw [hname, ← hname', (hregular a' ha' kept hkept).file hfile] at hends
      cases hends
  · show Zip.isDirectoryName e.name = false
    rw [← hname]
    exact hfirst.file (hkind.trans hfile)

theorem writtenEntries_regular {inputs : List Archive} {m : MergedArchive}
    (h : b.merge inputs = .ok m) (hregular : ∀ a ∈ inputs, ∀ e ∈ a.entries, e.Regular) :
    ∀ e ∈ m.writtenEntries, e.Regular := by
  have hdirectory : (Entry.directory Manifest.directory).Regular := by decide
  have hmanifest : (Entry.file Manifest.path m.manifest.toBytes).Regular := by
    have hends : Zip.isDirectoryName Manifest.path = false := by decide
    refine ⟨fun hkind => ?_, fun hkind => ?_, fun _ => hends⟩
    · cases hkind
    · cases hkind
  simp only [MergedArchive.writtenEntries, List.forall_mem_cons, List.forall_mem_map]
  exact ⟨hdirectory, hmanifest, fun e he => merge_regular h hregular he⟩

/-! The two members that are put in front of a bundle leave nothing in a table but a count. -/

theorem take_manifestDirectory (label : String) (t : MergeTable) :
    b.take source label [] (.directory Manifest.directory) t = .ok t := by
  have hfault : entryFault? [] (Entry.directory Manifest.directory) = none := by decide
  have hpath : Manifest.isPath (Entry.directory Manifest.directory).name = false := by decide
  have hname : Manifest.isDirectory (Entry.directory Manifest.directory).name = true := by decide
  simp [take, hfault, hpath, hname]

theorem take_manifest (label : String) (payload : Bytes) (t : MergeTable) :
    b.take source label [Manifest.directory] (.file Manifest.path payload) t =
      .ok t.countManifest := by
  have hvalid : EntryName.fault? Manifest.path = none := by decide
  have hne : Manifest.path ≠ Manifest.directory := by decide
  have hpath : Manifest.isPath Manifest.path = true := by decide
  simp [take, entryFault?, Entry.file, hvalid, hne, hpath]

section Stage

variable {inputs : List Archive} {m : MergedArchive}

/-- The entries of a bundle have yet to come after its first two members. -/
theorem fresh_of_merge (h : b.merge inputs = .ok m) :
    Fresh b [Manifest.path, Manifest.directory] MergeTable.empty.countManifest
      (m.entries.map MergedEntry.toEntry) := by
  have hdistinct := nodup_bundleMembers h
  rw [names_bundleMembers, List.nodup_cons, List.nodup_cons, List.mem_cons, not_or] at hdistinct
  obtain ⟨⟨-, hnotDirectory⟩, hnotPath, hdistinct⟩ := hdistinct
  refine ⟨?_, ?_, ?_, ?_, fun e _ => List.not_mem_nil⟩
  · rw [List.forall_mem_map]
    exact fun e he => merge_fault? h he
  · rw [List.forall_mem_map]
    exact fun e he => merge_survives h he
  · rw [List.map_map]
    exact hdistinct
  · rw [List.forall_mem_map]
    intro e he
    have hname : e.name ∈ m.entries.map (·.name) := List.mem_map_of_mem he
    simp only [List.mem_cons, List.not_mem_nil, or_false, not_or]
    exact ⟨fun heq => hnotPath (heq ▸ hname), fun heq => hnotDirectory (heq ▸ hname)⟩

/-- The table after a bundle has been taken as the first archive. -/
def stageTable (m : MergedArchive) : MergeTable where
  entries := m.entries.map fun e => { e with source := 0 }
  stats := { duplicatesResolved := 0, excluded := 0, manifestsReplaced := 1 }

theorem toEntry_stageTable (m : MergedArchive) :
    (stageTable m).entries.map MergedEntry.toEntry = m.entries.map MergedEntry.toEntry := by
  simp only [stageTable, List.map_map]
  rfl

theorem takeEntries_writtenEntries (h : b.merge inputs = .ok m) (label : String) :
    b.takeEntries 0 label [] m.writtenEntries .empty = .ok (stageTable m) := by
  rw [MergedArchive.writtenEntries, takeEntries, take_manifestDirectory]
  show (b.take 0 label [Manifest.directory] _ .empty >>= _) = _
  rw [take_manifest]
  show b.takeEntries 0 label [Manifest.path, Manifest.directory] _ _ = _
  rw [(fresh_of_merge h).takeEntries]
  simp [stageTable, MergeTable.empty, MergeTable.countManifest, MergeStats.zero,
    MergedEntry.toEntry]

end Stage

end Bundler

/-! ## 3. Tables with the same content -/

/-- Tables with the same entries, whatever inputs these come from. -/
def SameContent (t u : MergeTable) : Prop :=
  t.entries.map MergedEntry.toEntry = u.entries.map MergedEntry.toEntry

namespace SameContent

variable {t u : MergeTable}

theorem names (h : SameContent t u) : t.entries.map (·.name) = u.entries.map (·.name) := by
  have hnames := congrArg (List.map Entry.name) h
  simpa [Function.comp_def, MergedEntry.toEntry] using hnames

theorem append (h : SameContent t u) (e : Entry) (source source' : Nat) :
    SameContent (t.append ⟨e.name, e.kind, e.payload, source⟩)
      (u.append ⟨e.name, e.kind, e.payload, source'⟩) := by
  unfold SameContent at *
  simp [MergeTable.append, h, MergedEntry.toEntry]

/-- Replacing a payload is seen in the entries alone. -/
theorem entries_replace (name : String) (payload : Bytes) (source : Nat) :
    (t.replace name payload source).entries.map MergedEntry.toEntry =
      (t.entries.map MergedEntry.toEntry).map fun e =>
        if e.name == name then { e with payload } else e := by
  simp only [MergeTable.replace, List.map_map]
  apply List.map_congr_left
  intro e _
  by_cases hname : e.name = name <;> simp [MergedEntry.toEntry, hname]

theorem replace (h : SameContent t u) (name : String) (payload : Bytes) (source source' : Nat) :
    SameContent (t.replace name payload source) (u.replace name payload source') := by
  unfold SameContent at *
  rw [entries_replace, entries_replace, h]

theorem add (h : SameContent t u) (policy : DuplicatePolicy) (source source' : Nat) (e : Entry) :
    Alike (fun _ _ => True) SameContent (t.add policy source e) (u.add policy source' e) := by
  refine MergeTable.add_alike h.names (h.append e source source') h ?_
  intro earlier other ht hu hkind
  simp only [MergeTable.add, ht, hu, hkind]
  cases policy with
  | firstWins => exact h
  | lastWins => exact h.replace e.name e.payload source source'
  | error => trivial

end SameContent

namespace Bundler

theorem lockstep_sameContent (b : Bundler) (shift : Nat) :
    Lockstep b b shift (fun _ _ => True) SameContent where
  excluded := fun _ => rfl
  fault := fun _ _ _ => trivial
  countManifest := fun h => h
  countExcluded := fun h => h
  add := fun source e h => h.add b.options.policy source (source + shift) e

/-! ## 4. Stages -/

variable {b : Bundler} {xs : List Archive} {m : MergedArchive} {o : Archive}

theorem takeArchives_append (xs ys : List Archive) (source : Nat) (t : MergeTable) :
    b.takeArchives source (xs ++ ys) t =
      (b.takeArchives source xs t >>= b.takeArchives (source + xs.length) ys) := by
  induction xs generalizing source t with
  | nil => rfl
  | cons a rest ih =>
    rw [List.cons_append, takeArchives, takeArchives]
    cases b.takeEntries source a.label [] a.entries t with
    | error e => rfl
    | ok next =>
      show b.takeArchives (source + 1) (rest ++ ys) next = _
      rw [ih, List.length_cons, Nat.add_right_comm, Nat.add_assoc]
      rfl

/-- Merging further archives with a bundle ends as merging them with its inputs. -/
theorem alike_of_stage (h : b.merge xs = .ok m) (ho : o.entries = m.writtenEntries)
    (ys : List Archive) : Alike (fun _ _ => True)
      (fun s f => s.entries.map MergedEntry.toEntry = f.entries.map MergedEntry.toEntry)
      (b.merge (o :: ys)) (b.merge (xs ++ ys)) := by
  obtain ⟨t, hrun, hm⟩ := merge_eq_ok h
  have hne : xs ≠ [] := by
    rintro rfl
    cases h
  have hstart : SameContent (stageTable m) t := by
    rw [SameContent, toEntry_stageTable, hm]
  have hrest := (b.lockstep_sameContent (xs.length - 1)).takeArchives ys 1 hstart
  have hlength : 1 + (xs.length - 1) = xs.length := by
    have := List.length_pos_iff.mpr hne
    omega
  rw [hlength] at hrest
  have hflat : b.takeArchives 0 (xs ++ ys) .empty = b.takeArchives xs.length ys t := by
    rw [takeArchives_append, hrun, Nat.zero_add]
    rfl
  have hstaged : b.takeArchives 0 (o :: ys) .empty = b.takeArchives 1 ys (stageTable m) := by
    rw [takeArchives, ho, takeEntries_writtenEntries h]
    rfl
  rw [merge, if_neg (by simp), merge, if_neg (by simp [hne]), hflat, hstaged]
  exact hrest.bind fun t u htu => htu

/-- **Bundling in stages.** Let regular archives `xs` be merged and the result be written and read
back as `o`. Then `o` can be merged with further archives exactly when `xs` can, and the entries
are the same. Merged alone, `o` gives its entries again: nothing is left out but the manifest, and
there are no duplicates. The writing always succeeds, and what is read from the bytes is such an
`o` if they can be written with the numbers of a container. -/
theorem merge_staged (hregular : ∀ a ∈ xs, ∀ e ∈ a.entries, e.Regular) (h : b.merge xs = .ok m)
    (ho : Zip.ReadsBack m.writtenEntries o.entries) (ys : List Archive) :
    ((∃ s, b.merge (o :: ys) = .ok s) ↔ ∃ f, b.merge (xs ++ ys) = .ok f) ∧
    (∀ s f, b.merge (o :: ys) = .ok s → b.merge (xs ++ ys) = .ok f →
      s.entries.map MergedEntry.toEntry = f.entries.map MergedEntry.toEntry) ∧
    (∃ r, b.merge [o] = .ok r ∧
      r.entries.map MergedEntry.toEntry = m.entries.map MergedEntry.toEntry ∧
      r.stats = { duplicatesResolved := 0, excluded := 0, manifestsReplaced := 1 }) ∧
    (∃ bytes, m.toBytes = .ok bytes ∧
      (Zip.Fits m.writtenEntries →
        ∃ read, Zip.read bytes = .ok read ∧ Zip.ReadsBack m.writtenEntries read)) := by
  have hwritten := writtenEntries_regular h hregular
  have hentries : o.entries = m.writtenEntries := ho.eq_of_regular hwritten
  have halike := alike_of_stage h hentries ys
  obtain ⟨hnames, hbytes⟩ := toBytes_of_merge h fun a ha e he => (hregular a ha e he).slashed
  have halone : b.merge [o] = .ok ⟨b.manifest, (stageTable m).entries, (stageTable m).stats⟩ := by
    rw [merge, if_neg (by simp), takeArchives, hentries, takeEntries_writtenEntries h]
    rfl
  refine ⟨halike.exists_ok_iff, fun s f hs hf => halike.related hs hf,
    ⟨_, halone, toEntry_stageTable m, rfl⟩, _, hbytes, fun hfits => ?_⟩
  exact ⟨_, Zip.read_containerBytes hfits hnames hwritten, .of_regular hwritten⟩

/-- The bundle of the overlapping inputs, read back, and one more archive that overlaps them. -/
theorem merge_staged_overlapping :
    let o : Archive := ⟨"o.jar", overlappingMerged.writtenEntries⟩
    let ys : List Archive := [⟨"c.jar", [.file "x" [3], .file "y" [4], .directory "d"]⟩]
    (∀ a ∈ overlappingInputs, ∀ e ∈ a.entries, e.Regular) ∧
    bareBundler.merge overlappingInputs = .ok overlappingMerged ∧
    Zip.ReadsBack overlappingMerged.writtenEntries o.entries ∧
    (∃ bytes, overlappingMerged.toBytes = .ok bytes ∧
      ∃ read, Zip.read bytes = .ok read ∧ Zip.ReadsBack overlappingMerged.writtenEntries read) ∧
    ∃ s f, bareBundler.merge (o :: ys) = .ok s ∧
      bareBundler.merge (overlappingInputs ++ ys) = .ok f ∧
      s.entries.map MergedEntry.toEntry = f.entries.map MergedEntry.toEntry ∧
      s.entries.map (·.name) = ["d/", "x", "y"] := by
  intro o ys
  have hregular : ∀ a ∈ overlappingInputs, ∀ e ∈ a.entries, e.Regular := by decide
  have hback : Zip.ReadsBack overlappingMerged.writtenEntries o.entries :=
    .of_regular (writtenEntries_regular merge_overlappingInputs hregular)
  obtain ⟨hboth, hsame, -, bytes, hbytes, hread⟩ :=
    merge_staged hregular merge_overlappingInputs hback ys
  have hstaged : ((bareBundler.merge (o :: ys)).toOption.map fun s => s.entries.map (·.name)) =
      some ["d/", "x", "y"] := by decide +kernel
  obtain ⟨s, hs, hnames⟩ := Option.map_eq_some_iff.mp hstaged
  have hs := eq_ok_of_toOption hs
  obtain ⟨f, hf⟩ := hboth.mp ⟨s, hs⟩
  exact ⟨hregular, merge_overlappingInputs, hback, ⟨bytes, hbytes, hread fits_overlappingMerged⟩,
    s, f, hs, hf, hsame s f hs hf, hnames⟩

end Bundler

end FatJar
