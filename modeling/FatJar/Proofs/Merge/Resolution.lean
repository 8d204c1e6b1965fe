/-
FatJar.Proofs.Merge.Resolution — which entries a merged archive has.

The merged entries are described by the occurrences that survive, without the
table: their names are the names of these occurrences without repetitions, in
the order in which they first occur, and each entry is made from the occurrences
of its name. The kind is that of the first of them. Payload and source are those
of the winner, which is the first occurrence too, or, where the last one wins,
the last file after it.

Contents:
1. the entry that the occurrences of a name make;
2. how one more occurrence changes it;
3. `Tabulates`, which relates entries to occurrences, is preserved by a step;
4. the entries of a merged archive (`merge_entries_occurrences`).
-/
import FatJar.Proofs.Merge.Step

namespace FatJar

open Outcome

/-! ## 1. The occurrences of a name -/

namespace Occurrence

/-- The occurrences of a name. -/
def named (name : String) (occurrences : List Occurrence) : List Occurrence :=
  occurrences.filter fun o => o.name == name

/-- The first occurrence and, after it, the later ones that are files. -/
def candidates (first : Occurrence) (later : List Occurrence) : List Occurrence :=
  first :: later.filter isFile

/-- The occurrence whose payload is kept. -/
def winner (policy : DuplicatePolicy) (first : Occurrence) (later : List Occurrence) :
    Occurrence :=
  match policy with
  | .firstWins | .error => first
  | .lastWins => (candidates first later).getLast (by simp [candidates])

/-- The merged entry that the occurrences of one name make. -/
def resolve? (policy : DuplicatePolicy) : List Occurrence → Option MergedEntry
  | [] => none
  | first :: later =>
    let kept := winner policy first later
    some ⟨first.name, first.entry.kind, kept.entry.payload, kept.source⟩

variable {policy : DuplicatePolicy} {occurrences : List Occurrence} {o : Occurrence}
  {name : String} {e : MergedEntry}

/-! ## 2. One more occurrence -/

theorem named_append_self :
    named o.name (occurrences ++ [o]) = named o.name occurrences ++ [o] := by
  simp [named]

theorem named_append_ne (h : o.name ≠ name) :
    named name (occurrences ++ [o]) = named name occurrences := by
  simp [named, h]

theorem mem_named : o ∈ named name occurrences ↔ o ∈ occurrences ∧ o.name = name := by
  simp [named]

/-- A name without an occurrence has no occurrences. -/
theorem named_eq_nil (h : name ∉ occurrences.map (·.name)) : named name occurrences = [] := by
  rw [named, List.filter_eq_nil_iff]
  intro o ho hname
  exact h (List.mem_map.mpr ⟨o, ho, by simpa using hname⟩)

/-- A single occurrence makes an entry of its own. -/
theorem resolve?_singleton :
    resolve? policy [o] = some ⟨o.name, o.entry.kind, o.entry.payload, o.source⟩ := by
  cases policy <;> rfl

/-- A further directory changes nothing. -/
theorem resolve?_append_directory (ho : o.isFile = false)
    (h : resolve? policy occurrences = some e) :
    resolve? policy (occurrences ++ [o]) = some e := by
  cases occurrences with
  | nil => cases h
  | cons first later =>
    rw [← h]
    simp only [List.cons_append, resolve?, winner, candidates, List.filter_append,
      List.filter_cons, List.filter_nil, ho, Bool.false_eq_true, if_false, List.append_nil]

/-- A further occurrence changes nothing unless the last one wins. -/
theorem resolve?_append_of_ne_lastWins (hpolicy : policy ≠ .lastWins)
    (h : resolve? policy occurrences = some e) :
    resolve? policy (occurrences ++ [o]) = some e := by
  cases occurrences with
  | nil => cases h
  | cons first later =>
    rw [← h]
    cases policy with
    | lastWins => exact absurd rfl hpolicy
    | firstWins => rfl
    | error => rfl

/-- A further file is the last candidate. -/
theorem candidates_append_file (first : Occurrence) (later : List Occurrence)
    (ho : o.isFile = true) : candidates first (later ++ [o]) = candidates first later ++ [o] := by
  simp [candidates, ho]

/-- Where the last one wins, a further file brings its payload and source. -/
theorem resolve?_append_file (ho : o.isFile = true)
    (h : resolve? .lastWins occurrences = some e) :
    resolve? .lastWins (occurrences ++ [o]) =
      some { e with payload := o.entry.payload, source := o.source } := by
  cases occurrences with
  | nil => cases h
  | cons first later =>
    cases h
    have hwinner : winner .lastWins first (later ++ [o]) = o := by
      simp only [winner, candidates_append_file first later ho, List.getLast_concat]
    simp only [List.cons_append, resolve?, hwinner]

end Occurrence

/-! ## 3. Entries made from occurrences -/

open Occurrence

/-- The entries are what the occurrences make: one for each name, in the order in which the names
first occur. -/
structure Tabulates (policy : DuplicatePolicy) (occurrences : List Occurrence)
    (entries : List MergedEntry) : Prop where
  names : entries.map (·.name) = (occurrences.map (·.name)).eraseDups
  resolved : ∀ e ∈ entries, resolve? policy (named e.name occurrences) = some e

/-- Erasing repetitions leaves none. -/
theorem nodup_eraseDups (names : List String) : names.eraseDups.Nodup := by
  -- What is left after the first name is shorter than the list, but it is no tail of it.
  induction hn : names.length using Nat.strongRecOn generalizing names with
  | _ n ih =>
    cases names with
    | nil => exact List.nodup_nil
    | cons name rest =>
      rw [List.eraseDups_cons]
      have hlen : (rest.filter fun other => !other == name).length < n := by
        have := List.length_filter_le (fun other => !other == name) rest
        simp only [List.length_cons] at hn
        omega
      refine List.nodup_cons.mpr ⟨?_, ih _ hlen _ rfl⟩
      rw [List.mem_eraseDups]
      simp

namespace Tabulates

variable {policy : DuplicatePolicy} {occurrences : List Occurrence} {o : Occurrence}
  {entries : List MergedEntry} {t t' : MergeTable}

/-- No occurrences make no entries. -/
theorem nil : Tabulates policy [] [] :=
  ⟨rfl, fun _ he => by cases he⟩

/-- The names of the entries are those of the occurrences. -/
theorem mem_names (h : Tabulates policy occurrences entries) {name : String} :
    name ∈ entries.map (·.name) ↔ name ∈ occurrences.map (·.name) := by
  rw [h.names, List.mem_eraseDups]

/-- Every name is in the entries once. -/
theorem nodup (h : Tabulates policy occurrences entries) : (entries.map (·.name)).Nodup := by
  rw [h.names]
  exact nodup_eraseDups _

/-- An entry has its kind from the first occurrence of its name. Payload and source are those of the
same one or, where the last one wins, of a file after it. -/
theorem origin (h : Tabulates policy occurrences entries) {e : MergedEntry} (he : e ∈ entries) :
    ∃ first later kept, named e.name occurrences = first :: later ∧
      first.entry.kind = e.kind ∧ kept.entry.payload = e.payload ∧ kept.source = e.source ∧
      (kept = first ∨ policy = .lastWins ∧ kept ∈ later ∧ kept.isFile = true) := by
  have hresolved := h.resolved e he
  cases hnamed : named e.name occurrences with
  | nil =>
    rw [hnamed] at hresolved
    cases hresolved
  | cons first later =>
    rw [hnamed, resolve?, Option.some.injEq] at hresolved
    refine ⟨first, later, winner policy first later, rfl, by rw [← hresolved],
      by rw [← hresolved], by rw [← hresolved], ?_⟩
    cases policy with
    | lastWins =>
      have hkept : winner .lastWins first later ∈ candidates first later := List.getLast_mem _
      rcases List.mem_cons.mp hkept with hsame | hlater
      · exact .inl hsame
      · exact .inr ⟨rfl, List.mem_filter.mp hlater⟩
    | firstWins => exact .inl rfl
    | error => exact .inl rfl

/-- An occurrence of a new name makes an entry at the end. -/
theorem append_new (h : Tabulates policy occurrences entries)
    (hnew : o.name ∉ entries.map (·.name)) :
    Tabulates policy (occurrences ++ [o])
      (entries ++ [⟨o.name, o.entry.kind, o.entry.payload, o.source⟩]) where
  names := by
    have hnew' : o.name ∉ occurrences.map (·.name) := fun hmem => hnew (h.mem_names.mpr hmem)
    rw [List.map_append, List.map_append, List.eraseDups_append, h.names]
    simp only [List.map_cons, List.map_nil, List.cons_removeAll, List.contains_eq_mem, hnew',
      decide_false, if_true]
    rfl
  resolved := by
    intro e he
    rcases List.mem_append.mp he with hold | hlast
    · have hne : o.name ≠ e.name := fun heq => hnew (heq ▸ List.mem_map_of_mem hold)
      rw [named_append_ne hne]
      exact h.resolved e hold
    · cases List.mem_singleton.mp hlast
      have hnone : named o.name occurrences = [] :=
        named_eq_nil fun hmem => hnew (h.mem_names.mpr hmem)
      rw [named_append_self, hnone]
      exact resolve?_singleton

/-- A further occurrence of a name adds no name. -/
theorem names_append_known (h : Tabulates policy occurrences entries)
    (hknown : o.name ∈ entries.map (·.name)) :
    entries.map (·.name) = ((occurrences ++ [o]).map (·.name)).eraseDups := by
  have hmem : o.name ∈ occurrences.map (·.name) := h.mem_names.mp hknown
  rw [List.map_append, List.eraseDups_append, h.names]
  simp only [List.map_cons, List.map_nil, List.cons_removeAll, List.contains_eq_mem, hmem,
    decide_true, Bool.true_eq_false, if_false]
  exact (List.append_nil _).symm

/-- A further occurrence that changes no entry of its name changes nothing. -/
theorem append_known (h : Tabulates policy occurrences entries)
    (hknown : o.name ∈ entries.map (·.name))
    (hkeep : ∀ e, resolve? policy (named o.name occurrences) = some e →
      resolve? policy (named o.name occurrences ++ [o]) = some e) :
    Tabulates policy (occurrences ++ [o]) entries where
  names := h.names_append_known hknown
  resolved := by
    intro e he
    by_cases hname : o.name = e.name
    · rw [← hname, named_append_self]
      exact hkeep e (hname ▸ h.resolved e he)
    · rw [named_append_ne hname]
      exact h.resolved e he

/-- Where the last one wins, a further file replaces the payload and the source of its entry. -/
theorem append_replaced (h : Tabulates .lastWins occurrences t.entries) (ho : o.isFile = true)
    (hknown : o.name ∈ t.entries.map (·.name)) :
    Tabulates .lastWins (occurrences ++ [o])
      (t.replace o.name o.entry.payload o.source).entries where
  names := by
    have hsame : (t.replace o.name o.entry.payload o.source).entries.map (·.name) =
        t.entries.map (·.name) := by
      simp only [MergeTable.replace, List.map_map]
      apply List.map_congr_left
      intro e _
      simp only [Function.comp_apply]
      split <;> rfl
    rw [hsame]
    exact h.names_append_known hknown
  resolved := by
    intro e he
    obtain ⟨old, hold, rfl⟩ := List.mem_map.mp he
    by_cases hname : old.name = o.name
    · simp only [hname, beq_self_eq_true, if_true]
      rw [named_append_self]
      have hold' := h.resolved old hold
      rw [hname] at hold'
      rw [resolve?_append_file ho hold', hname]
    · simp only [beq_iff_eq, hname, if_false]
      rw [named_append_ne (Ne.symm hname)]
      exact h.resolved old hold

/-- Adding an entry that survives makes the table of one more occurrence. -/
theorem add (hadd : t.add policy o.source o.entry = .ok t')
    (h : Tabulates policy occurrences t.entries) :
    Tabulates policy (occurrences ++ [o]) t'.entries := by
  obtain ⟨hnone, rfl⟩ | ⟨hsome, hkind, rfl⟩ | ⟨hsome, hkind, rfl, rfl⟩ |
    ⟨hsome, hkind, rfl, rfl⟩ := MergeTable.add_cases hadd
  · exact h.append_new (MergeTable.find?_eq_none_iff.mp hnone)
  · refine h.append_known (MergeTable.find?_isSome_iff.mp hsome) fun e he => ?_
    exact resolve?_append_directory (by simp [Occurrence.isFile, hkind]) he
  · refine h.append_known (MergeTable.find?_isSome_iff.mp hsome) fun e he => ?_
    exact resolve?_append_of_ne_lastWins (by simp) he
  · exact h.append_replaced (by simp [Occurrence.isFile, hkind])
      (MergeTable.find?_isSome_iff.mp hsome)

/-- Taking an entry makes the table of the occurrences that survive so far. -/
theorem take {b : Bundler} {source : Nat} {label : String} {seen : List String} {e : Entry}
    {done : List Occurrence} (htake : b.take source label seen e t = .ok t')
    (h : Tabulates b.options.policy (done.filter fun o => b.survives o.name) t.entries) :
    Tabulates b.options.policy
      ((done ++ [Occurrence.mk source e]).filter fun o => b.survives o.name) t'.entries := by
  cases hs : b.survives e.name with
  | false =>
    have hname : b.survives (Occurrence.name ⟨source, e⟩) = false := hs
    rw [Bundler.take_entries_of_not_survives htake hs, List.filter_append]
    simpa [hname] using h
  | true =>
    have hname : b.survives (Occurrence.name ⟨source, e⟩) = true := hs
    have hadd : t.add b.options.policy (Occurrence.mk source e).source
        (Occurrence.mk source e).entry = .ok t' := Bundler.take_eq_add_of_survives htake hs
    rw [List.filter_append]
    simpa [hname] using add hadd h

end Tabulates

/-! ## 4. Merged archives -/

/-- The merged entries are what the surviving occurrences make. -/
theorem Bundler.merge_tabulates {b : Bundler} {inputs : List Archive} {m : MergedArchive}
    (h : b.merge inputs = .ok m) :
    Tabulates b.options.policy (b.survivors inputs) m.entries :=
  Bundler.merge_invariant
    (P := fun done t =>
      Tabulates b.options.policy (done.filter fun o => b.survives o.name) t.entries)
    Tabulates.take Tabulates.nil h

/-- **The entries of a merged archive.** Their names are those of the entries that survive, each
once and in the order in which they first occur. Each has the kind of the first occurrence of its
name; its payload and source are those of the first occurrence too, except that the last file of
the name gives them where the last one wins. The manifest is the bundler's, whatever the inputs
hold. -/
theorem Bundler.merge_entries_occurrences {b : Bundler} {inputs : List Archive}
    {m : MergedArchive} (h : b.merge inputs = .ok m) :
    m.entries.map (·.name) = ((b.survivors inputs).map (·.name)).eraseDups ∧
    (m.entries.map (·.name)).Nodup ∧
    (∀ e ∈ m.entries, ∃ first later,
      (b.survivors inputs).filter (fun o => o.name == e.name) = first :: later ∧
      e.kind = first.entry.kind ∧
      (b.options.policy = .firstWins ∨ b.options.policy = .error →
        e.payload = first.entry.payload ∧ e.source = first.source) ∧
      (b.options.policy = .lastWins →
        ∃ kept, (first :: later.filter Occurrence.isFile).getLast? = some kept ∧
          e.payload = kept.entry.payload ∧ e.source = kept.source)) ∧
    m.manifest = b.manifest := by
  have htable := merge_tabulates h
  obtain ⟨t, -, rfl⟩ := merge_eq_ok h
  refine ⟨htable.names, htable.nodup, ?_, rfl⟩
  intro e he
  have hresolved := htable.resolved e he
  unfold named at hresolved
  cases hocc : (b.survivors inputs).filter (fun o => o.name == e.name) with
  | nil =>
    rw [hocc] at hresolved
    cases hresolved
  | cons first later =>
    rw [hocc, resolve?, Option.some.injEq] at hresolved
    refine ⟨first, later, rfl, ?_, ?_, ?_⟩
    · rw [← hresolved]
    · rintro (hpolicy | hpolicy)
      · rw [← hresolved, hpolicy]
        exact ⟨rfl, rfl⟩
      · rw [← hresolved, hpolicy]
        exact ⟨rfl, rfl⟩
    · intro hpolicy
      refine ⟨winner .lastWins first later, ?_, ?_⟩
      · exact List.getLast?_eq_some_getLast _
      · rw [← hresolved, hpolicy]
        exact ⟨rfl, rfl⟩

/-- A bundler under which the last one wins and signatures are left out. -/
def lastWinsBundler : Bundler where
  options := ⟨"App", .lastWins, ["*.SF"], [], 1⟩
  excludes := [⟨[.anySequence, .literal '.', .literal 'S', .literal 'F']⟩]
  manifest := ⟨[⟨"Main-Class", "App"⟩]⟩

/-- Three inputs: `x` is a file in two of them and a directory in the third. -/
def sharedInputs : List Archive :=
  [⟨"a.jar", [.file "x" [1], .directory "d"]⟩,
   ⟨"b.jar", [.file "meta-inf/Manifest.MF" [9], .file "x" [2], .file "a.SF" [], .file "y" [3]]⟩,
   ⟨"c.jar", [⟨"x", .directory, []⟩, .directory "d"]⟩]

theorem Bundler.merge_entries_occurrences_shared :
    ∃ m, lastWinsBundler.merge sharedInputs = .ok m ∧
      m.entries.map (·.name) = ["x", "d/", "y"] ∧
      (∀ e ∈ m.entries, e.name = "x" → e.payload = [2] ∧ e.source = 1) ∧
      m.manifest = lastWinsBundler.manifest := by
  have hmerge : lastWinsBundler.merge sharedInputs = .ok ⟨lastWinsBundler.manifest,
      [⟨"x", .file, [2], 1⟩, ⟨"d/", .directory, [], 0⟩, ⟨"y", .file, [3], 1⟩], ⟨1, 1, 1⟩⟩ :=
    eq_ok_of_toOption (by decide +kernel)
  obtain ⟨hnames, -, hentries, hmanifest⟩ := merge_entries_occurrences hmerge
  refine ⟨_, hmerge, ?_, ?_, hmanifest⟩
  · rw [hnames]
    decide +kernel
  · intro e he hx
    obtain ⟨first, later, hocc, -, -, hlast⟩ := hentries e he
    obtain ⟨kept, hkept, hpayload, hsource⟩ := hlast rfl
    have hx' : (lastWinsBundler.survivors sharedInputs).filter (fun o => o.name == "x") =
        [⟨0, .file "x" [1]⟩, ⟨1, .file "x" [2]⟩, ⟨2, ⟨"x", .directory, []⟩⟩] := by decide +kernel
    rw [hx, hx'] at hocc
    cases hocc
    cases hkept
    exact ⟨hpayload, hsource⟩

end FatJar
