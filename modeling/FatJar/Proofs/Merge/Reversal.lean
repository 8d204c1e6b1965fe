/-
FatJar.Proofs.Merge.Reversal — what the last one wins is what the first one wins
of the inputs in reverse order.

The two runs meet the entries in different orders, so they are not followed side
by side. Instead the two tables are compared name by name: an archive has at most
one entry of a name, so the occurrences of a name in the reversed inputs are
those in the inputs read backwards (`named_occurrencesFrom_reverse`), and the
last of the one list is the first of the other. Names that tell the kind of
their entries make this the whole comparison (`merge_reverse`).

Contents:
1. entries whose names tell their kinds;
2. the occurrences of a name, backwards;
3. the entries that they make;
4. the two tables.
-/
import FatJar.Proofs.Merge.Accounting
import FatJar.Proofs.Merge.Origin
import FatJar.Proofs.Merge.Validity
import Mathlib.Data.List.Nodup

namespace FatJar

open Outcome Occurrence

/-! ## 1. Names that tell kinds -/

/-- The name ends in a slash exactly if the entry is a directory, and a directory has no payload. -/
structure Entry.IsTelling (e : Entry) : Prop where
  kind_iff : e.kind = .directory ↔ e.name.toList.getLast? = some '/'
  empty : e.kind = .directory → e.payload = []

instance (e : Entry) : Decidable e.IsTelling :=
  decidable_of_iff
    ((e.kind = .directory ↔ e.name.toList.getLast? = some '/') ∧
      (e.kind = .directory → e.payload = []))
    ⟨fun h => ⟨h.1, h.2⟩, fun h => ⟨h.kind_iff, h.empty⟩⟩

namespace Entry.IsTelling

variable {e e' : Entry}

/-- Entries of one name are of one kind. -/
theorem kind_eq (h : e.IsTelling) (h' : e'.IsTelling) (hname : e.name = e'.name) :
    e.kind = e'.kind := by
  have hiff : e.kind = .directory ↔ e'.kind = .directory := by
    rw [h.kind_iff, h'.kind_iff, hname]
  cases hkind : e.kind <;> cases hkind' : e'.kind <;> simp [hkind, hkind'] at hiff ⊢

/-- Directories of one name are the same. -/
theorem eq_of_directory (h : e.IsTelling) (h' : e'.IsTelling) (hname : e.name = e'.name)
    (hkind : e.kind = .directory) : e = e' := by
  have hkind' := (h.kind_eq h' hname).symm.trans hkind
  have hpayload := (h.empty hkind).trans (h'.empty hkind').symm
  cases e
  cases e'
  simp_all

end Entry.IsTelling

/-! ## 2. Backwards -/

/-- The occurrence in the input that is as far from the `last` one as its own is from the first. -/
def Occurrence.mirror (last : Nat) (o : Occurrence) : Occurrence :=
  { o with source := last - o.source }

/-- Of distinct names at most one is the given one. -/
theorem length_filter_name {entries : List Entry} (h : (entries.map (·.name)).Nodup)
    (name : String) : (entries.filter fun e => e.name == name).length ≤ 1 := by
  have hcount := List.nodup_iff_count_le_one.mp h name
  rwa [List.count, List.countP_map, List.countP_eq_length_filter] at hcount

theorem reverse_of_length_le_one {α : Type} {xs : List α} (h : xs.length ≤ 1) :
    xs.reverse = xs := by
  match xs, h with
  | [], _ => rfl
  | [_], _ => rfl

/-- The occurrences of a name in the reversed inputs are those in the inputs, read backwards. -/
theorem named_occurrencesFrom_reverse (name : String) (source : Nat) {inputs : List Archive}
    (h : ∀ a ∈ inputs, (a.entries.map (·.name)).Nodup) :
    named name (occurrencesFrom 0 inputs.reverse) =
      (named name (occurrencesFrom source inputs)).reverse.map
        (mirror (source + inputs.length - 1)) := by
  induction inputs generalizing source with
  | nil => rfl
  | cons a rest ih =>
    have hothers := ih (source + 1) fun a' ha' => h a' (List.mem_cons_of_mem a ha')
    have hlast : source + 1 + rest.length - 1 = source + (a :: rest).length - 1 := by
      simp only [List.length_cons]
      omega
    have hhere : named name (a.entries.map (⟨0 + rest.length, ·⟩)) =
        (named name (a.entries.map (⟨source, ·⟩))).reverse.map
          (mirror (source + (a :: rest).length - 1)) := by
      have honce := length_filter_name (h a List.mem_cons_self) name
      have hsame : source + (a :: rest).length - 1 - source = 0 + rest.length := by
        simp only [List.length_cons]
        omega
      simp only [named, List.filter_map, Function.comp_def, Occurrence.name]
      rw [← List.map_reverse, reverse_of_length_le_one honce, List.map_map]
      simp only [Function.comp_def, mirror, hsame]
    rw [List.reverse_cons, occurrencesFrom_concat, List.length_reverse, occurrencesFrom]
    simp only [named, List.filter_append, List.reverse_append, List.map_append] at hothers hhere ⊢
    rw [hothers, hhere, hlast]

/-! ## 3. The entries of a name -/

/-- The entries agree in everything but their sources; of files these are equally far from the two
ends of `n` inputs. -/
structure MergedEntry.Mirrors (n : Nat) (x y : MergedEntry) : Prop where
  entry : x.toEntry = y.toEntry
  source : x.kind = .file → x.source + y.source + 1 = n

namespace Occurrence

variable {occurrences : List Occurrence} {first last : Occurrence} {later : List Occurrence}
  {n : Nat}

theorem winner_mem (policy : DuplicatePolicy) : winner policy first later ∈ first :: later := by
  cases policy with
  | lastWins =>
    have hmem : winner .lastWins first later ∈ candidates first later := List.getLast_mem _
    rcases List.mem_cons.mp hmem with hfirst | hlater
    · rw [hfirst]
      exact List.mem_cons_self
    · exact List.mem_cons_of_mem first (List.mem_filter.mp hlater).1
  | firstWins => exact List.mem_cons_self
  | error => exact List.mem_cons_self

/-- Among files the last one wins. -/
theorem winner_of_files (hfiles : ∀ o ∈ first :: later, o.isFile = true) :
    (first :: later).getLast? = some (winner .lastWins first later) := by
  have hcandidates : candidates first later = first :: later := by
    rw [candidates, List.filter_eq_self.mpr fun o ho => hfiles o (List.mem_cons_of_mem first ho)]
  rw [← hcandidates, List.getLast?_eq_some_getLast (by simp [candidates])]
  rfl

/-- Occurrences of one name whose entries tell their kind. -/
structure SameName (occurrences : List Occurrence) : Prop where
  telling : ∀ o ∈ occurrences, o.entry.IsTelling
  name_eq : ∀ o ∈ occurrences, ∀ o' ∈ occurrences, o.name = o'.name

/-- Where the last one wins, the entry of a name is that of the last occurrence, up to the source of
a directory. -/
theorem SameName.resolve?_lastWins (h : SameName (occurrences ++ [last])) :
    ∃ x, resolve? .lastWins (occurrences ++ [last]) = some x ∧ x.toEntry = last.entry ∧
      (x.kind = .file → x.source = last.source) := by
  obtain ⟨first, later, hcons⟩ : ∃ first later, occurrences ++ [last] = first :: later :=
    List.exists_cons_of_ne_nil (by simp)
  have hlast : last ∈ occurrences ++ [last] := by simp
  have hfirst : first ∈ occurrences ++ [last] := by simp [hcons]
  have hkind : ∀ o ∈ occurrences ++ [last], o.entry.kind = last.entry.kind := fun o ho =>
    (h.telling o ho).kind_eq (h.telling last hlast) (h.name_eq o ho last hlast)
  have hwinner : winner .lastWins first later ∈ occurrences ++ [last] := hcons ▸ winner_mem _
  -- directories of one name are all the same, and of files the last one is the winner
  have hkept : (winner .lastWins first later).entry.payload = last.entry.payload ∧
      (last.entry.kind = .file → (winner .lastWins first later).source = last.source) := by
    cases hlastKind : last.entry.kind with
    | directory =>
      have hsame := (h.telling _ hlast).eq_of_directory (h.telling _ hwinner)
        (h.name_eq _ hlast _ hwinner) hlastKind
      exact ⟨by rw [← hsame], nofun⟩
    | file =>
      have hfiles : ∀ o ∈ first :: later, o.isFile = true := fun o ho => by
        simp [isFile, hkind o (hcons ▸ ho), hlastKind]
      have hlast? := winner_of_files hfiles
      rw [← hcons, List.getLast?_concat, Option.some.injEq] at hlast?
      rw [← hlast?]
      exact ⟨rfl, fun _ => rfl⟩
  refine ⟨⟨first.name, first.entry.kind, (winner .lastWins first later).entry.payload,
    (winner .lastWins first later).source⟩, by rw [hcons]; rfl, ?_, ?_⟩
  · have hname : first.name = last.entry.name := h.name_eq first hfirst last hlast
    simp only [MergedEntry.toEntry, hname, hkind first hfirst, hkept.1]
  · intro hfile
    exact hkept.2 ((hkind first hfirst).symm.trans hfile)

/-- What the last one wins of the occurrences of a name, the first one wins of them backwards. -/
theorem SameName.mirrors (h : SameName occurrences) (hsource : ∀ o ∈ occurrences, o.source < n) :
    (resolve? .lastWins occurrences = none ∧
      resolve? .firstWins (occurrences.reverse.map (mirror (n - 1))) = none) ∨
    ∃ x y, resolve? .lastWins occurrences = some x ∧
      resolve? .firstWins (occurrences.reverse.map (mirror (n - 1))) = some y ∧
      x.Mirrors n y := by
  rcases List.eq_nil_or_concat occurrences with rfl | ⟨before, last, rfl⟩
  · exact .inl ⟨rfl, rfl⟩
  · rw [List.concat_eq_append] at h hsource ⊢
    obtain ⟨x, hx, hentry, hfile⟩ := h.resolve?_lastWins
    have hlast : last.source < n := hsource last (by simp)
    refine .inr ⟨x, ⟨last.name, last.entry.kind, last.entry.payload, n - 1 - last.source⟩, hx, ?_,
      hentry, fun hkind => ?_⟩
    · rw [List.reverse_append]
      rfl
    · have hlastSource := hfile hkind
      simp only
      omega

end Occurrence

/-! ## 4. The two tables -/

namespace Tabulates

variable {policy : DuplicatePolicy} {occurrences : List Occurrence} {entries : List MergedEntry}

/-- The entries are those that the occurrences of some name make. -/
theorem mem_iff (h : Tabulates policy occurrences entries) {e : MergedEntry} :
    e ∈ entries ↔ ∃ name, resolve? policy (named name occurrences) = some e := by
  constructor
  · exact fun he => ⟨e.name, h.resolved e he⟩
  · rintro ⟨name, hresolved⟩
    cases hnamed : named name occurrences with
    | nil =>
      rw [hnamed] at hresolved
      cases hresolved
    | cons first later =>
      have hfirst := mem_named.mp (hnamed ▸ List.mem_cons_self : first ∈ named name occurrences)
      have hname : name ∈ entries.map (·.name) :=
        h.mem_names.mpr (List.mem_map.mpr ⟨first, hfirst⟩)
      obtain ⟨e', he', rfl⟩ := List.mem_map.mp hname
      rw [h.resolved e' he', Option.some.injEq] at hresolved
      exact hresolved ▸ he'

end Tabulates

/-- What is counted does not depend on the policy. -/
theorem Accounts.of_withPolicy {b : Bundler} {policy : DuplicatePolicy} {done : List Occurrence}
    {t : MergeTable} (h : Accounts (b.withPolicy policy) done t) : Accounts b done t :=
  ⟨h.manifests, h.excluded, h.survivors⟩

namespace Bundler

variable {b : Bundler} {inputs : List Archive}

/-- The occurrences of a name that survive are all of them or none. -/
theorem named_survivors (b : Bundler) (name : String) (inputs : List Archive) :
    named name (b.survivors inputs) =
      if b.survives name then named name (occurrencesFrom 0 inputs) else [] := by
  rw [survivors, named, named, List.filter_filter]
  split
  · rename_i hsurvives
    apply List.filter_congr
    intro o _
    by_cases hname : o.name = name <;> simp [hname, hsurvives]
  · rename_i hsurvives
    rw [List.filter_eq_nil_iff]
    intro o _
    by_cases hname : o.name = name <;> simp [hname, hsurvives]

theorem named_survivors_reverse (hvalid : ∀ a ∈ inputs, a.IsValid) (name : String) :
    named name (b.survivors inputs.reverse) =
      (named name (b.survivors inputs)).reverse.map (mirror (inputs.length - 1)) := by
  have hreverse := named_occurrencesFrom_reverse name 0 fun a ha => (hvalid a ha).distinct
  rw [Nat.zero_add] at hreverse
  rw [named_survivors, named_survivors, hreverse]
  split <;> rfl

theorem sameName_survivors (htelling : ∀ a ∈ inputs, ∀ e ∈ a.entries, e.IsTelling)
    (name : String) : SameName (named name (b.survivors inputs)) where
  telling := by
    intro o ho
    obtain ⟨a, ha, hentry⟩ :=
      entry_mem_of_mem_occurrencesFrom (List.mem_filter.mp (mem_named.mp ho).1).1
    exact htelling a ha o.entry hentry
  name_eq := fun o ho o' ho' => (mem_named.mp ho).2.trans (mem_named.mp ho').2.symm

theorem source_lt_of_mem_survivors {o : Occurrence} (h : o ∈ b.survivors inputs) :
    o.source < inputs.length := by
  obtain ⟨a, ha, -⟩ := entry_mem_of_mem_survivors h
  exact (List.getElem?_eq_some_iff.mp ha).1

/-- The two tables have the same entries, up to the sources of directories. -/
theorem mirrors_of_tabulates {entries entries' : List MergedEntry}
    (hvalid : ∀ a ∈ inputs, a.IsValid) (htelling : ∀ a ∈ inputs, ∀ e ∈ a.entries, e.IsTelling)
    (hlast : Tabulates .lastWins (b.survivors inputs) entries)
    (hfirst : Tabulates .firstWins (b.survivors inputs.reverse) entries') :
    (∀ x ∈ entries, ∃ y ∈ entries', x.Mirrors inputs.length y) ∧
    (∀ y ∈ entries', ∃ x ∈ entries, x.Mirrors inputs.length y) := by
  have hmirrors := fun name => (sameName_survivors (b := b) htelling name).mirrors
    fun o ho => source_lt_of_mem_survivors (mem_named.mp ho).1
  simp only [← named_survivors_reverse hvalid] at hmirrors
  constructor
  · intro x hx
    obtain ⟨name, hname⟩ := hlast.mem_iff.mp hx
    rcases hmirrors name with ⟨hnone, -⟩ | ⟨x', y, hx', hy, hxy⟩
    · simp [hname] at hnone
    · rw [hname, Option.some.injEq] at hx'
      exact ⟨y, hfirst.mem_iff.mpr ⟨name, hy⟩, hx' ▸ hxy⟩
  · intro y hy
    obtain ⟨name, hname⟩ := hfirst.mem_iff.mp hy
    rcases hmirrors name with ⟨-, hnone⟩ | ⟨x, y', hx, hy', hxy⟩
    · simp [hname] at hnone
    · rw [hname, Option.some.injEq] at hy'
      exact ⟨x, hlast.mem_iff.mpr ⟨name, hx⟩, hy' ▸ hxy⟩

/-- Merged entries have distinct names, so as entries they are distinct. -/
theorem nodup_toEntry {entries : List MergedEntry} (h : (entries.map (·.name)).Nodup) :
    (entries.map MergedEntry.toEntry).Nodup := by
  apply List.Nodup.of_map Entry.name
  rw [List.map_map]
  exact h

theorem perm_toEntry {policy policy' : DuplicatePolicy} {occurrences occurrences' : List Occurrence}
    {entries entries' : List MergedEntry} {n : Nat} (h : Tabulates policy occurrences entries)
    (h' : Tabulates policy' occurrences' entries')
    (hsame : (∀ x ∈ entries, ∃ y ∈ entries', x.Mirrors n y) ∧
      (∀ y ∈ entries', ∃ x ∈ entries, x.Mirrors n y)) :
    (entries.map MergedEntry.toEntry).Perm (entries'.map MergedEntry.toEntry) := by
  rw [List.perm_ext_iff_of_nodup (nodup_toEntry h.nodup) (nodup_toEntry h'.nodup)]
  intro e
  simp only [List.mem_map]
  constructor
  · rintro ⟨x, hx, rfl⟩
    obtain ⟨y, hy, hxy⟩ := hsame.1 x hx
    exact ⟨y, hy, hxy.entry.symm⟩
  · rintro ⟨y, hy, rfl⟩
    obtain ⟨x, hx, hxy⟩ := hsame.2 y hy
    exact ⟨x, hx, hxy.entry⟩

theorem perm_entries_reverse (inputs : List Archive) :
    ((occurrencesFrom 0 inputs.reverse).map (·.entry)).Perm
      ((occurrencesFrom 0 inputs).map (·.entry)) := by
  rw [map_entry_occurrencesFrom, map_entry_occurrencesFrom]
  exact (List.reverse_perm inputs).flatMap_right _

/-- What is counted of the entries alone does not depend on the order of the inputs. -/
theorem countP_reverse (inputs : List Archive) (p : Entry → Bool) :
    (occurrencesFrom 0 inputs.reverse).countP (fun o => p o.entry) =
      (occurrencesFrom 0 inputs).countP fun o => p o.entry := by
  have hcount := (perm_entries_reverse inputs).countP_eq p
  rwa [List.countP_map, List.countP_map] at hcount

/-- Tables that account for the inputs in the one and in the other order have the same counts if
they have as many files. -/
theorem stats_reverse {t u : MergeTable} (ht : Accounts b (occurrencesFrom 0 inputs) t)
    (hu : Accounts b (occurrencesFrom 0 inputs.reverse) u)
    (hfiles : t.ofKind .file = u.ofKind .file) : t.stats = u.stats := by
  have hmanifests : t.stats.manifestsReplaced = u.stats.manifestsReplaced := by
    rw [ht.manifests, hu.manifests]
    exact (countP_reverse inputs fun e => Manifest.isPath e.name).symm
  have hexcluded : t.stats.excluded = u.stats.excluded := by
    rw [ht.excluded, hu.excluded]
    exact (countP_reverse inputs fun e => b.leavesOut e.name).symm
  have hduplicates : t.stats.duplicatesResolved = u.stats.duplicatesResolved := by
    have hsurvivors := countP_reverse inputs fun e => e.kind == .file && b.survives e.name
    have htfiles := ht.survivors.files
    have hufiles := hu.survivors.files
    have htduplicates := ht.survivors.duplicates
    have huduplicates := hu.survivors.duplicates
    simp only [List.countP_filter, isFile, Occurrence.name, MergeTable.duplicates] at *
    omega
  rw [show t.stats = ⟨t.stats.duplicatesResolved, t.stats.excluded, t.stats.manifestsReplaced⟩
    from rfl, hduplicates, hexcluded, hmanifests]

/-- **The last one wins as the first one wins backwards.** Let the names of some archives be safe,
distinct in each and tell the kinds of their entries. Merging them so that the last one wins, and
merging them in reverse order so that the first one wins, both succeed. The merged archives have the
same names, each with the same kind and payload, and the same counts, and the sources of a file are
equally far from the two ends. -/
theorem merge_reverse (b : Bundler) (hne : inputs ≠ []) (hvalid : ∀ a ∈ inputs, a.IsValid)
    (htelling : ∀ a ∈ inputs, ∀ e ∈ a.entries, e.IsTelling) :
    ∃ l f, (b.withPolicy .lastWins).merge inputs = .ok l ∧
      (b.withPolicy .firstWins).merge inputs.reverse = .ok f ∧
      (l.entries.map MergedEntry.toEntry).Perm (f.entries.map MergedEntry.toEntry) ∧
      (l.entries.map (·.name)).Nodup ∧
      l.stats = f.stats ∧
      ∀ x ∈ l.entries, ∀ y ∈ f.entries, x.name = y.name → x.kind = .file →
        x.source + y.source + 1 = inputs.length := by
  obtain ⟨l, hl⟩ := exists_merge_of_isValid (b := b.withPolicy .lastWins) hne hvalid nofun
  have hvalid' : ∀ a ∈ inputs.reverse, a.IsValid := fun a ha => hvalid a (List.mem_reverse.mp ha)
  obtain ⟨f, hf⟩ := exists_merge_of_isValid (b := b.withPolicy .firstWins) (by simpa using hne)
    hvalid' nofun
  have hlast : Tabulates .lastWins (b.survivors inputs) l.entries := merge_tabulates hl
  have hfirst : Tabulates .firstWins (b.survivors inputs.reverse) f.entries := merge_tabulates hf
  have hmirrors := mirrors_of_tabulates hvalid htelling hlast hfirst
  have hperm := perm_toEntry hlast hfirst hmirrors
  refine ⟨l, f, hl, hf, hperm, hlast.nodup, ?_, ?_⟩
  · have hfiles := hperm.countP_eq fun e => e.kind == .file
    rw [List.countP_map, List.countP_map] at hfiles
    exact stats_reverse (accounts_of_merge hl).of_withPolicy (accounts_of_merge hf).of_withPolicy
      hfiles
  · intro x hx y hy hname hkind
    obtain ⟨y', hy', hxy⟩ := hmirrors.1 x hx
    have hname' : y'.name = y.name := (congrArg Entry.name hxy.entry).symm.trans hname
    have hsame : y' = y := List.inj_on_of_nodup_map hfirst.nodup hy' hy hname'
    exact hsame ▸ hxy.source hkind

/-- Three inputs with a shared directory and with a file that is in all of them. -/
def sharingInputs : List Archive :=
  [⟨"a.jar", [.directory "d", .file "x" [1]]⟩,
   ⟨"b.jar", [.file "META-INF/MANIFEST.MF" [9], .file "x" [2], .directory "d", .file "y" [3]]⟩,
   ⟨"c.jar", [.file "z.SF" [], .file "x" [4]]⟩]

/-- The file is that of the third input, which is the first of the reversed inputs. -/
theorem merge_reverse_sharing :
    sharingInputs ≠ [] ∧ (∀ a ∈ sharingInputs, a.IsValid) ∧
    (∀ a ∈ sharingInputs, ∀ e ∈ a.entries, e.IsTelling) ∧
    ∃ l f, (lastWinsBundler.withPolicy .lastWins).merge sharingInputs = .ok l ∧
      (lastWinsBundler.withPolicy .firstWins).merge sharingInputs.reverse = .ok f ∧
      (l.entries.map MergedEntry.toEntry).Perm (f.entries.map MergedEntry.toEntry) ∧
      l.stats = f.stats ∧
      (⟨"x", .file, [4], 2⟩ : MergedEntry) ∈ l.entries ∧
      ∀ y ∈ f.entries, y.name = "x" → 2 + y.source + 1 = 3 := by
  have hne : sharingInputs ≠ [] := nofun
  have hvalid : ∀ a ∈ sharingInputs, a.IsValid := by decide +kernel
  have htelling : ∀ a ∈ sharingInputs, ∀ e ∈ a.entries, e.IsTelling := by decide +kernel
  obtain ⟨l, f, hl, hf, hperm, -, hstats, hsource⟩ :=
    merge_reverse lastWinsBundler hne hvalid htelling
  have hmerge : (lastWinsBundler.withPolicy .lastWins).merge sharingInputs =
      .ok ⟨lastWinsBundler.manifest, [⟨"d/", .directory, [], 0⟩, ⟨"x", .file, [4], 2⟩,
        ⟨"y", .file, [3], 1⟩], ⟨2, 1, 1⟩⟩ := eq_ok_of_toOption (by decide +kernel)
  have hx : (⟨"x", .file, [4], 2⟩ : MergedEntry) ∈ l.entries := by
    rw [hmerge, Except.ok.injEq] at hl
    subst hl
    decide
  exact ⟨hne, hvalid, htelling, l, f, hl, hf, hperm, hstats, hx,
    fun y hy hname => hsource _ hx y hy hname.symm rfl⟩

end Bundler

end FatJar
