/-
FatJar.Proofs.Merge.Lockstep — two merges side by side.

Two bundlers that leave out the same names decide alike about every entry until
a file meets an earlier one of its name: only then the policy counts. So two
merges of the same archives, with different policies or from different tables,
can be followed step by step with one relation between their tables.

`Lockstep` collects what the relation has to satisfy. The only part of it that
takes an argument is `add`; the rest of a step is done once, in `Lockstep.take`,
and the run follows in `Lockstep.takeArchives`.

The inputs may be numbered differently: what is input `n` in one run is input
`n + shift` in the other.
-/
import FatJar.Proofs.Merge.Step

namespace FatJar

open Outcome

/-- Tables with the same names add an entry alike, if they settle a duplicate alike. -/
theorem MergeTable.add_alike {t u : MergeTable} {p q : DuplicatePolicy} {source source' : Nat}
    {e : Entry} {E : BundleError → BundleError → Prop} {R : MergeTable → MergeTable → Prop}
    (hnames : t.entries.map (·.name) = u.entries.map (·.name))
    (happend : R (t.append ⟨e.name, e.kind, e.payload, source⟩)
      (u.append ⟨e.name, e.kind, e.payload, source'⟩))
    (hkeep : R t u)
    (hclash : ∀ earlier other, t.find? e.name = some earlier → u.find? e.name = some other →
      e.kind = .file → Alike E R (t.add p source e) (u.add q source' e)) :
    Alike E R (t.add p source e) (u.add q source' e) := by
  have hfound : (t.find? e.name).isSome ↔ (u.find? e.name).isSome := by
    rw [find?_isSome_iff, find?_isSome_iff, hnames]
  cases ht : t.find? e.name with
  | none =>
    have hu : u.find? e.name = none := by simpa [ht] using hfound
    simp only [add, ht, hu]
    exact happend
  | some earlier =>
    obtain ⟨other, hu⟩ : ∃ other, u.find? e.name = some other :=
      Option.isSome_iff_exists.mp (hfound.mp (by simp [ht]))
    cases hkind : e.kind with
    | directory =>
      simp only [add, ht, hu, hkind]
      exact hkeep
    | file => exact hclash earlier other ht hu hkind

namespace Bundler

/-- What keeps the tables of two runs in the relation `R`, and their errors in the relation `E`. -/
structure Lockstep (b c : Bundler) (shift : Nat) (E : BundleError → BundleError → Prop)
    (R : MergeTable → MergeTable → Prop) : Prop where
  excluded : ∀ name, b.isExcluded name = c.isExcluded name
  fault : ∀ source label fault,
    E (.malformedArchive source label fault) (.malformedArchive (source + shift) label fault)
  countManifest : ∀ {t u}, R t u → R t.countManifest u.countManifest
  countExcluded : ∀ {t u}, R t u → R t.countExcluded u.countExcluded
  add : ∀ {t u} (source : Nat) (e : Entry), R t u →
    Alike E R (t.add b.options.policy source e) (u.add c.options.policy (source + shift) e)

namespace Lockstep

variable {b c : Bundler} {shift : Nat} {E : BundleError → BundleError → Prop}
  {R : MergeTable → MergeTable → Prop}

theorem take (h : Lockstep b c shift E R) {t u : MergeTable} (source : Nat) (label : String)
    (seen : List String) (e : Entry) (htu : R t u) :
    Alike E R (b.take source label seen e t) (c.take (source + shift) label seen e u) := by
  unfold Bundler.take
  cases entryFault? seen e with
  | some fault => exact h.fault source label fault
  | none =>
    simp only [← h.excluded]
    split
    · exact h.countManifest htu
    · split
      · exact htu
      · split
        · exact h.countExcluded htu
        · exact h.add source e htu

theorem takeEntries (h : Lockstep b c shift E R) (source : Nat) (label : String)
    (entries : List Entry) :
    ∀ {seen : List String} {t u : MergeTable}, R t u →
      Alike E R (b.takeEntries source label seen entries t)
        (c.takeEntries (source + shift) label seen entries u) := by
  induction entries with
  | nil =>
    intro seen t u htu
    exact htu
  | cons e rest ih =>
    intro seen t u htu
    exact (h.take source label seen e htu).bind fun t' u' htu' => ih htu'

theorem takeArchives (h : Lockstep b c shift E R) (inputs : List Archive) :
    ∀ (source : Nat) {t u : MergeTable}, R t u →
      Alike E R (b.takeArchives source inputs t) (c.takeArchives (source + shift) inputs u) := by
  induction inputs with
  | nil =>
    intro source t u htu
    exact htu
  | cons a rest ih =>
    intro source t u htu
    refine (h.takeEntries source a.label a.entries htu).bind fun t' u' htu' => ?_
    have hnext := ih (source + 1) htu'
    rwa [Nat.add_right_comm] at hnext

/-- Merges of the same archives end alike. -/
theorem merge (h : Lockstep b c 0 E R) (hstart : R .empty .empty)
    (hempty : E .emptyInput .emptyInput) (inputs : List Archive) :
    Alike E (fun m n => R ⟨m.entries, m.stats⟩ ⟨n.entries, n.stats⟩) (b.merge inputs)
      (c.merge inputs) := by
  unfold Bundler.merge
  split
  · exact hempty
  · exact (h.takeArchives inputs 0 hstart).bind fun t u htu => htu

end Lockstep

end Bundler

end FatJar
