/-
FatJar.Proofs.FileTree.Creation — directories that have been created for a path.

A path may be written with slashes or `.` after its last name. The slashes change
nothing. With a `.` at its end a path is never created itself: it has to lead to a
directory once those above it have been created, and it does not, because the
innermost of them is empty. So whenever creating succeeds, and no missing path ends
in `..`, the path has led up a ladder (`createDirectories_attempt`).

Contents:
1. the ladder above a path;
2. paths that end in no name;
3. directories that have been created.
-/
import FatJar.Proofs.FileTree.Components
import FatJar.Proofs.FileTree.Directories

namespace FatJar.FileTree

open FatJar.Path

variable {t t' : FileTree} {p q : Path} {others ps : List Path} {result : Except FileError Unit}

/-! ## 1. The ladder above a path -/

/-- Above a path, going up leads step by step to one that is not missed. -/
theorem rises_above (habove : p.above = q :: others)
    (hup : ∀ r ∈ t.absent (q :: others), lastStep r ≠ .up) : Rises t (q :: others) := by
  obtain ⟨first, pieces, hw, -, rfl⟩ := exists_written p
  rw [hw.above_eq] at habove
  induction pieces with
  | nil =>
    rw [piecesAbove, List.map_nil, List.nil_append] at habove
    split at habove
    · cases habove
      exact .empty rfl
    · cases habove
  | cons piece rest ih =>
    by_cases hpiece : isSkipped piece
    · rw [piecesAbove, if_pos hpiece] at habove
      exact ih hw.tail habove
    · have hancestors : (ofPieces first (rest.dropWhile isSkipped)).ancestors = q :: others := by
        rw [← habove, piecesAbove, if_neg hpiece, ancestors, hw.tail.dropWhile.above_eq,
          piecesAbove_dropWhile]
        rfl
      rw [← hancestors] at hup ⊢
      exact rises_of_written hw.tail hup

theorem exists_above_of_lastStep {name : String} {slash : Bool}
    (hlast : lastStep p = .name name slash) : ∃ q others, p.above = q :: others ∧ Above p q := by
  obtain ⟨first, pieces, hw, -, rfl⟩ := exists_written p
  obtain ⟨hpart, hname, -⟩ := lastStep_eq_name_iff.mp hlast
  obtain ⟨upper, uppers, hpieces, habove⟩ := hw.exists_above hpart hname
  have heq := hw.above_eq
  rw [hpieces, List.map_cons, List.cons_append] at heq
  exact ⟨_, _, heq, habove⟩

theorem getLast?_components_of_up (hlast : lastStep p = .up) :
    p.components.getLast? = some .up := by
  obtain ⟨before, hparts⟩ := List.getLast?_eq_some_iff.mp (lastStep_eq_up_iff.mp hlast)
  have hmoves : p.moves = before.filter (· != ".") ++ [".."] := by
    rw [moves, hparts, List.filter_append]
    rfl
  rw [components, hmoves, List.map_append, ← List.append_assoc]
  exact List.getLast?_concat

/-! ## 2. Paths that end in no name -/

/-- A path leads to no directory when the one above it is empty. -/
theorem isDirectory_eq_false_of_empty {c : Place} (habove : p.above = q :: others)
    (hup : p.components.getLast? ≠ some .up) (hq : q.text ≠ "") (hresolve : t.resolve q = .ok c)
    (hempty : ∀ name, t.node? (c ++ [name]) = none) : t.isDirectory p = false := by
  apply Bool.eq_false_iff.mpr
  intro hdir
  obtain ⟨first, pieces, hw, -, rfl⟩ := exists_written p
  obtain ⟨habsolute, k, name, more, hname, hparts⟩ := hw.exists_parts_above hup habove hq
  obtain ⟨found, hfound, -⟩ := isDirectory_iff.mp hdir
  obtain ⟨-, left, place, hwalks⟩ := exists_walks_parts hfound
  rw [hparts] at hwalks
  obtain ⟨links₁, holder, hfirst, hrest⟩ := walks_append_iff.mp hwalks
  rw [← List.singleton_append] at hrest
  obtain ⟨links₂, entry, hentry, -⟩ := walks_append_iff.mp hrest
  obtain ⟨hholder, -, hnode⟩ := hentry.node?_of_name hname
  -- the way to the path above leads to the holder, which is not empty
  obtain ⟨l, hsteps⟩ := steps_eq q
  have hresolve' : t.resolve q = .ok holder := by
    refine resolve_eq_ok_iff.mpr ⟨(resolve_eq_ok_iff.mp hresolve).1, links₁, ?_⟩
    rw [hsteps, start, habsolute]
    exact (walks_append_dots_iff hholder).mpr ((walks_append_dots_iff hholder).mp hfirst)
  rw [hresolve] at hresolve'
  cases hresolve'
  exact hnode (hempty name)

/-- A missing path that ends in no name is not created. -/
theorem createDirectories_ne_ok (ht : t.IsClosed) (htext : p.text ≠ "")
    (hexists : t.pathExists p = false) (hlast : ∀ name slash, lastStep p ≠ .name name slash)
    (hup : p.components.getLast? ≠ some .up)
    (hupper : ∀ r ∈ t.absent p.above, lastStep r ≠ .up) :
    t.createDirectories p ≠ (.ok (), t') := by
  intro hmake
  have hmissing : t.isDirectory p ≠ true := by
    rw [isDirectory_of_not_pathExists hexists]
    exact Bool.false_ne_true
  have hnever : ∀ {t₁ t₂ : FileTree}, t₁.createDirectory p ≠ .ok t₂ := by
    intro t₁ t₂ hcreate
    obtain ⟨h, name, slash, hname, -⟩ := createDirectory_eq_ok hcreate
    exact hlast name slash hname
  cases createFrom_cases htext hmake with
  | made hcreate => exact hnever hcreate
  | settled _ _ hdir => exact hmissing hdir
  | madeAfter _ _ hagain => exact hnever hagain
  | settledAfter _ hcreated _ hdir =>
    cases habove : p.above with
    | nil =>
      rw [habove] at hcreated
      cases hcreated
    | cons q others =>
      rw [habove] at hcreated hupper
      obtain ⟨created, hattempt⟩ := createFrom_attempt ht (rises_above habove hupper) rfl hcreated
      cases created with
      | nil =>
        rw [hattempt.same rfl rfl] at hdir
        exact hmissing hdir
      | cons c rest =>
        obtain ⟨hq, hresolve⟩ := hattempt.resolve_of_created
        rw [isDirectory_eq_false_of_empty habove hup hq hresolve (hattempt.empty c rfl)] at hdir
        cases hdir

/-! ## 3. Directories that have been created -/

/-- What is known when the directories that are missing for a path have been created, if none of
them ends in `..`. -/
theorem createDirectories_attempt (ht : t.IsClosed)
    (hup : ∀ r ∈ t.missing p, r.components.getLast? ≠ some .up)
    (hmake : t.createDirectories p = (.ok (), t')) :
    ∃ created, Attempt t p p.above (.ok ()) t' created := by
  by_cases htext : p.text = ""
  · exact createFrom_attempt ht (.empty htext) rfl hmake
  by_cases hexists : t.pathExists p = true
  · exact createFrom_attempt ht (rises_of_exists hexists) rfl hmake
  have hexists : t.pathExists p = false := by simpa using hexists
  rw [missing_eq, absent_cons htext hexists] at hup
  have hupper : ∀ r ∈ t.absent p.above, lastStep r ≠ .up := fun r hr hlast =>
    hup r (List.mem_cons_of_mem p hr) (getLast?_components_of_up hlast)
  by_cases hname : ∃ name slash, lastStep p = .name name slash
  · obtain ⟨name, slash, hlast⟩ := hname
    obtain ⟨q, others, heq, habove⟩ := exists_above_of_lastStep hlast
    rw [createDirectories, ancestors, heq] at hmake
    rw [heq] at hupper ⊢
    exact createFrom_attempt ht (.step habove (rises_above heq hupper)) rfl hmake
  · have hlast : ∀ name slash, lastStep p ≠ .name name slash := fun name slash heq =>
      hname ⟨name, slash, heq⟩
    exact absurd hmake
      (createDirectories_ne_ok ht htext hexists hlast (hup p List.mem_cons_self) hupper)

/-- Where nothing is missing, nothing is created. -/
theorem createFrom_of_absent_eq_nil (habsent : t.absent ps = [])
    (hfrom : t.createFrom ps = (result, t')) : t' = t := by
  cases ps with
  | nil =>
    cases hfrom
    rfl
  | cons p above =>
    by_cases htext : p.text = ""
    · rw [createFrom, if_pos (by simpa using htext)] at hfrom
      cases hfrom
      rfl
    · have hfound : t.pathExists p ≠ false := by
        intro hexists
        rw [absent_cons htext hexists] at habsent
        cases habsent
      cases createFrom_cases htext hfrom with
      | settled | failed => rfl
      | made hmake => exact absurd (not_pathExists_of_createDirectory (.inl ⟨_, hmake⟩)) hfound
      | aboveFailed hmake | madeAfter hmake | settledAfter hmake | failedAfter hmake =>
        exact absurd (not_pathExists_of_createDirectory (.inr hmake)) hfound

/-- A path for which the directories have been created leads to one. -/
theorem isDirectory_of_createDirectories (htext : p.text ≠ "")
    (hmake : t.createDirectories p = (.ok (), t')) : t'.isDirectory p = true := by
  have hnew : ∀ {t₁ : FileTree}, t₁.createDirectory p = .ok t' → t'.isDirectory p = true := by
    intro t₁ hcreate
    obtain ⟨c, hne, -, rfl, hresolve⟩ := resolve_of_createDirectory hcreate
    exact isDirectory_iff.mpr ⟨c, hresolve, by rw [node?_put hne, if_pos rfl]⟩
  cases createFrom_cases htext hmake with
  | made hcreate => exact hnew hcreate
  | settled _ _ hdir => exact hdir
  | madeAfter _ _ hagain => exact hnew hagain
  | settledAfter _ _ _ hdir => exact hdir

/-- Creating the directories for a path leaves the tree as it is only if none is missing. -/
theorem createDirectories_eq_self_iff (hmake : t.createDirectories p = (.ok (), t')) :
    t' = t ↔ t.missing p = [] := by
  constructor
  · rintro rfl
    by_cases htext : p.text = ""
    · exact absent_eq_nil (.inl htext)
    · exact absent_eq_nil
        (.inr (pathExists_of_isDirectory (isDirectory_of_createDirectories htext hmake)))
  · exact fun hmissing => createFrom_of_absent_eq_nil hmissing hmake

end FatJar.FileTree
