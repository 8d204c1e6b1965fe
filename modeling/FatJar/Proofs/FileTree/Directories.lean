/-
FatJar.Proofs.FileTree.Directories — creating directories, and taking them back.

Creating a directory with those above it may fail at any rung of the ladder, with
some of them created. Whatever happens, the directories that were missing before
are exactly what has to be removed, in their order, to get the tree back
(`Attempt.restores`): those that were created are empty when their turn comes, and
the others are not there.

Contents:
1. one directory: what `createDirectory` and `removeDirectory` do;
2. trees grown by new directories;
3. what is missing, and removing it;
4. ladders: paths of which each is above the one before it;
5. the attempt to create a ladder of directories;
6. a way that goes up again from a directory that is missing.
-/
import FatJar.Bundle.Writing
import FatJar.Proofs.FileTree.Ancestors

namespace FatJar.FileTree

open FatJar.Path

variable {t t' t₁ : FileTree} {p q : Path} {above ps : List Path} {created : List Place}
  {h place : Place} {name : String} {slash : Bool} {result : Except FileError Unit}
  {e : FileError}

/-! ## 1. One directory -/

theorem createDirectory_eq_ok (hcreate : t.createDirectory p = .ok t') :
    ∃ h name slash, lastStep p = .name name slash ∧
      t.holder maxLinks t.workingDirectory p = .ok h ∧ isLong name = false ∧
      t.node? (h ++ [name]) = none ∧ t' = t.put (h ++ [name]) .directory := by
  obtain ⟨h, hholder, hrest⟩ := Outcome.bind_eq_ok.mp hcreate
  split at hrest
  · rename_i name slash hlast
    split at hrest
    · cases hrest
    · rename_i hshort
      split at hrest
      · cases hrest
      · rename_i hnode
        cases hrest
        exact ⟨h, name, slash, hlast, hholder, by simpa using hshort, by simpa using hnode, rfl⟩
  · cases hrest

/-- Where a path leads to something, no directory is created. -/
theorem createDirectory_of_pathExists (hlast : lastStep p = .name name slash)
    (hexists : t.pathExists p = true) : t.createDirectory p = .error .alreadyExists := by
  obtain ⟨found, hresolve⟩ := pathExists_iff.mp hexists
  obtain ⟨h, hholder, hshort, hnode⟩ := exists_holder_of_resolve hlast hresolve
  have hsome : (t.node? (h ++ [name])).isSome = true := Option.isSome_iff_ne_none.mpr hnode
  rw [createDirectory, hholder, hlast]
  simp [bind, Except.bind, hshort, hsome]

/-- The directory itself and the one above are not created. -/
theorem createDirectory_of_holder (hholder : t.holder maxLinks t.workingDirectory p = .ok h)
    (hlast : ∀ name slash, lastStep p ≠ .name name slash) :
    t.createDirectory p = .error .alreadyExists := by
  rw [createDirectory, hholder]
  simp only [bind, Except.bind]

/-- Where a path has no steps before the last, no directory is missed. -/
theorem createDirectory_top (hparts : p.parts.dropLast = []) (hcheck : checkPath p = .ok ())
    (hlast : ∀ name slash, lastStep p ≠ .name name slash) :
    ∃ e, e ≠ .notFound ∧ t.createDirectory p = .error e := by
  by_cases hdir : t.node? (start t.workingDirectory p) = some .directory
  · have hwalks : Walks t maxLinks (start t.workingDirectory p) p.parts.dropLast maxLinks
        (start t.workingDirectory p) := by
      rw [hparts]
      exact .nil
    have hholder := holder_eq_ok_iff.mpr ⟨hcheck, ⟨maxLinks, hwalks⟩, hdir⟩
    exact ⟨.alreadyExists, nofun, createDirectory_of_holder hholder hlast⟩
  · refine ⟨.notDirectory, nofun, ?_⟩
    rw [createDirectory, holder, hcheck, hparts, walk]
    simp [bind, Except.bind, hdir]

/-- Where a path leads to something, whatever its last step is, no directory above it is missed. -/
theorem createDirectory_of_exists (hexists : t.pathExists p = true) :
    ∃ e, e ≠ .notFound ∧ t.createDirectory p = .error e := by
  obtain ⟨found, hresolve⟩ := pathExists_iff.mp hexists
  by_cases hname : ∃ name slash, lastStep p = .name name slash
  · obtain ⟨name, slash, hlast⟩ := hname
    exact ⟨.alreadyExists, nofun, createDirectory_of_pathExists hlast hexists⟩
  · have hlast : ∀ name slash, lastStep p ≠ .name name slash := fun name slash heq =>
      hname ⟨name, slash, heq⟩
    rcases List.eq_nil_or_concat p.parts with hparts | ⟨before, last, hparts⟩
    · exact createDirectory_top (by rw [hparts]; rfl) (exists_walks_parts hresolve).1 hlast
    · rw [List.concat_eq_append] at hparts
      obtain ⟨h, hholder⟩ := exists_holder_of_parts hresolve hparts
      exact ⟨.alreadyExists, nofun, createDirectory_of_holder hholder hlast⟩

/-- Where there is a directory already, nothing has to be created. -/
theorem createDirectories_of_isDirectory (hdir : t.isDirectory p = true) :
    t.createDirectories p = (.ok (), t) := by
  obtain ⟨found, hresolve, -⟩ := isDirectory_iff.mp hdir
  obtain ⟨e, he, hrefused⟩ := createDirectory_of_exists (pathExists_iff.mpr ⟨found, hresolve⟩)
  rw [createDirectories, Path.ancestors, createFrom]
  split
  · rfl
  · rw [hrefused]
    cases e with
    | notFound => exact absurd rfl he
    | _ => simp [createFrom.settle, hdir]

/-- Only a path that leads nowhere is created, or missed for want of a directory above it. -/
theorem not_pathExists_of_createDirectory
    (hmake : (∃ t', t.createDirectory p = .ok t') ∨ t.createDirectory p = .error .notFound) :
    t.pathExists p = false := by
  apply Bool.eq_false_iff.mpr
  intro hexists
  obtain ⟨e, he, hrefused⟩ := createDirectory_of_exists hexists
  rcases hmake with ⟨t', hmake⟩ | hmake
  · rw [hrefused] at hmake
    cases hmake
  · rw [hrefused] at hmake
    exact he (Except.error.inj hmake)

/-- A path leads to the directory that has just been created for it. -/
theorem resolve_put_directory (hlast : lastStep p = .name name slash)
    (hholder : t.holder maxLinks t.workingDirectory p = .ok h) (hshort : isLong name = false)
    (hnew : t.node? (h ++ [name]) = none) :
    (t.put (h ++ [name]) .directory).resolve p = .ok (h ++ [name]) := by
  have hne : h ++ [name] ≠ [] := by simp
  have hnode : (t.put (h ++ [name]) .directory).node? (h ++ [name]) = some .directory := by
    rw [node?_put hne, if_pos rfl]
  exact resolve_of_holder hlast (holder_keeps (keeps_put hne hnew .directory) hholder) hshort hnode
    (fun _ => nofun) fun _ => rfl

/-- A directory that is created is new, and its path leads to it. -/
theorem resolve_of_createDirectory (hmake : t.createDirectory p = .ok t') :
    ∃ c, c ≠ [] ∧ t.node? c = none ∧ t' = t.put c .directory ∧ t'.resolve p = .ok c := by
  obtain ⟨h, name, slash, hlast, hholder, hshort, hnew, rfl⟩ := createDirectory_eq_ok hmake
  exact ⟨h ++ [name], by simp, hnew, rfl, resolve_put_directory hlast hholder hshort hnew⟩

theorem removeDirectory_eq_ok (hremove : t.removeDirectory p = .ok t') :
    ∃ h name slash, lastStep p = .name name slash ∧
      t.holder maxLinks t.workingDirectory p = .ok h ∧ isLong name = false ∧
      t.node? (h ++ [name]) = some .directory ∧ t.names (h ++ [name]) = [] ∧
      t' = t.remove (h ++ [name]) := by
  obtain ⟨h, hholder, hrest⟩ := Outcome.bind_eq_ok.mp hremove
  split at hrest
  · cases hrest
  · cases hrest
  · cases hrest
  · rename_i name slash hlast
    split at hrest
    · cases hrest
    · rename_i hshort
      split at hrest
      · cases hrest
      · rename_i hnode
        split at hrest
        · rename_i hempty
          cases hrest
          exact ⟨h, name, slash, hlast, hholder, by simpa using hshort, hnode,
            by simpa using hempty, rfl⟩
        · cases hrest
      · cases hrest

/-- Only a path that leads to a directory can be removed as one. -/
theorem isDirectory_of_removeDirectory (hremove : t.removeDirectory p = .ok t') :
    t.isDirectory p = true := by
  obtain ⟨h, name, slash, hlast, hholder, hshort, hnode, -, -⟩ := removeDirectory_eq_ok hremove
  have hresolve := resolve_of_holder hlast hholder hshort hnode (fun _ => nofun) fun _ => rfl
  exact isDirectory_iff.mpr ⟨h ++ [name], hresolve, hnode⟩

theorem pathExists_of_isDirectory (hdir : t.isDirectory p = true) : t.pathExists p = true := by
  obtain ⟨found, hresolve, -⟩ := isDirectory_iff.mp hdir
  exact pathExists_iff.mpr ⟨found, hresolve⟩

theorem isDirectory_of_not_pathExists (hexists : t.pathExists p = false) :
    t.isDirectory p = false := by
  apply Bool.eq_false_iff.mpr
  intro hdir
  rw [pathExists_of_isDirectory hdir] at hexists
  cases hexists

/-- A directory that has just been created is removed again, and nothing is left of it. -/
theorem removeDirectory_put (ht : t.IsClosed) (hlast : lastStep p = .name name slash)
    (hholder : t.holder maxLinks t.workingDirectory p = .ok h) (hshort : isLong name = false)
    (hnew : t.node? (h ++ [name]) = none) :
    (t.put (h ++ [name]) .directory).removeDirectory p = .ok t := by
  have hne : h ++ [name] ≠ [] := by simp
  have hholder' := holder_keeps (keeps_put hne hnew .directory) hholder
  have hnode : (t.put (h ++ [name]) .directory).node? (h ++ [name]) = some .directory := by
    rw [node?_put hne, if_pos rfl]
  rw [removeDirectory, hholder', hlast]
  simp [bind, Except.bind, hshort, hnode, ht.names_put hnew, remove_put hne hnew]

/-! ## 2. Grown trees -/

/-- The second tree is the first with new directories. -/
structure Grown (t t' : FileTree) (created : List Place) : Prop where
  node? : ∀ q, t'.node? q = if q ∈ created then some .directory else t.node? q
  fresh : ∀ c ∈ created, t.node? c = none
  workingDirectory : t'.workingDirectory = t.workingDirectory

theorem Grown.refl (t : FileTree) : Grown t t [] where
  node? := by simp
  fresh := by simp
  workingDirectory := rfl

theorem Grown.put (hgrown : Grown t t' created) (hne : place ≠ [])
    (hnew : t'.node? place = none) :
    Grown t (t'.put place .directory) (place :: created) := by
  have hplace : place ∉ created ∧ t.node? place = none := by
    rw [hgrown.node?] at hnew
    split at hnew
    · cases hnew
    · rename_i hmem
      exact ⟨hmem, hnew⟩
  refine ⟨?_, ?_, ?_⟩
  · intro q
    rw [node?_put hne, hgrown.node?]
    by_cases hq : q = place
    · simp [hq]
    · simp [hq]
  · intro c hc
    rcases List.mem_cons.mp hc with rfl | hc
    · exact hplace.2
    · exact hgrown.fresh c hc
  · rw [workingDirectory_put, hgrown.workingDirectory]

theorem Grown.keeps (hgrown : Grown t t' created) : Keeps t t' where
  node? := by
    intro q node hq
    rw [hgrown.node?, if_neg]
    · exact hq
    · intro hmem
      rw [hgrown.fresh q hmem] at hq
      cases hq
  workingDirectory := hgrown.workingDirectory

theorem map_resolve_keeps (hkeeps : Keeps t t') (hleads : ps.map t.resolve = created.map .ok) :
    ps.map t'.resolve = created.map .ok := by
  induction ps generalizing created with
  | nil => exact hleads
  | cons p above ih =>
    cases created with
    | nil => cases hleads
    | cons c rest =>
      obtain ⟨hp, habove⟩ := List.cons.inj hleads
      rw [List.map_cons, List.map_cons, resolve_keeps hkeeps hp, ih habove]

/-! ## 3. What is missing -/

/-- The paths, from the innermost up, that lead nowhere. -/
def absent (t : FileTree) (ps : List Path) : List Path :=
  ps.takeWhile fun p => p.text != "" && !t.pathExists p

theorem missing_eq (t : FileTree) (p : Path) : t.missing p = t.absent (p :: p.above) := rfl

theorem absent_cons (htext : p.text ≠ "") (hexists : t.pathExists p = false) :
    t.absent (p :: above) = p :: t.absent above := by
  rw [absent, List.takeWhile_cons_of_pos]
  · rfl
  · simp [htext, hexists]

theorem absent_eq_nil (hhead : p.text = "" ∨ t.pathExists p = true) :
    t.absent (p :: above) = [] := by
  rw [absent, List.takeWhile_cons_of_neg]
  rcases hhead with htext | hexists
  · simp [htext]
  · simp [hexists]

theorem pathExists_of_mem_absent (hmem : p ∈ t.absent ps) : t.pathExists p = false := by
  have hpaths := List.all_eq_true.mp List.all_takeWhile p hmem
  rw [Bool.and_eq_true, Bool.not_eq_true'] at hpaths
  exact hpaths.2

theorem text_ne_of_mem_absent (hmem : p ∈ t.absent ps) : p.text ≠ "" := by
  have hpaths := List.all_eq_true.mp List.all_takeWhile p hmem
  rw [Bool.and_eq_true, bne_iff_ne] at hpaths
  exact hpaths.1

theorem removeDirectories_cons_of_ok (hremove : t.removeDirectory p = .ok t') :
    t.removeDirectories (p :: above) = t'.removeDirectories above := by
  rw [removeDirectories, List.foldl_cons, hremove]
  rfl

theorem removeDirectories_cons_of_not (hdir : t.isDirectory p = false) :
    t.removeDirectories (p :: above) = t.removeDirectories above := by
  rw [removeDirectories, List.foldl_cons]
  cases hremove : t.removeDirectory p with
  | error e => rfl
  | ok t' =>
    rw [isDirectory_of_removeDirectory hremove] at hdir
    cases hdir

/-- Removing what is not there does nothing. -/
theorem removeDirectories_absent (hps : ∀ p ∈ ps, t.pathExists p = false) :
    t.removeDirectories ps = t := by
  induction ps with
  | nil => rfl
  | cons p above ih =>
    rw [removeDirectories_cons_of_not (isDirectory_of_not_pathExists (hps p List.mem_cons_self))]
    exact ih fun q hq => hps q (List.mem_cons_of_mem p hq)

/-! ## 4. Ladders -/

/-- Paths of which each is above the one before it, up to one that is not missed in the tree. -/
inductive Rises (t : FileTree) : List Path → Prop
  | top {p : Path} {above : List Path} {e : FileError} (htext : p.text ≠ "") (he : e ≠ .notFound)
      (htop : t.createDirectory p = .error e) : Rises t (p :: above)
  | empty {p : Path} {above : List Path} (htext : p.text = "") : Rises t (p :: above)
  | step {p q : Path} {above : List Path} (habove : Above p q) (hrest : Rises t (q :: above)) :
      Rises t (p :: q :: above)

theorem rises_of_exists (hexists : t.pathExists p = true) : Rises t (p :: above) := by
  by_cases htext : p.text = ""
  · exact .empty htext
  · obtain ⟨e, he, htop⟩ := createDirectory_of_exists hexists
    exact .top htext he htop

/-- Going up leads step by step to a path that is not missed, unless a missing one ends in `..`. -/
theorem rises_of_written {first : List Char} {pieces : List (List Char)}
    (hw : Written first pieces)
    (hup : ∀ p ∈ t.absent (ofPieces first (pieces.dropWhile isSkipped)).ancestors,
      lastStep p ≠ .up) :
    Rises t (ofPieces first (pieces.dropWhile isSkipped)).ancestors := by
  rw [ancestors, hw.dropWhile.above_eq, piecesAbove_dropWhile] at hup ⊢
  induction pieces with
  | nil =>
    rcases (lead_cases _).mp hw.lead with rfl | ⟨rfl, -⟩ | ⟨rfl, -⟩
    · obtain ⟨e, he, htop⟩ := createDirectory_top (t := t) (p := ⟨"/"⟩) rfl rfl nofun
      exact .top (by decide) he htop
    · obtain ⟨e, he, htop⟩ := createDirectory_top (t := t) (p := ⟨"."⟩) rfl rfl nofun
      exact .top (by decide) he htop
    · exact .empty rfl
  | cons piece rest ih =>
    by_cases hpiece : isSkipped piece
    · rw [List.dropWhile_cons_of_pos hpiece, piecesAbove, if_pos hpiece] at hup ⊢
      exact ih hw.tail hup
    · rw [List.dropWhile_cons_of_neg hpiece, piecesAbove, if_neg hpiece] at hup ⊢
      have hlast := hw.getLast?_parts (by simpa using hpiece)
      by_cases hexists : t.pathExists (ofPieces first (piece :: rest)) = true
      · exact rises_of_exists hexists
      · have htext : (ofPieces first (piece :: rest)).text ≠ "" := text_ne_of_parts hlast
        rw [List.map_cons, List.cons_append, absent_cons htext (by simpa using hexists)] at hup
        have hdots : piece ≠ ['.', '.'] := by
          rintro rfl
          exact hup _ List.mem_cons_self (lastStep_eq_up_iff.mpr hlast)
        refine .step (hw.above (by simpa using hpiece) hdots) (ih hw.tail ?_)
        exact fun p hp => hup p (List.mem_cons_of_mem _ hp)

/-! ## 5. The attempt to create a ladder of directories -/

/-- How creating a directory and those above it can go. -/
inductive Creates (t : FileTree) (p : Path) (above : List Path) :
    Except FileError Unit → FileTree → Prop
  | made {t' : FileTree} (hmake : t.createDirectory p = .ok t') : Creates t p above (.ok ()) t'
  | settled {e : FileError} (he : e ≠ .notFound) (hmake : t.createDirectory p = .error e)
      (hdir : t.isDirectory p = true) : Creates t p above (.ok ()) t
  | failed {e : FileError} (he : e ≠ .notFound) (hmake : t.createDirectory p = .error e)
      (hdir : t.isDirectory p = false) : Creates t p above (.error e) t
  | aboveFailed {e : FileError} {t' : FileTree} (hmake : t.createDirectory p = .error .notFound)
      (habove : t.createFrom above = (.error e, t')) : Creates t p above (.error e) t'
  | madeAfter {t₁ t' : FileTree} (hmake : t.createDirectory p = .error .notFound)
      (habove : t.createFrom above = (.ok (), t₁)) (hagain : t₁.createDirectory p = .ok t') :
      Creates t p above (.ok ()) t'
  | settledAfter {e : FileError} {t₁ : FileTree} (hmake : t.createDirectory p = .error .notFound)
      (habove : t.createFrom above = (.ok (), t₁)) (hagain : t₁.createDirectory p = .error e)
      (hdir : t₁.isDirectory p = true) : Creates t p above (.ok ()) t₁
  | failedAfter {e : FileError} {t₁ : FileTree} (hmake : t.createDirectory p = .error .notFound)
      (habove : t.createFrom above = (.ok (), t₁)) (hagain : t₁.createDirectory p = .error e)
      (hdir : t₁.isDirectory p = false) : Creates t p above (.error e) t₁

theorem createFrom_cases (htext : p.text ≠ "") (hfrom : t.createFrom (p :: above) = (result, t')) :
    Creates t p above result t' := by
  rw [createFrom, if_neg (by simpa using htext)] at hfrom
  split at hfrom
  · rename_i t₁ hmake
    cases hfrom
    exact .made hmake
  · rename_i hmake
    split at hfrom
    · rename_i e t₁ habove
      cases hfrom
      exact .aboveFailed hmake habove
    · rename_i t₁ habove
      unfold createFrom.settle at hfrom
      split at hfrom
      · rename_i t₂ hagain
        cases hfrom
        exact .madeAfter hmake habove hagain
      · rename_i e hagain
        split at hfrom
        · cases hfrom
          exact .settledAfter hmake habove hagain ‹_›
        · rename_i hdir
          cases hfrom
          exact .failedAfter hmake habove hagain (by simpa using hdir)
  · rename_i e he hmake
    simp only [createFrom.settle] at hfrom
    split at hfrom
    · cases hfrom
      exact .settled he hmake ‹_›
    · rename_i hdir
      cases hfrom
      exact .failed he hmake (by simpa using hdir)

/-- However creating directories ends, the tree has grown by directories to which paths lead that
were missing. -/
theorem createFrom_grown (hfrom : t.createFrom ps = (result, t')) :
    ∃ created, Grown t t' created ∧ ∀ c ∈ created, ∃ q ∈ t.absent ps, t'.resolve q = .ok c := by
  induction ps generalizing result t' with
  | nil =>
    cases hfrom
    exact ⟨[], .refl t, by simp⟩
  | cons p above ih =>
    have hmiss : p.text ≠ "" → t.createDirectory p = .error .notFound →
        t.absent (p :: above) = p :: t.absent above := fun htext hmake =>
      absent_cons htext (not_pathExists_of_createDirectory (.inr hmake))
    by_cases htext : p.text = ""
    · rw [createFrom, if_pos (by simpa using htext)] at hfrom
      cases hfrom
      exact ⟨[], .refl t, by simp⟩
    · cases createFrom_cases htext hfrom with
      | made hmake =>
        obtain ⟨c, hne, hnew, rfl, hresolve⟩ := resolve_of_createDirectory hmake
        refine ⟨[c], (Grown.refl t).put hne hnew, List.forall_mem_singleton.mpr ⟨p, ?_, hresolve⟩⟩
        rw [absent_cons htext (not_pathExists_of_createDirectory (.inl ⟨_, hmake⟩))]
        exact List.mem_cons_self
      | settled => exact ⟨[], .refl t, by simp⟩
      | failed => exact ⟨[], .refl t, by simp⟩
      | madeAfter hmake habove hagain =>
        obtain ⟨created, hgrown, hleads⟩ := ih habove
        obtain ⟨c, hne, hnew, rfl, hresolve⟩ := resolve_of_createDirectory hagain
        refine ⟨c :: created, hgrown.put hne hnew, List.forall_mem_cons.mpr ⟨⟨p, ?_, hresolve⟩, ?_⟩⟩
        · rw [hmiss htext hmake]
          exact List.mem_cons_self
        · intro d hd
          obtain ⟨q, hq, hqresolve⟩ := hleads d hd
          rw [hmiss htext hmake]
          exact ⟨q, List.mem_cons_of_mem p hq, resolve_keeps (keeps_put hne hnew _) hqresolve⟩
      | aboveFailed hmake habove | settledAfter hmake habove | failedAfter hmake habove =>
        obtain ⟨created, hgrown, hleads⟩ := ih habove
        refine ⟨created, hgrown, fun d hd => ?_⟩
        obtain ⟨q, hq, hqresolve⟩ := hleads d hd
        rw [hmiss htext hmake]
        exact ⟨q, List.mem_cons_of_mem p hq, hqresolve⟩

/-- What is known after an attempt, whether it succeeds or not. -/
structure Attempt (t : FileTree) (p : Path) (above : List Path) (result : Except FileError Unit)
    (t' : FileTree) (created : List Place) : Prop where
  closed : t'.IsClosed
  grown : Grown t t' created
  /-- The innermost of the new directories is empty. -/
  empty : ∀ c ∈ created.head?, ∀ name, t'.node? (c ++ [name]) = none
  /-- Removing what was missing gives the tree back. -/
  restores : t'.removeDirectories (t.absent (p :: above)) = t
  /-- After a success, the paths that were missing lead to the new directories. -/
  leads : result = .ok () → (t.absent (p :: above)).map t'.resolve = created.map .ok
  same : result = .ok () → created = [] → t' = t
  failed : ∀ e, result = .error e → p.text ≠ "" ∧ t'.isDirectory p = false

/-- Nothing is created where a directory stands already. -/
theorem Attempt.settled (ht : t.IsClosed) (hp : p.text = "" ∨ t.isDirectory p = true) :
    Attempt t p above (.ok ()) t [] := by
  have habsent : t.absent (p :: above) = [] :=
    absent_eq_nil (hp.imp_right pathExists_of_isDirectory)
  refine ⟨ht, .refl t, by simp, ?_, ?_, fun _ _ => rfl, nofun⟩
  · rw [habsent]
    rfl
  · intro _
    rw [habsent]
    rfl

/-- An attempt that fails before anything is created. -/
theorem Attempt.unchanged (ht : t.IsClosed) (htext : p.text ≠ "") (hdir : t.isDirectory p = false) :
    Attempt t p above (.error e) t [] where
  closed := ht
  grown := .refl t
  empty := by simp
  restores := removeDirectories_absent fun _ hq => pathExists_of_mem_absent hq
  leads := nofun
  same := nofun
  failed := fun _ _ => ⟨htext, hdir⟩

/-- An attempt that fails after the directories above have been tried. -/
theorem Attempt.fail (hattempt : Attempt t q above result t₁ created) (htext : p.text ≠ "")
    (hexists : t.pathExists p = false) (hdir : t₁.isDirectory p = false) :
    Attempt t p (q :: above) (.error e) t₁ created where
  closed := hattempt.closed
  grown := hattempt.grown
  empty := hattempt.empty
  restores := by
    rw [absent_cons htext hexists, removeDirectories_cons_of_not hdir]
    exact hattempt.restores
  leads := nofun
  same := nofun
  failed := fun _ _ => ⟨htext, hdir⟩

/-- An attempt that creates a directory in those that have been created above it. -/
theorem Attempt.make (hattempt : Attempt t q above (.ok ()) t₁ created) (htext : p.text ≠ "")
    (hexists : t.pathExists p = false) (hmake : t₁.createDirectory p = .ok t') :
    ∃ c, Attempt t p (q :: above) (.ok ()) t' (c :: created) := by
  obtain ⟨h, name, slash, hlast, hholder, hshort, hnew, rfl⟩ := createDirectory_eq_ok hmake
  have hne : h ++ [name] ≠ [] := by simp
  have hkeeps := keeps_put hne hnew .directory
  have hplace : t₁.node? h = some .directory := (holder_eq_ok_iff.mp hholder).2.2
  have hresolve := resolve_put_directory hlast hholder hshort hnew
  refine ⟨h ++ [name], ?_, hattempt.grown.put hne hnew, ?_, ?_, ?_, nofun, nofun⟩
  · exact hattempt.closed.put hplace (by simp [hnew]) .directory
  · -- nothing stood below a place where nothing stood
    intro c hc other
    cases hc
    rw [node?_put hne, if_neg (by simp)]
    exact hattempt.closed.node?_below hnew other
  · rw [absent_cons htext hexists, removeDirectories_cons_of_ok
      (removeDirectory_put hattempt.closed hlast hholder hshort hnew)]
    exact hattempt.restores
  · intro _
    rw [absent_cons htext hexists, List.map_cons, List.map_cons, hresolve,
      map_resolve_keeps hkeeps (hattempt.leads rfl)]

/-- Where a new directory is the innermost, the path of the attempt leads to it. -/
theorem Attempt.resolve_of_created {c : Place}
    (hattempt : Attempt t p above (.ok ()) t₁ (c :: created)) :
    p.text ≠ "" ∧ t₁.resolve p = .ok c := by
  have hleads := hattempt.leads rfl
  have hp : ¬ (p.text = "" ∨ t.pathExists p = true) := by
    intro hp
    rw [absent_eq_nil hp] at hleads
    cases hleads
  obtain ⟨htext, hexists⟩ := not_or.mp hp
  rw [absent_cons htext (by simpa using hexists)] at hleads
  exact ⟨htext, (List.cons.inj hleads).1⟩

/-- A path does not come to lead to a directory because those above it were created. -/
theorem Attempt.not_isDirectory (hattempt : Attempt t q above (.ok ()) t₁ created)
    (habove : Above p q) (hexists : t.pathExists p = false) : t₁.isDirectory p = false := by
  cases created with
  | nil =>
    rw [hattempt.same rfl rfl]
    exact isDirectory_of_not_pathExists hexists
  | cons c rest =>
    -- the directory above is new, so that nothing is in it
    apply Bool.eq_false_iff.mpr
    intro hdir
    obtain ⟨htext, hresolve⟩ := hattempt.resolve_of_created
    obtain ⟨found, hfound, -⟩ := isDirectory_iff.mp hdir
    obtain ⟨name, hlast⟩ := above_lastStep habove
    obtain ⟨h, hholder, -, hnode⟩ := exists_holder_of_resolve hlast hfound
    have hcheck := (holder_eq_ok_iff.mp hholder).1
    obtain ⟨hq, -⟩ := (holder_iff_of_above habove htext hcheck).mp hholder
    rw [hresolve] at hq
    cases hq
    exact hnode (hattempt.empty c rfl name)

/-- An attempt that is not refused for want of a directory above. -/
theorem Attempt.top (ht : t.IsClosed) (htext : p.text ≠ "") (he : e ≠ .notFound)
    (htop : t.createDirectory p = .error e) (hfrom : t.createFrom (p :: above) = (result, t')) :
    Attempt t p above result t' [] := by
  have hfound : t.createDirectory p ≠ .error .notFound := by
    rw [htop]
    intro heq
    exact he (Except.error.inj heq)
  cases createFrom_cases htext hfrom with
  | made hmake =>
    rw [htop] at hmake
    cases hmake
  | settled _ _ hdir => exact .settled ht (.inr hdir)
  | failed _ _ hdir => exact .unchanged ht htext hdir
  | aboveFailed hmake => exact absurd hmake hfound
  | madeAfter hmake => exact absurd hmake hfound
  | settledAfter hmake => exact absurd hmake hfound
  | failedAfter hmake => exact absurd hmake hfound

theorem isDirectory_above_of_holder (habove : Above p q)
    (hholder : t.holder maxLinks t.workingDirectory p = .ok h) :
    q.text = "" ∨ t.isDirectory q = true := by
  by_cases htext : q.text = ""
  · exact .inl htext
  · have hcheck := (holder_eq_ok_iff.mp hholder).1
    obtain ⟨hq, hdir⟩ := (holder_iff_of_above habove htext hcheck).mp hholder
    exact .inr (isDirectory_iff.mpr ⟨h, hq, hdir⟩)

/-- Where the path above leads to no directory, the path leads to none. -/
theorem isDirectory_of_not_above (habove : Above p q) (htext : q.text ≠ "")
    (hq : t.isDirectory q = false) : t.isDirectory p = false := by
  apply Bool.eq_false_iff.mpr
  intro hdir
  obtain ⟨name, hlast⟩ := above_lastStep habove
  obtain ⟨found, hresolve, -⟩ := isDirectory_iff.mp hdir
  obtain ⟨h, hholder, -, -⟩ := exists_holder_of_resolve hlast hresolve
  rcases isDirectory_above_of_holder habove hholder with hempty | hupper
  · exact htext hempty
  · rw [hq] at hupper
    cases hupper

/-- Whatever becomes of the attempt to create a ladder of directories, the tree has grown by
directories that are removed again with those that were missing. -/
theorem createFrom_attempt (ht : t.IsClosed) (hrises : Rises t ps) (hps : ps = p :: above)
    (hfrom : t.createFrom (p :: above) = (result, t')) :
    ∃ created, Attempt t p above result t' created := by
  -- up the ladder: what is tried first for a path is tried again after those above it
  induction hrises generalizing p above result t' with
  | empty htext =>
    cases hps
    rw [createFrom, if_pos (by simpa using htext)] at hfrom
    cases hfrom
    exact ⟨[], .settled ht (.inl htext)⟩
  | top htext he htop =>
    cases hps
    exact ⟨[], .top ht htext he htop hfrom⟩
  | @step p q uppers habove hrest ih =>
    cases hps
    have htext := habove.text_ne
    cases createFrom_cases htext hfrom with
    | made hmake =>
      obtain ⟨h, -, -, -, hholder, -, -, -⟩ := createDirectory_eq_ok hmake
      have hq := isDirectory_above_of_holder habove hholder
      have hexists := not_pathExists_of_createDirectory (.inl ⟨_, hmake⟩)
      obtain ⟨c, hattempt⟩ := (Attempt.settled ht hq).make htext hexists hmake
      exact ⟨[c], hattempt⟩
    | settled _ _ hdir => exact ⟨[], .settled ht (.inr hdir)⟩
    | failed _ _ hdir => exact ⟨[], .unchanged ht htext hdir⟩
    | aboveFailed hmake hupper =>
      obtain ⟨created, hattempt⟩ := ih rfl hupper
      have hexists := not_pathExists_of_createDirectory (.inr hmake)
      obtain ⟨hqtext, hqdir⟩ := hattempt.failed _ rfl
      have hdir := isDirectory_of_not_above habove hqtext hqdir
      exact ⟨created, hattempt.fail htext hexists hdir⟩
    | madeAfter hmake hupper hagain =>
      obtain ⟨created, hattempt⟩ := ih rfl hupper
      have hexists := not_pathExists_of_createDirectory (.inr hmake)
      obtain ⟨c, hattempt⟩ := hattempt.make htext hexists hagain
      exact ⟨c :: created, hattempt⟩
    | settledAfter hmake hupper _ hdir =>
      obtain ⟨created, hattempt⟩ := ih rfl hupper
      have hexists := not_pathExists_of_createDirectory (.inr hmake)
      rw [hattempt.not_isDirectory habove hexists] at hdir
      cases hdir
    | failedAfter hmake hupper _ hdir =>
      obtain ⟨created, hattempt⟩ := ih rfl hupper
      have hexists := not_pathExists_of_createDirectory (.inr hmake)
      exact ⟨created, hattempt.fail htext hexists hdir⟩

/-! ## 6. A way through a directory that is missing -/

/-- A path that goes up again from a directory that is missing leads on once that one has been
created, and so nothing else is created. -/
theorem createDirectories_throughMissing (hbase : t.workingDirectory = [])
    (hn : t.node? ["n"] = none) (hd : t.node? ["d"] = some .directory) :
    t.createDirectories ⟨"n/../d"⟩ = (.ok (), t.put ["n"] .directory) := by
  have hdown : ReadsAs ⟨"n/../d"⟩ ["n", "..", "d"] := ⟨rfl, rfl, rfl, rfl⟩
  have hup : ReadsAs ⟨"n/.."⟩ ["n", ".."] := ⟨rfl, rfl, rfl, rfl⟩
  have hname : ReadsAs ⟨"n"⟩ ["n"] := ⟨rfl, rfl, rfl, rfl⟩
  have hisName : IsName "n" := ⟨by decide, by decide⟩
  have hshort : isLong "n" = false := by decide
  have hroot : t.node? [] = some .directory := rfl
  have hmissed : ∀ steps, t.walk maxLinks [] ("n" :: steps) = .error .notFound := by
    intro steps
    rw [walk]
    simp [hroot, hshort, hn]
  have hdown₁ : t.createDirectory ⟨"n/../d"⟩ = .error .notFound := by
    rw [createDirectory, hdown.holder_eq, hbase, List.dropLast_cons_cons, hmissed]
    rfl
  have hup₁ : t.createDirectory ⟨"n/.."⟩ = .error .notFound := by
    rw [createDirectory, hup.holder_eq, hbase, List.dropLast_cons_cons, hmissed]
    rfl
  have hmade : t.createDirectory ⟨"n"⟩ = .ok (t.put ["n"] .directory) := by
    have hlast : lastStep ⟨"n"⟩ = .name "n" false := rfl
    rw [createDirectory, hname.holder_eq, hbase, hlast]
    simp [walk, bind, Except.bind, hroot, hshort, hn]
  -- now the other two paths lead to directories
  have hput : ∀ q, (t.put ["n"] .directory).node? q =
      if q = ["n"] then some .directory else t.node? q := node?_put (by decide)
  have hnew : (t.put ["n"] .directory).node? ["n"] = some .directory := by rw [hput, if_pos rfl]
  have hkept : (t.put ["n"] .directory).node? ["d"] = some .directory := by
    rw [hput, if_neg (by decide), hd]
  have hthrough : Walks (t.put ["n"] .directory) maxLinks [] ["n", ".."] maxLinks [] :=
    .enter rfl hisName hshort hnew (by simp) (.up hnew .nil)
  have hup₂ : (t.put ["n"] .directory).isDirectory ⟨"n/.."⟩ = true := by
    refine isDirectory_iff.mpr ⟨[], ?_, rfl⟩
    rw [hup.resolve_eq, workingDirectory_put, hbase]
    exact hthrough.walk_eq_ok
  have hdown₂ : (t.put ["n"] .directory).isDirectory ⟨"n/../d"⟩ = true := by
    refine isDirectory_iff.mpr ⟨["d"], ?_, hkept⟩
    rw [hdown.resolve_eq, workingDirectory_put, hbase]
    exact (hthrough.append
      (.enter rfl ⟨by decide, by decide⟩ (by decide) hkept (by simp) .nil)).walk_eq_ok
  obtain ⟨e₁, -, hup₃⟩ := createDirectory_of_exists (pathExists_of_isDirectory hup₂)
  obtain ⟨e₂, -, hdown₃⟩ := createDirectory_of_exists (pathExists_of_isDirectory hdown₂)
  have hancestors : Path.ancestors ⟨"n/../d"⟩ = [⟨"n/../d"⟩, ⟨"n/.."⟩, ⟨"n"⟩, ⟨""⟩] := rfl
  simp [createDirectories, hancestors, createFrom, createFrom.settle, hdown₁, hup₁, hmade, hup₂,
    hup₃, hdown₂, hdown₃]

end FatJar.FileTree
