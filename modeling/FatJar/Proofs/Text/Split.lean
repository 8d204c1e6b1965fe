/-
FatJar.Proofs.Text.Split — what cutting a list at its separators gives.

Contents:
1. a list without a separator (`splitWhere_of_forall`), two lists with a
   separator between them (`splitWhere_append_separator`), and so one piece at a
   time (`splitWhere_append_cons`);
2. no piece holds a separator, and more separators cut the pieces further;
3. the first separator of a list (`cutAt?_eq_some_iff`, `cutAt?_eq_none_iff`).
-/
import FatJar.Text.Split

namespace FatJar.Text

variable {α : Type} {p : α → Bool} {xs ys zs : List α} {a : α}

/-! ## 1. Pieces -/

/-- A separator ends a piece. -/
theorem splitWhere_cons_separator (h : p a = true) :
    splitWhere p (a :: xs) = [] :: splitWhere p xs := by
  rw [splitWhere, if_pos h]

/-- Any other element belongs to the first piece. -/
theorem splitWhere_cons_other (h : p a = false) :
    splitWhere p (a :: xs) = extendFirst a (splitWhere p xs) := by
  rw [splitWhere, h]
  simp

/-- A list without a separator is one piece. -/
theorem splitWhere_of_forall (hxs : ∀ x ∈ xs, p x = false) : splitWhere p xs = [xs] := by
  induction xs with
  | nil => rfl
  | cons x rest ih =>
    have hrest := ih fun y hy => hxs y (List.mem_cons_of_mem x hy)
    rw [splitWhere_cons_other (hxs x List.mem_cons_self), hrest]
    rfl

/-- A separator cuts a list into two whose pieces follow one another. -/
theorem splitWhere_append_separator (xs : List α) (ha : p a = true) :
    splitWhere p (xs ++ a :: ys) = splitWhere p xs ++ splitWhere p ys := by
  induction xs with
  | nil => exact splitWhere_cons_separator ha
  | cons x rest ih =>
    cases hx : p x with
    | true =>
      rw [List.cons_append, splitWhere_cons_separator hx, splitWhere_cons_separator hx, ih,
        List.cons_append]
    | false =>
      rw [List.cons_append, splitWhere_cons_other hx, splitWhere_cons_other hx, ih]
      cases hsplit : splitWhere p rest with
      | nil => exact absurd hsplit (splitWhere_ne_nil p rest)
      | cons piece pieces => rfl

/-- The first piece goes up to the first separator. -/
theorem splitWhere_append_cons (hxs : ∀ x ∈ xs, p x = false) (ha : p a = true) :
    splitWhere p (xs ++ a :: ys) = xs :: splitWhere p ys := by
  rw [splitWhere_append_separator xs ha, splitWhere_of_forall hxs]
  rfl

/-! ## 2. No separators in pieces -/

/-- A piece holds elements of the list that are no separators. -/
theorem mem_of_mem_splitWhere {piece : List α} (h : piece ∈ splitWhere p xs) :
    ∀ x ∈ piece, x ∈ xs ∧ p x = false := by
  induction xs generalizing piece with
  | nil =>
    rw [splitWhere, List.mem_singleton] at h
    subst h
    intro x hx
    cases hx
  | cons y rest ih =>
    cases hy : p y with
    | true =>
      rw [splitWhere_cons_separator hy] at h
      intro x hx
      rcases List.mem_cons.mp h with rfl | h
      · cases hx
      · exact ⟨List.mem_cons_of_mem y (ih h x hx).1, (ih h x hx).2⟩
    | false =>
      rw [splitWhere_cons_other hy] at h
      cases hsplit : splitWhere p rest with
      | nil => exact absurd hsplit (splitWhere_ne_nil p rest)
      | cons first others =>
        rw [hsplit, extendFirst] at h
        intro x hx
        rcases List.mem_cons.mp h with rfl | h
        · rcases List.mem_cons.mp hx with rfl | hx
          · exact ⟨List.mem_cons_self, hy⟩
          · have hfirst := ih (hsplit ▸ List.mem_cons_self) x hx
            exact ⟨List.mem_cons_of_mem y hfirst.1, hfirst.2⟩
        · have hother := ih (hsplit ▸ List.mem_cons_of_mem first h) x hx
          exact ⟨List.mem_cons_of_mem y hother.1, hother.2⟩

/-- With further separators each piece is cut by itself. -/
theorem splitWhere_eq_flatMap {q : α → Bool} (h : ∀ a, p a = true → q a = true) (xs : List α) :
    splitWhere q xs = (splitWhere p xs).flatMap (splitWhere q) := by
  induction xs with
  | nil => rfl
  | cons x rest ih =>
    cases hp : p x with
    | true =>
      rw [splitWhere_cons_separator (h x hp), splitWhere_cons_separator hp, List.flatMap_cons, ih]
      rfl
    | false =>
      cases hsplit : splitWhere p rest with
      | nil => exact absurd hsplit (splitWhere_ne_nil p rest)
      | cons first others =>
        rw [hsplit, List.flatMap_cons] at ih
        rw [splitWhere_cons_other hp, hsplit, extendFirst, List.flatMap_cons]
        cases hq : q x with
        | true => rw [splitWhere_cons_separator hq, splitWhere_cons_separator hq, ih]; rfl
        | false =>
          rw [splitWhere_cons_other hq, splitWhere_cons_other hq, ih]
          cases hfirst : splitWhere q first with
          | nil => exact absurd hfirst (splitWhere_ne_nil q first)
          | cons piece pieces => rfl

/-- A piece without one of the further separators stays whole. -/
theorem mem_splitWhere_of_forall {q : α → Bool} (h : ∀ a, p a = true → q a = true)
    {piece : List α} (hmem : piece ∈ splitWhere p xs) (hpiece : ∀ x ∈ piece, q x = false) :
    piece ∈ splitWhere q xs := by
  rw [splitWhere_eq_flatMap h, List.mem_flatMap]
  refine ⟨piece, hmem, ?_⟩
  rw [splitWhere_of_forall hpiece]
  exact List.mem_singleton_self piece

/-! ## 3. The first separator -/

/-- The cut is at the first separator. -/
theorem cutAt?_append_cons (hxs : ∀ x ∈ xs, p x = false) (ha : p a = true) :
    cutAt? p (xs ++ a :: ys) = some (xs, ys) := by
  induction xs with
  | nil => rw [List.nil_append, cutAt?, if_pos ha]
  | cons x rest ih =>
    have hx : p x = false := hxs x List.mem_cons_self
    rw [List.cons_append, cutAt?, hx, ih fun y hy => hxs y (List.mem_cons_of_mem x hy)]
    rfl

/-- What is cut is the two parts with a separator between them. -/
theorem eq_of_cutAt? (h : cutAt? p xs = some (ys, zs)) : ∃ a, p a = true ∧ xs = ys ++ a :: zs := by
  induction xs generalizing ys with
  | nil => cases h
  | cons x rest ih =>
    rw [cutAt?] at h
    split at h
    · cases h
      exact ⟨x, ‹_›, rfl⟩
    · obtain ⟨⟨before, after⟩, hcut, heq⟩ := Option.map_eq_some_iff.mp h
      cases heq
      obtain ⟨a, ha, hrest⟩ := ih hcut
      exact ⟨a, ha, by rw [hrest, List.cons_append]⟩

theorem cutAt?_eq_none_iff : cutAt? p xs = none ↔ ∀ x ∈ xs, p x = false := by
  induction xs with
  | nil => simp [cutAt?]
  | cons x rest ih =>
    rw [cutAt?]
    cases hx : p x with
    | true => simp [hx]
    | false => simp [hx, ih]

/-- No separator stands before the cut. -/
theorem forall_of_cutAt? (h : cutAt? p xs = some (ys, zs)) : ∀ y ∈ ys, p y = false := by
  induction xs generalizing ys with
  | nil => cases h
  | cons x rest ih =>
    rw [cutAt?] at h
    split at h
    · cases h
      simp
    · rename_i hx
      obtain ⟨⟨before, after⟩, hcut, heq⟩ := Option.map_eq_some_iff.mp h
      cases heq
      intro y hy
      rcases List.mem_cons.mp hy with rfl | hy
      · simpa using hx
      · exact ih hcut y hy

theorem cutAt?_eq_some_iff :
    cutAt? p xs = some (ys, zs) ↔
      (∀ y ∈ ys, p y = false) ∧ ∃ a, p a = true ∧ xs = ys ++ a :: zs := by
  constructor
  · intro h
    exact ⟨forall_of_cutAt? h, eq_of_cutAt? h⟩
  · rintro ⟨hys, a, ha, rfl⟩
    exact cutAt?_append_cons hys ha

end FatJar.Text
