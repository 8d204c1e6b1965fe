/-
FatJar.Proofs.FileTree.Components — what a path is made of, however it is written.

Slashes that are repeated or stand at the end, and `.` anywhere but at the start, are
no components. Where a path leads to a directory depends on its components only
(`resolve_iff_of_components`), and going up drops the last of them
(`pairwise_isBelow_ancestors`).

Contents:
1. components;
2. components of the paths above;
3. walks without `.`.
-/
import FatJar.Proofs.FileTree.Ancestors

namespace FatJar

/-! ## 1. Components -/

/-- A component of a path. -/
inductive Component where
  /-- The root, with which an absolute path starts. -/
  | root
  /-- A `.` with which a relative path starts. -/
  | here
  | up
  | name (text : String)
  deriving DecidableEq, Repr

/-- The component that stands in a part other than `.`. -/
def Component.ofPart (part : String) : Component :=
  if part == ".." then .up else .name part

/-- The step that is taken for a component, if there is one. -/
def Component.step? : Component → Option String
  | .root | .here => none
  | .up => some ".."
  | .name text => some text

@[simp]
theorem Component.step?_ofPart (part : String) : (ofPart part).step? = some part := by
  by_cases h : part = ".."
  · subst h
    rfl
  · simp [ofPart, h, step?]

namespace Path

open FatJar.Text (splitWhere)

variable {first piece : List Char} {pieces rest : List (List Char)} {p q r sub : Path}

/-- The component with which a path starts before its names. -/
def leading (p : Path) : List Component :=
  if p.isAbsolute then [.root] else if p.parts.head? == some "." then [.here] else []

/-- The parts that lead to another directory. -/
def moves (p : Path) : List String :=
  p.parts.filter (· != ".")

/-- The components of a path. -/
def components (p : Path) : List Component :=
  p.leading ++ p.moves.map .ofPart

/-- A path that leads down from a directory by names only. -/
def IsNormal (p : Path) : Prop :=
  ∀ c ∈ p.components, ∃ text, c = .name text

instance (p : Path) : Decidable p.IsNormal :=
  decidable_of_iff (∀ c ∈ p.components, c ≠ .root ∧ c ≠ .here ∧ c ≠ .up) <|
    forall₂_congr fun c _ => by cases c <;> simp

/-- A path strictly below another, as they are written. -/
def IsBelow (p q : Path) : Prop :=
  q.components <+: p.components ∧ q.components ≠ p.components

theorem IsBelow.trans (hpq : IsBelow p q) (hqr : IsBelow q r) : IsBelow p r := by
  refine ⟨hqr.1.trans hpq.1, fun heq => hqr.2 ?_⟩
  exact hqr.1.eq_of_length_le (heq ▸ hpq.1.length_le)

theorem IsBelow.congr (h : p.components = q.components) (hbelow : IsBelow q r) : IsBelow p r := by
  rw [IsBelow, h]
  exact hbelow

theorem filterMap_step?_components (p : Path) :
    p.components.filterMap Component.step? = p.moves := by
  have hleading : p.leading.filterMap Component.step? = [] := by
    rw [leading]
    split
    · simp [Component.step?]
    · split <;> simp [Component.step?]
  have hparts : Component.step? ∘ .ofPart = some := funext Component.step?_ofPart
  rw [components, List.filterMap_append, hleading, List.filterMap_map, hparts, List.filterMap_some,
    List.nil_append]

theorem root_mem_components : .root ∈ p.components ↔ p.isAbsolute = true := by
  have hmoves : Component.root ∉ p.moves.map .ofPart := by
    rw [List.mem_map]
    rintro ⟨part, -, heq⟩
    have hstep := Component.step?_ofPart part
    rw [heq] at hstep
    cases hstep
  rw [components, List.mem_append, or_iff_left hmoves, leading]
  cases p.isAbsolute with
  | true => simp
  | false =>
    rw [if_neg Bool.false_ne_true]
    split <;> simp

/-- The components tell where a path starts and where it goes from there. -/
theorem eq_of_components (h : p.components = q.components) :
    p.isAbsolute = q.isAbsolute ∧ p.moves = q.moves := by
  refine ⟨?_, ?_⟩
  · rw [Bool.eq_iff_iff, ← root_mem_components, ← root_mem_components, h]
  · rw [← filterMap_step?_components, ← filterMap_step?_components, h]

theorem IsNormal.isAbsolute (hsub : sub.IsNormal) : sub.isAbsolute = false := by
  apply Bool.eq_false_iff.mpr
  intro habsolute
  obtain ⟨text, heq⟩ := hsub .root (root_mem_components.mpr habsolute)
  cases heq

theorem IsNormal.leading (hsub : sub.IsNormal) : sub.leading = [] := by
  cases hleading : sub.leading with
  | nil => rfl
  | cons c more =>
    obtain ⟨text, rfl⟩ := hsub c (List.mem_append_left _ (hleading ▸ List.mem_cons_self))
    rw [Path.leading, hsub.isAbsolute, if_neg Bool.false_ne_true] at hleading
    split at hleading <;> simp at hleading

/-! ## 2. Components of the paths above -/

/-- A path that starts with neither a slash nor a dot by itself has no `.` as its first part. -/
theorem head?_parts_of_lead {body : List Char} (h : lead body = ([], body)) :
    (parts ⟨String.ofList body⟩).head? ≠ some "." := by
  intro hhead
  rw [parts, String.toList_ofList] at hhead
  have hjoin := joinPieces_splitWhere body
  cases hsplit : splitWhere (· == '/') body with
  | nil => exact absurd hsplit (Text.splitWhere_ne_nil _ _)
  | cons piece more =>
    rw [hsplit, List.reverse_cons] at hjoin
    cases piece with
    | nil =>
      -- the text is empty or starts with a slash
      by_cases hmore : more = []
      · subst hmore
        rw [hsplit] at hhead
        simp at hhead
      · rw [joinPieces_concat_nil (by simpa using hmore)] at hjoin
        rw [← hjoin, lead] at h
        cases h
    | cons c cs =>
      have hdot : String.ofList (c :: cs) = "." := by simpa [hsplit] using hhead
      have hlist : c :: cs = ['.'] := by simpa using congrArg String.toList hdot
      obtain ⟨rfl, rfl⟩ := List.cons.inj hlist
      rw [joinPieces_concat_cons] at hjoin
      by_cases hmore : more = []
      · subst hmore
        rw [← hjoin] at h
        cases h
      · rw [joinPieces_concat_nil (by simpa using hmore)] at hjoin
        rw [← hjoin, lead] at h
        cases h

theorem Written.leading (hw : Written first pieces) :
    (ofPieces first pieces).leading =
      if first = ['/'] then [.root] else if first = ['.'] then [.here] else [] := by
  rw [Path.leading, hw.isAbsolute]
  rcases (lead_cases _).mp hw.lead with rfl | ⟨rfl, -⟩ | ⟨rfl, hlead⟩
  · rfl
  · rw [hw.parts]
    rfl
  · have hhead := head?_parts_of_lead hlead
    have hpath : ofPieces [] pieces = ⟨String.ofList (joinPieces pieces)⟩ := by
      rw [ofPieces, List.nil_append]
    rw [hpath]
    simp [hhead]

theorem Written.moves (hw : Written first pieces) :
    (ofPieces first pieces).moves =
      (pieces.reverse.filter fun piece => !isSkipped piece).map String.ofList := by
  have hlead : (if first == ['.'] then ["."] else []).filter (· != ".") = [] := by
    split <;> simp
  have hdot : ∀ piece : List Char, (String.ofList piece == ".") = (piece == ['.']) := by
    intro piece
    rw [Bool.eq_iff_iff, beq_iff_eq, beq_iff_eq]
    exact ⟨fun h => by simpa using congrArg String.toList h, fun h => by rw [h]⟩
  rw [Path.moves, hw.parts, List.filter_append, hlead, List.nil_append, List.filter_map,
    List.filter_filter]
  congr 2
  funext piece
  simp [bne, hdot, isSkipped, Bool.and_comm]

/-- A piece that is skipped adds no component. -/
theorem Written.components_skipped (hw : Written first (piece :: rest)) (hpiece : isSkipped piece) :
    (ofPieces first (piece :: rest)).components = (ofPieces first rest).components := by
  rw [components, components, hw.leading, hw.moves, hw.tail.leading, hw.tail.moves]
  simp [hpiece]

/-- A piece that is not skipped is the last component. -/
theorem Written.components_cons (hw : Written first (piece :: rest))
    (hpiece : isSkipped piece = false) :
    (ofPieces first (piece :: rest)).components =
      (ofPieces first rest).components ++ [.ofPart (String.ofList piece)] := by
  rw [components, components, hw.leading, hw.moves, hw.tail.leading, hw.tail.moves]
  simp [hpiece]

theorem Written.components_dropWhile (hw : Written first pieces) :
    (ofPieces first (pieces.dropWhile isSkipped)).components =
      (ofPieces first pieces).components := by
  induction pieces with
  | nil => rfl
  | cons piece rest ih =>
    by_cases hpiece : isSkipped piece
    · rw [List.dropWhile_cons_of_pos hpiece, ih hw.tail, hw.components_skipped hpiece]
    · rw [List.dropWhile_cons_of_neg hpiece]

theorem Written.pairwise_isBelow (hw : Written first pieces) :
    (ofPieces first pieces).ancestors.Pairwise IsBelow := by
  rw [ancestors, hw.above_eq]
  induction pieces with
  | nil =>
    have hempty : components ⟨""⟩ = [] := rfl
    have hdot : components (ofPieces ['.'] []) = [.here] := rfl
    by_cases hfirst : first = ['.']
    · subst hfirst
      simp [piecesAbove, IsBelow, hempty, hdot]
    · simp [piecesAbove, hfirst]
  | cons piece rest ih =>
    obtain ⟨hbelow, hrest⟩ := List.pairwise_cons.mp (ih hw.tail)
    by_cases hpiece : isSkipped piece
    · rw [piecesAbove, if_pos hpiece]
      refine List.pairwise_cons.mpr ⟨fun q hq => ?_, hrest⟩
      exact (hbelow q hq).congr (hw.components_skipped hpiece)
    · have hcomponents := hw.components_cons (by simpa using hpiece)
      have hdrop := hw.tail.components_dropWhile
      have hfirst : IsBelow (ofPieces first (piece :: rest))
          (ofPieces first (rest.dropWhile isSkipped)) := by
        rw [IsBelow, hcomponents, hdrop]
        exact ⟨List.prefix_append .., by simp⟩
      rw [piecesAbove, if_neg hpiece, List.map_cons, List.cons_append]
      refine List.pairwise_cons.mpr ⟨?_, List.pairwise_cons.mpr ⟨?_, hrest⟩⟩
      · intro q hq
        rcases List.mem_cons.mp hq with rfl | hq
        · exact hfirst
        · exact hfirst.trans ((hbelow q hq).congr hdrop)
      · exact fun q hq => (hbelow q hq).congr hdrop

/-- Each path is below those that going up comes upon. -/
theorem pairwise_isBelow_ancestors (p : Path) : p.ancestors.Pairwise IsBelow := by
  obtain ⟨first, pieces, hw, -, rfl⟩ := exists_written p
  exact hw.pairwise_isBelow

/-- The path above is written before the last name, behind which only `.` may stand. -/
theorem Written.exists_parts_above (hw : Written first pieces) {others : List Path}
    (hup : (ofPieces first pieces).components.getLast? ≠ some .up)
    (habove : (ofPieces first pieces).above = q :: others) (hq : q.text ≠ "") :
    q.isAbsolute = (ofPieces first pieces).isAbsolute ∧ ∃ k name more, FileTree.IsName name ∧
      (ofPieces first pieces).parts = q.parts ++ List.replicate k "." ++ name :: more := by
  rw [hw.above_eq] at habove
  induction pieces with
  | nil =>
    -- above a path without names, there is only the empty one
    rw [piecesAbove, List.map_nil, List.nil_append] at habove
    split at habove
    · cases habove
      exact absurd rfl hq
    · cases habove
  | cons piece rest ih =>
    by_cases hpiece : isSkipped piece
    · rw [piecesAbove, if_pos hpiece] at habove
      rw [hw.components_skipped hpiece] at hup
      obtain ⟨habsolute, k, name, more, hname, hparts⟩ := ih hw.tail hup habove
      rw [hw.tail.isAbsolute] at habsolute
      rw [hw.tail.parts] at hparts
      refine ⟨by rw [habsolute, hw.isAbsolute], k, name,
        more ++ ([piece].filter fun piece => !piece.isEmpty).map String.ofList, hname, ?_⟩
      rw [hw.parts, List.reverse_cons, List.filter_append, List.map_append, ← List.append_assoc,
        hparts, List.append_assoc, List.cons_append]
    · rw [piecesAbove, if_neg hpiece, List.map_cons, List.cons_append] at habove
      obtain ⟨rfl, -⟩ := List.cons.inj habove
      have hdots : piece ≠ ['.', '.'] := by
        rintro rfl
        rw [hw.components_cons rfl, List.getLast?_concat] at hup
        exact hup rfl
      have hstep := hw.above (by simpa using hpiece) hdots
      obtain ⟨k, name, hname, hparts⟩ := hstep.parts
      exact ⟨hstep.isAbsolute, k, name, [], hname, hparts⟩

end Path

namespace FileTree

open FatJar.Path

variable {t : FileTree} {links left : Nat} {place found : Place} {steps : List String}
  {p q : Path}

/-! ## 3. Walks without `.` -/

/-- A walk that ends in a directory starts in one. -/
theorem Walks.node?_of_found (hw : Walks t links place steps left found)
    (hdir : t.node? found = some .directory) : t.node? place = some .directory := by
  cases steps with
  | nil =>
    cases hw
    exact hdir
  | cons name rest => exact hw.node?_of_cons

/-- Steps to the directory itself can be left out or put in on the way to a directory. -/
theorem walks_filter_iff (hdir : t.node? found = some .directory) :
    Walks t links place (steps.filter (· != ".")) left found ↔
      Walks t links place steps left found := by
  induction steps generalizing links place with
  | nil => exact Iff.rfl
  | cons name rest ih =>
    by_cases hname : name = "."
    · subst hname
      rw [List.filter_cons_of_neg (by simp), ih]
      exact ⟨fun hw => .here (hw.node?_of_found hdir) hw, fun hw => hw.of_dot.2⟩
    · rw [List.filter_cons_of_pos (by simpa using hname), ← List.singleton_append,
        ← List.singleton_append (l := rest), walks_append_iff, walks_append_iff]
      simp only [ih]

theorem filter_steps (p : Path) : p.steps.filter (· != ".") = p.moves := by
  rw [Path.steps, moves]
  split
  · simp
  · rfl

/-- Which directory a path leads to depends on its components only. -/
theorem resolve_iff_of_components (h : p.components = q.components) (hp : checkPath p = .ok ())
    (hq : checkPath q = .ok ()) (hdir : t.node? found = some .directory) :
    t.resolve p = .ok found ↔ t.resolve q = .ok found := by
  obtain ⟨habsolute, hmoves⟩ := eq_of_components h
  have hstart : start t.workingDirectory p = start t.workingDirectory q := by
    rw [start, start, habsolute]
  have hsame : ∀ left, Walks t maxLinks (start t.workingDirectory p) p.steps left found ↔
      Walks t maxLinks (start t.workingDirectory q) q.steps left found := by
    intro left
    rw [hstart, ← walks_filter_iff hdir, filter_steps, hmoves, ← filter_steps q,
      walks_filter_iff hdir]
  simp only [resolve_eq_ok_iff, hp, hq, true_and, hsame]

end FileTree

end FatJar
