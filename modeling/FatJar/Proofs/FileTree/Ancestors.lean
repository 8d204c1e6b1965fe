/-
FatJar.Proofs.FileTree.Ancestors — the directories above a path, as written and in
a tree.

Going up drops a name together with the `.` components beside it. So each path of
`Path.ancestors` is the next one, some `.` components and a name or `..`. Where it is
a name (`Above`), the holder of a path is where the next path leads
(`holder_iff_of_above`).

Contents:
1. pieces and the text that is made of them;
2. the paths that going up goes through;
3. going up step by step;
4. the holder of a path and the path above it.
-/
import FatJar.Proofs.FileTree.Walk
import FatJar.Proofs.Text.Split

namespace FatJar.Path

/-! ## 1. Pieces -/

/-- The path with a given start and pieces; the pieces are given from the last to the first. -/
def ofPieces (lead : List Char) (pieces : List (List Char)) : Path :=
  ⟨String.ofList (lead ++ joinPieces pieces)⟩

@[simp]
theorem toList_ofPieces (lead : List Char) (pieces : List (List Char)) :
    (ofPieces lead pieces).text.toList = lead ++ joinPieces pieces :=
  String.toList_ofList

/-- Paths are written alike when their characters are the same. -/
theorem eq_of_toList {p q : Path} (h : p.text.toList = q.text.toList) : p = q := by
  rcases p with ⟨text⟩
  rcases q with ⟨text'⟩
  exact congrArg Path.mk (String.toList_inj.mp h)

/-- The start and the pieces are those that are read off the path they make. -/
structure Written (first : List Char) (pieces : List (List Char)) : Prop where
  slash : ∀ piece ∈ pieces, ∀ c ∈ piece, (c == '/') = false
  lead : lead (first ++ joinPieces pieces) = (first, joinPieces pieces)

variable {first piece : List Char} {pieces rest : List (List Char)} {p : Path}

theorem joinPieces_cons (hrest : rest ≠ []) :
    joinPieces (piece :: rest) = joinPieces rest ++ '/' :: piece := by
  cases rest with
  | nil => exact absurd rfl hrest
  | cons other others => rfl

theorem joinPieces_concat_cons (c : Char) (pieces : List (List Char)) (piece : List Char) :
    joinPieces (pieces ++ [c :: piece]) = c :: joinPieces (pieces ++ [piece]) := by
  induction pieces with
  | nil => rfl
  | cons other others ih =>
    rw [List.cons_append, List.cons_append, joinPieces_cons (by simp), joinPieces_cons (by simp),
      ih, List.cons_append]

theorem joinPieces_concat_nil (hne : pieces ≠ []) :
    joinPieces (pieces ++ [[]]) = '/' :: joinPieces pieces := by
  induction pieces with
  | nil => exact absurd rfl hne
  | cons other others ih =>
    rw [List.cons_append, joinPieces_cons (by simp)]
    cases others with
    | nil => rfl
    | cons next more =>
      rw [ih (by simp)]
      rfl

theorem splitWhere_joinPieces (hslash : ∀ piece ∈ pieces, ∀ c ∈ piece, (c == '/') = false)
    (hne : pieces ≠ []) : Text.splitWhere (· == '/') (joinPieces pieces) = pieces.reverse := by
  fun_induction joinPieces pieces with
  | case1 => exact absurd rfl hne
  | case2 piece =>
    rw [Text.splitWhere_of_forall (hslash piece List.mem_cons_self)]
    rfl
  | case3 piece rest hrest ih =>
    have hfirst := hslash piece List.mem_cons_self
    have hothers := ih (fun other hother => hslash other (List.mem_cons_of_mem piece hother)) hrest
    rw [Text.splitWhere_append_separator _ (by rfl), Text.splitWhere_of_forall hfirst, hothers,
      List.reverse_cons]

theorem joinPieces_splitWhere (body : List Char) :
    joinPieces (Text.splitWhere (· == '/') body).reverse = body := by
  induction body with
  | nil => rfl
  | cons c rest ih =>
    have hne := Text.splitWhere_ne_nil (· == '/') rest
    cases hc : c == '/' with
    | true =>
      have hsplit : Text.splitWhere (· == '/') (c :: rest) =
          [] :: Text.splitWhere (· == '/') rest := Text.splitWhere_cons_separator hc
      rw [hsplit, List.reverse_cons, joinPieces_concat_nil (by simpa using hne), ih,
        beq_iff_eq.mp hc]
    | false =>
      have hcons : Text.splitWhere (· == '/') (c :: rest) =
          Text.extendFirst c (Text.splitWhere (· == '/') rest) := Text.splitWhere_cons_other hc
      cases hsplit : Text.splitWhere (· == '/') rest with
      | nil => exact absurd hsplit hne
      | cons piece pieces =>
        rw [hsplit, List.reverse_cons] at ih
        rw [hcons, hsplit, Text.extendFirst, List.reverse_cons, joinPieces_concat_cons, ih]

/-- The start of a path is the root's slash, a dot before a slash or the end, or nothing. -/
theorem lead_cases (body : List Char) :
    lead (first ++ body) = (first, body) ↔
      first = ['/'] ∨ first = ['.'] ∧ (body = [] ∨ ∃ more, body = '/' :: more) ∨
        first = [] ∧ lead body = ([], body) := by
  constructor
  · intro h
    generalize hcs : first ++ body = cs at h
    fun_cases lead cs with
    | case1 rest =>
      rw [lead] at h
      cases h
      exact .inl rfl
    | case2 =>
      rw [lead] at h
      cases h
      exact .inr (.inl ⟨rfl, .inl rfl⟩)
    | case3 rest =>
      rw [lead] at h
      cases h
      exact .inr (.inl ⟨rfl, .inr ⟨rest, rfl⟩⟩)
    | case4 cs h₁ h₂ h₃ =>
      have hlead := lead.eq_4 cs h₁ h₂ h₃
      rw [hlead] at h
      obtain ⟨rfl, rfl⟩ := Prod.mk.inj h
      exact .inr (.inr ⟨rfl, hlead⟩)
  · rintro (rfl | ⟨rfl, rfl | ⟨more, rfl⟩⟩ | ⟨rfl, h⟩)
    · rfl
    · rfl
    · rfl
    · exact h

/-- What stands before a slash is read off in the same way. -/
theorem lead_of_append_slash {body more : List Char}
    (h : lead (first ++ (body ++ '/' :: more)) = (first, body ++ '/' :: more)) :
    lead (first ++ body) = (first, body) := by
  rw [lead_cases] at h ⊢
  rcases h with rfl | ⟨rfl, hbody⟩ | ⟨rfl, hlead⟩
  · exact .inl rfl
  · refine .inr (.inl ⟨rfl, ?_⟩)
    cases body with
    | nil => exact .inl rfl
    | cons c rest =>
      rcases hbody with hnil | ⟨tail, htail⟩
      · cases hnil
      · exact .inr ⟨rest, by rw [(List.cons.inj htail).1]⟩
  · refine .inr (.inr ⟨rfl, ?_⟩)
    -- a body of one dot would be a start by itself, since a slash follows
    fun_cases lead body with
    | case1 rest => simp [lead] at hlead
    | case2 => simp [lead] at hlead
    | case3 rest => simp [lead] at hlead
    | case4 => rfl

theorem append_of_lead {cs body : List Char} (h : lead cs = (first, body)) :
    cs = first ++ body := by
  fun_cases lead cs with
  | case1 => cases h; rfl
  | case2 => cases h; rfl
  | case3 => cases h; rfl
  | case4 _ h₁ h₂ h₃ =>
    rw [lead.eq_4 cs h₁ h₂ h₃] at h
    cases h
    rfl

/-- Every path is made of its own start and pieces. -/
theorem exists_written (p : Path) :
    ∃ first pieces, Written first pieces ∧ pieces ≠ [] ∧ p = ofPieces first pieces := by
  rcases hlead : lead p.text.toList with ⟨first, body⟩
  have hcs := append_of_lead hlead
  have hjoin := joinPieces_splitWhere body
  refine ⟨first, (Text.splitWhere (· == '/') body).reverse, ⟨?_, ?_⟩, ?_, ?_⟩
  · intro piece hpiece c hc
    exact (Text.mem_of_mem_splitWhere (List.mem_reverse.mp hpiece) c hc).2
  · rw [hjoin, ← hcs, hlead]
  · simpa using Text.splitWhere_ne_nil (· == '/') body
  · rw [ofPieces, hjoin, ← hcs, String.ofList_toList]

theorem Written.tail (hw : Written first (piece :: rest)) : Written first rest where
  slash := fun other hother => hw.slash other (List.mem_cons_of_mem piece hother)
  lead := by
    by_cases hrest : rest = []
    · subst hrest
      have hlead := hw.lead
      rw [lead_cases] at hlead ⊢
      rcases hlead with rfl | ⟨rfl, -⟩ | ⟨rfl, -⟩
      · exact .inl rfl
      · exact .inr (.inl ⟨rfl, .inl rfl⟩)
      · exact .inr (.inr ⟨rfl, rfl⟩)
    · have hlead := hw.lead
      rw [joinPieces_cons hrest] at hlead
      exact lead_of_append_slash hlead

theorem Written.dropWhile (hw : Written first pieces) :
    Written first (pieces.dropWhile isSkipped) := by
  induction pieces with
  | nil => exact hw
  | cons piece rest ih =>
    rw [List.dropWhile_cons]
    split
    · exact ih hw.tail
    · exact hw

theorem Written.of_append {skipped : List (List Char)} (hw : Written first (skipped ++ rest)) :
    Written first rest := by
  induction skipped with
  | nil => exact hw
  | cons piece more ih => exact ih hw.tail

/-! ## 2. Paths made of pieces -/

theorem Written.isAbsolute (hw : Written first pieces) :
    (ofPieces first pieces).isAbsolute = (first == ['/']) := by
  rw [Path.isAbsolute, toList_ofPieces]
  rcases (lead_cases _).mp hw.lead with rfl | ⟨rfl, -⟩ | ⟨rfl, hlead⟩
  · rfl
  · rfl
  · rw [List.nil_append]
    cases hbody : joinPieces pieces with
    | nil => rfl
    | cons c body =>
      by_cases hc : c = '/'
      · rw [hbody, hc, Path.lead] at hlead
        cases hlead
      · simp [hc]

theorem filter_splitWhere_joinPieces
    (hslash : ∀ piece ∈ pieces, ∀ c ∈ piece, (c == '/') = false) :
    ((Text.splitWhere (· == '/') (joinPieces pieces)).filter fun piece => !piece.isEmpty) =
      pieces.reverse.filter fun piece => !piece.isEmpty := by
  by_cases hne : pieces = []
  · subst hne
    rfl
  · rw [splitWhere_joinPieces hslash hne]

/-- The parts are the pieces that are not empty, after the dot that may stand first. -/
theorem Written.parts (hw : Written first pieces) :
    (ofPieces first pieces).parts = (if first == ['.'] then ["."] else []) ++
      (pieces.reverse.filter fun piece => !piece.isEmpty).map String.ofList := by
  rw [Path.parts, toList_ofPieces, ← filter_splitWhere_joinPieces hw.slash]
  rcases (lead_cases _).mp hw.lead with rfl | ⟨rfl, hbody | ⟨body, hbody⟩⟩ | ⟨rfl, -⟩
  · rfl
  · rw [hbody]
    rfl
  · rw [hbody]
    rfl
  · rfl

/-- A path and the path above it: going up drops a name and the `.` components before it. -/
structure Above (p q : Path) : Prop where
  isAbsolute : q.isAbsolute = p.isAbsolute
  text : q.text.toList <+: p.text.toList
  parts : ∃ k name, FileTree.IsName name ∧ p.parts = q.parts ++ List.replicate k "." ++ [name]

theorem text_ne_of_parts {name : String} (hlast : p.parts.getLast? = some name) : p.text ≠ "" := by
  intro htext
  rw [Path.parts, htext] at hlast
  simp [Text.splitWhere] at hlast

theorem Above.text_ne {p q : Path} (habove : Above p q) : p.text ≠ "" := by
  obtain ⟨k, name, -, hparts⟩ := habove.parts
  exact text_ne_of_parts (hparts ▸ List.getLast?_concat)

theorem joinPieces_tail_isPrefix (piece : List Char) (rest : List (List Char)) :
    joinPieces rest <+: joinPieces (piece :: rest) := by
  cases rest with
  | nil => exact List.nil_prefix
  | cons other others => exact List.prefix_append ..

theorem joinPieces_dropWhile_isPrefix (pieces : List (List Char)) :
    joinPieces (pieces.dropWhile isSkipped) <+: joinPieces pieces := by
  induction pieces with
  | nil => exact List.prefix_rfl
  | cons piece rest ih =>
    rw [List.dropWhile_cons]
    split
    · exact ih.trans (joinPieces_tail_isPrefix piece rest)
    · exact List.prefix_rfl

theorem joinPieces_append_isPrefix (more rest : List (List Char)) :
    joinPieces rest <+: joinPieces (more ++ rest) := by
  induction more with
  | nil => exact List.prefix_rfl
  | cons piece others ih => exact ih.trans (joinPieces_tail_isPrefix piece (others ++ rest))

/-- The pieces that going up skips are dots, where they are anything. -/
theorem filter_takeWhile_isSkipped (pieces : List (List Char)) :
    ∃ k, ((pieces.takeWhile isSkipped).reverse.filter fun piece => !piece.isEmpty) =
      List.replicate k ['.'] := by
  refine ⟨_, List.eq_replicate_iff.mpr ⟨rfl, ?_⟩⟩
  intro piece hpiece
  obtain ⟨hmem, hsome⟩ := List.mem_filter.mp hpiece
  have hskipped := List.all_eq_true.mp List.all_takeWhile piece (List.mem_reverse.mp hmem)
  rw [isSkipped, Bool.or_eq_true] at hskipped
  rcases hskipped with hnil | hdot
  · rw [hnil] at hsome
    cases hsome
  · exact beq_iff_eq.mp hdot

theorem isName_ofList (hpiece : isSkipped piece = false) (hdots : piece ≠ ['.', '.']) :
    FileTree.IsName (String.ofList piece) where
  ne_dot := by
    intro heq
    have hlist : piece = ['.'] := by simpa using congrArg String.toList heq
    subst hlist
    cases hpiece
  ne_dots := by
    intro heq
    exact hdots (by simpa using congrArg String.toList heq)

theorem Written.above (hw : Written first (piece :: rest)) (hpiece : isSkipped piece = false)
    (hdots : piece ≠ ['.', '.']) :
    Above (ofPieces first (piece :: rest)) (ofPieces first (rest.dropWhile isSkipped)) where
  isAbsolute := by rw [hw.isAbsolute, hw.tail.dropWhile.isAbsolute]
  text := by
    rw [toList_ofPieces, toList_ofPieces, List.prefix_append_right_inj]
    exact (joinPieces_dropWhile_isPrefix rest).trans (joinPieces_tail_isPrefix piece rest)
  parts := by
    obtain ⟨k, hk⟩ := filter_takeWhile_isSkipped rest
    refine ⟨k, String.ofList piece, isName_ofList hpiece hdots, ?_⟩
    have hsome : piece.isEmpty = false := by
      rw [isSkipped, Bool.or_eq_false_iff] at hpiece
      exact hpiece.1
    have hrest : (rest.reverse.filter fun piece => !piece.isEmpty) =
        ((rest.dropWhile isSkipped).reverse.filter fun piece => !piece.isEmpty) ++
          List.replicate k ['.'] := by
      rw [← hk, ← List.filter_append, ← List.reverse_append, List.takeWhile_append_dropWhile]
    rw [hw.parts, hw.tail.dropWhile.parts, List.reverse_cons, List.filter_append, hrest]
    simp [hsome]

/-- A component that is written last is the last part. -/
theorem Written.getLast?_parts (hw : Written first (piece :: rest))
    (hpiece : isSkipped piece = false) :
    (ofPieces first (piece :: rest)).parts.getLast? = some (String.ofList piece) := by
  rw [isSkipped, Bool.or_eq_false_iff] at hpiece
  rw [hw.parts, List.reverse_cons, List.filter_append]
  simp [hpiece.1]

/-- A path whose last part is a name has a path above it. -/
theorem Written.exists_above {name : String} (hw : Written first pieces)
    (hlast : (ofPieces first pieces).parts.getLast? = some name) (hname : FileTree.IsName name) :
    ∃ upper uppers, piecesAbove pieces = upper :: uppers ∧
      Above (ofPieces first pieces) (ofPieces first upper) := by
  induction pieces with
  | nil =>
    rw [hw.parts] at hlast
    by_cases hfirst : first = ['.']
    · have heq : "." = name := by simpa [hfirst] using hlast
      exact absurd heq.symm hname.ne_dot
    · simp [hfirst] at hlast
  | cons piece rest ih =>
    by_cases hnil : piece = []
    · -- a slash at the end changes neither the parts nor what is above
      subst hnil
      have hparts : (ofPieces first ([] :: rest)).parts = (ofPieces first rest).parts := by
        rw [hw.parts, hw.tail.parts]
        simp
      obtain ⟨upper, uppers, heq, habove⟩ := ih hw.tail (hparts ▸ hlast)
      refine ⟨upper, uppers, heq, ?_, ?_, ?_⟩
      · rw [habove.isAbsolute, hw.isAbsolute, hw.tail.isAbsolute]
      · refine habove.text.trans ?_
        rw [toList_ofPieces, toList_ofPieces, List.prefix_append_right_inj]
        exact joinPieces_tail_isPrefix [] rest
      · rw [hparts]
        exact habove.parts
    · have heq : String.ofList piece = name := by
        rw [hw.parts, List.reverse_cons, List.filter_append] at hlast
        simpa [hnil] using hlast
      subst heq
      have hpiece : isSkipped piece = false := by
        have hdot : piece ≠ ['.'] := by
          rintro rfl
          exact hname.ne_dot rfl
        simp [isSkipped, hnil, hdot]
      have hdots : piece ≠ ['.', '.'] := by
        rintro rfl
        exact hname.ne_dots rfl
      refine ⟨rest.dropWhile isSkipped, piecesAbove rest, ?_, hw.above hpiece hdots⟩
      rw [piecesAbove, hpiece]
      rfl

/-! ## 3. Going up -/

theorem piecesAbove_dropWhile (pieces : List (List Char)) :
    piecesAbove (pieces.dropWhile isSkipped) = piecesAbove pieces := by
  induction pieces with
  | nil => rfl
  | cons piece rest ih =>
    by_cases hpiece : isSkipped piece
    · rw [List.dropWhile_cons_of_pos hpiece, ih, piecesAbove, if_pos hpiece]
    · rw [List.dropWhile_cons_of_neg hpiece]

theorem Written.above_eq (hw : Written first pieces) :
    (ofPieces first pieces).above =
      (piecesAbove pieces).map (ofPieces first) ++ if first == ['.'] then [⟨""⟩] else [] := by
  have hpieces : piecesAbove (Text.splitWhere (· == '/') (joinPieces pieces)).reverse =
      piecesAbove pieces := by
    by_cases hne : pieces = []
    · subst hne
      rfl
    · rw [splitWhere_joinPieces hw.slash hne, List.reverse_reverse]
  rw [Path.above, toList_ofPieces, hw.lead]
  simp only [hpieces]
  split
  · rfl
  · rw [List.append_nil]
    rfl

/-- What is above a component is made of the pieces before it. -/
theorem exists_of_mem_piecesAbove {upper : List (List Char)} (h : upper ∈ piecesAbove pieces) :
    ∃ skipped rest, pieces = skipped ++ rest ∧ upper = rest.dropWhile isSkipped := by
  induction pieces with
  | nil => cases h
  | cons piece rest ih =>
    have hhere : upper ∈ piecesAbove rest →
        ∃ skipped more, piece :: rest = skipped ++ more ∧ upper = more.dropWhile isSkipped := by
      intro hmem
      obtain ⟨skipped, more, rfl, hupper⟩ := ih hmem
      exact ⟨piece :: skipped, more, rfl, hupper⟩
    rw [piecesAbove] at h
    split at h
    · exact hhere h
    · rcases List.mem_cons.mp h with rfl | hmem
      · exact ⟨[piece], rest, rfl, rfl⟩
      · exact hhere hmem

theorem Written.dots_not_mem (hw : Written first pieces)
    (hdots : ".." ∉ (ofPieces first pieces).parts) : ['.', '.'] ∉ pieces := by
  intro hmem
  apply hdots
  rw [hw.parts]
  refine List.mem_append_right _ (List.mem_map.mpr ⟨['.', '.'], ?_, rfl⟩)
  exact List.mem_filter.mpr ⟨List.mem_reverse.mpr hmem, rfl⟩

/-- Going up comes upon no `..` that is not among the pieces. -/
theorem Written.dots_not_mem_parts (hw : Written first pieces) (hdots : ['.', '.'] ∉ pieces) :
    ".." ∉ (ofPieces first pieces).parts := by
  rw [hw.parts, List.mem_append, List.mem_map]
  rintro (hmem | ⟨piece, hpiece, heq⟩)
  · split at hmem
    · simp at hmem
    · cases hmem
  · have hlist : piece = ['.', '.'] := by simpa using congrArg String.toList heq
    rw [List.mem_filter, List.mem_reverse, hlist] at hpiece
    exact hdots hpiece.1

theorem Written.dots_not_mem_ancestors (hw : Written first pieces) (hdots : ['.', '.'] ∉ pieces)
    (hp : p ∈ (ofPieces first pieces).ancestors) : ".." ∉ p.parts := by
  rcases List.mem_cons.mp hp with rfl | hp
  · exact hw.dots_not_mem_parts hdots
  · rw [hw.above_eq, List.mem_append, List.mem_map] at hp
    rcases hp with ⟨upper, hupper, rfl⟩ | hlast
    · obtain ⟨skipped, rest, rfl, rfl⟩ := exists_of_mem_piecesAbove hupper
      refine hw.of_append.dropWhile.dots_not_mem_parts fun hmem => hdots ?_
      exact List.mem_append_right skipped ((List.dropWhile_sublist _).mem hmem)
    · split at hlast
      · rw [List.mem_singleton.mp hlast]
        decide
      · cases hlast

/-- What is above a path is the start of it, in its text and in its parts. -/
theorem exists_parts_of_mem_ancestors {q : Path} (hq : q ∈ p.ancestors) (htext : q.text ≠ "") :
    q.isAbsolute = p.isAbsolute ∧ q.text.toList <+: p.text.toList ∧
      ∃ more, p.parts = q.parts ++ more := by
  rcases List.mem_cons.mp hq with rfl | hq
  · exact ⟨rfl, List.prefix_rfl, [], (List.append_nil _).symm⟩
  obtain ⟨first, pieces, hw, -, rfl⟩ := exists_written p
  rw [hw.above_eq, List.mem_append, List.mem_map] at hq
  rcases hq with ⟨upper, hupper, rfl⟩ | hlast
  · obtain ⟨skipped, rest, rfl, rfl⟩ := exists_of_mem_piecesAbove hupper
    have hpieces : skipped ++ rest =
        skipped ++ rest.takeWhile isSkipped ++ rest.dropWhile isSkipped := by
      rw [List.append_assoc, List.takeWhile_append_dropWhile]
    rw [hpieces] at hw ⊢
    refine ⟨by rw [hw.isAbsolute, hw.of_append.isAbsolute], ?_,
      ((skipped ++ rest.takeWhile isSkipped).reverse.filter fun piece => !piece.isEmpty).map
        String.ofList, ?_⟩
    · rw [toList_ofPieces, toList_ofPieces, List.prefix_append_right_inj]
      exact joinPieces_append_isPrefix _ _
    · rw [hw.parts, hw.of_append.parts, List.reverse_append, List.filter_append, List.map_append,
        List.append_assoc]
  · split at hlast
    · rw [List.mem_singleton.mp hlast] at htext
      exact absurd rfl htext
    · cases hlast

end FatJar.Path

namespace FatJar.FileTree

open FatJar.Path

variable {t : FileTree} {p q : Path} {h : Place}

/-! ## 4. The holder of a path and the path above it -/

/-- The start of a path can be followed if the path can. -/
theorem checkPath_of_isPrefix (hbegins : q.text.toList <+: p.text.toList) (hq : q.text ≠ "")
    (hp : checkPath p = .ok ()) : checkPath q = .ok () := by
  obtain ⟨rest, hrest⟩ := hbegins
  have htext : p.text = q.text ++ String.ofList rest := by
    rw [← String.ofList_toList (s := p.text), ← hrest, String.ofList_append, String.ofList_toList]
  rw [checkPath_eq_ok_iff, hasZero, ← hrest] at hp
  obtain ⟨hzero, -, hsize⟩ := hp
  rw [htext, String.utf8ByteSize_append] at hsize
  simp only [List.contains_eq_mem, List.mem_append, decide_eq_false_iff_not, not_or] at hzero
  exact checkPath_eq_ok_iff.mpr ⟨by simpa [hasZero] using hzero.1, hq, by omega⟩

theorem checkPath_of_above (habove : Above p q) (hq : q.text ≠ "")
    (hp : checkPath p = .ok ()) : checkPath q = .ok () :=
  checkPath_of_isPrefix habove.text hq hp

theorem steps_eq (p : Path) : ∃ k, p.steps = p.parts ++ List.replicate k "." := by
  rw [Path.steps]
  split
  · exact ⟨1, rfl⟩
  · exact ⟨0, (List.append_nil _).symm⟩

/-- The holder of a path is where a path leads whose steps go to the same directory. -/
theorem holder_iff_resolve {base : List String} {k l : Nat}
    (habsolute : q.isAbsolute = p.isAbsolute)
    (hparts : p.parts.dropLast = base ++ List.replicate k ".")
    (hsteps : q.steps = base ++ List.replicate l ".") (hp : checkPath p = .ok ())
    (hq : checkPath q = .ok ()) :
    t.holder maxLinks t.workingDirectory p = .ok h ↔
      t.resolve q = .ok h ∧ t.node? h = some .directory := by
  have hstart : start t.workingDirectory q = start t.workingDirectory p := by
    rw [start, start, habsolute]
  rw [holder_eq_ok_iff, resolve_eq_ok_iff, hparts, hsteps, hstart]
  constructor
  · rintro ⟨-, ⟨left, hw⟩, hdir⟩
    rw [walks_append_dots_iff hdir] at hw
    exact ⟨⟨hq, left, (walks_append_dots_iff hdir).mpr hw⟩, hdir⟩
  · rintro ⟨⟨-, left, hw⟩, hdir⟩
    rw [walks_append_dots_iff hdir] at hw
    exact ⟨hp, ⟨left, (walks_append_dots_iff hdir).mpr hw⟩, hdir⟩

/-- The holder of a path is where the path above it leads. -/
theorem holder_iff_of_above (habove : Above p q) (hq : q.text ≠ "") (hp : checkPath p = .ok ()) :
    t.holder maxLinks t.workingDirectory p = .ok h ↔
      t.resolve q = .ok h ∧ t.node? h = some .directory := by
  obtain ⟨k, name, -, hparts⟩ := habove.parts
  obtain ⟨l, hsteps⟩ := steps_eq q
  have hbase : p.parts.dropLast = q.parts ++ List.replicate k "." := by
    rw [hparts, List.dropLast_concat]
  exact holder_iff_resolve habove.isAbsolute hbase hsteps hp (checkPath_of_above habove hq hp)

theorem above_lastStep (habove : Above p q) : ∃ name, lastStep p = .name name p.endsInSlash := by
  obtain ⟨k, name, hname, hparts⟩ := habove.parts
  refine ⟨name, lastStep_eq_name_iff.mpr ⟨?_, hname, rfl⟩⟩
  rw [hparts, List.getLast?_concat]

end FatJar.FileTree
