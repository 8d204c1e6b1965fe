/-
FatJar.Proofs.FileTree.Joining — the way from a path to one that leads on from it.

Where a path of names is joined to another, its parts and its components come after
those of the first (`parts_join`, `components_join`). Going up from there leads back
to the first path (`exists_ancestor_join`), which may be written with fewer slashes
and dots than it was given with.

Contents:
1. parts and components of joined paths;
2. joined paths as they are written;
3. the way back up.
-/
import FatJar.Proofs.FileTree.Components

namespace FatJar.Path

open FatJar.Text (splitWhere splitWhere_append_separator splitWhere_cons_other)

variable {first piece : List Char} {rest ss ds : List (List Char)} {p sub : Path}

/-! ## 1. Joined paths -/

/-- A slash parts what is before it from what is after it. -/
theorem parts_of_slash {before after : List Char} (hp : p.text.toList = before ++ '/' :: after) :
    p.parts = parts ⟨String.ofList before⟩ ++ parts ⟨String.ofList after⟩ := by
  simp only [parts, hp, String.toList_ofList]
  rw [splitWhere_append_separator before (by rfl), List.filter_append, List.map_append]

theorem join_of_relative (hsub : sub.isAbsolute = false) :
    p.join sub = if p.text == "" || p.endsInSlash then ⟨p.text ++ sub.text⟩
      else ⟨p.text ++ "/" ++ sub.text⟩ := by
  rw [join, hsub, if_neg Bool.false_ne_true]

theorem parts_join (hsub : sub.isAbsolute = false) : (p.join sub).parts = p.parts ++ sub.parts := by
  rw [join_of_relative hsub]
  by_cases htext : p.text = ""
  · rcases p with ⟨text⟩
    cases htext
    rw [if_pos (by simp), String.empty_append]
    rfl
  · by_cases hslash : p.endsInSlash = true
    · obtain ⟨before, hbefore⟩ := List.getLast?_eq_some_iff.mp (beq_iff_eq.mp hslash)
      have hjoined : (p.text ++ sub.text).toList = before ++ '/' :: sub.text.toList := by
        rw [String.toList_append, hbefore, List.append_assoc]
        rfl
      rw [if_pos (by simp [hslash]), parts_of_slash hbefore, parts_of_slash hjoined,
        String.ofList_toList]
      simp [parts, splitWhere]
    · have hjoined : (p.text ++ "/" ++ sub.text).toList =
          p.text.toList ++ '/' :: sub.text.toList := by
        simp
      rw [if_neg (by simp [htext, hslash]), parts_of_slash hjoined, String.ofList_toList,
        String.ofList_toList]

theorem isAbsolute_join (hsub : sub.isAbsolute = false) :
    (p.join sub).isAbsolute = p.isAbsolute := by
  rw [join_of_relative hsub]
  rcases hcs : p.text.toList with _ | ⟨c, cs⟩
  · have htext : p.text = "" := String.toList_eq_nil_iff.mp hcs
    rw [if_pos (by simp [htext]), isAbsolute, isAbsolute, String.toList_append, hcs,
      List.nil_append]
    exact hsub
  · rw [isAbsolute, isAbsolute, hcs]
    split <;> simp [hcs]

/-- Only a path of slashes has no parts. -/
theorem isAbsolute_of_parts_eq_nil (htext : p.text ≠ "") (hparts : p.parts = []) :
    p.isAbsolute = true := by
  rcases hcs : p.text.toList with _ | ⟨c, cs⟩
  · exact absurd (String.toList_eq_nil_iff.mp hcs) htext
  · by_cases hc : c = '/'
    · simp [isAbsolute, hcs, hc]
    · have hsplit : splitWhere (· == '/') (c :: cs) =
          Text.extendFirst c (splitWhere (· == '/') cs) :=
        splitWhere_cons_other (by simpa using hc)
      rw [parts, hcs, hsplit] at hparts
      cases hrest : splitWhere (· == '/') cs with
      | nil => simp [hrest, Text.extendFirst] at hparts
      | cons piece pieces => simp [hrest, Text.extendFirst] at hparts

/-- Names that are joined to a path come after its components. -/
theorem components_join (hsub : sub.IsNormal) :
    (p.join sub).components = p.components ++ sub.components := by
  have hmoves : (p.join sub).moves = p.moves ++ sub.moves := by
    rw [moves, parts_join hsub.isAbsolute, List.filter_append]
    rfl
  have hleading : (p.join sub).leading = p.leading := by
    by_cases htext : p.text = ""
    · have hjoin : p.join sub = sub := by
        rw [join_of_relative hsub.isAbsolute, if_pos (by simp [htext]), htext,
          String.empty_append]
      rcases p with ⟨text⟩
      cases htext
      rw [hjoin, hsub.leading]
      rfl
    · rw [leading, leading, isAbsolute_join hsub.isAbsolute, parts_join hsub.isAbsolute]
      cases hparts : p.parts with
      | nil => rw [isAbsolute_of_parts_eq_nil htext hparts, if_pos rfl, if_pos rfl]
      | cons part others => rfl
  rw [components, hleading, hmoves, List.map_append, ← List.append_assoc]
  conv => rhs; rw [components, components, hsub.leading, List.nil_append]

/-! ## 2. Joined paths as they are written -/

theorem joinPieces_append (hss : ss ≠ []) (hds : ds ≠ []) :
    joinPieces (ss ++ ds) = joinPieces ds ++ '/' :: joinPieces ss := by
  induction ss with
  | nil => exact absurd rfl hss
  | cons piece rest ih =>
    rw [List.cons_append, joinPieces_cons (by simp [hds])]
    by_cases hrest : rest = []
    · subst hrest
      rfl
    · rw [ih hrest, joinPieces_cons hrest, List.append_assoc, List.cons_append]

/-- Before a slash, what has been written is read off in the same way. -/
theorem lead_append_slash {body more : List Char} (h : lead (first ++ body) = (first, body))
    (hne : first ++ body ≠ []) :
    lead (first ++ (body ++ '/' :: more)) = (first, body ++ '/' :: more) := by
  rw [lead_cases] at h ⊢
  rcases h with rfl | ⟨rfl, hbody⟩ | ⟨rfl, hlead⟩
  · exact .inl rfl
  · refine .inr (.inl ⟨rfl, .inr ?_⟩)
    rcases hbody with rfl | ⟨tail, rfl⟩
    · exact ⟨more, rfl⟩
    · exact ⟨tail ++ '/' :: more, rfl⟩
  · refine .inr (.inr ⟨rfl, ?_⟩)
    fun_cases lead body with
    | case1 rest => simp [lead] at hlead
    | case2 => simp [lead] at hlead
    | case3 rest => simp [lead] at hlead
    | case4 body hslash hdot hdots =>
      -- the first character of the body is the first one still
      rcases body with _ | ⟨c, _ | ⟨d, rest⟩⟩
      · exact absurd rfl hne
      · refine lead.eq_4 _ ?_ (by simp) ?_
        · rintro rest heq
          exact hslash [] (by rw [(List.cons.inj heq).1])
        · rintro rest heq
          exact hdot (by rw [(List.cons.inj heq).1])
      · refine lead.eq_4 _ ?_ (by simp) ?_
        · rintro more heq
          exact hslash (d :: rest) (by rw [(List.cons.inj heq).1])
        · rintro more heq
          obtain ⟨rfl, htail⟩ := List.cons.inj heq
          exact hdots rest (by rw [(List.cons.inj htail).1])

theorem Written.append (hw : Written first ds) (hds : ds ≠ []) (hne : first ++ joinPieces ds ≠ [])
    (hws : Written [] ss) (hss : ss ≠ []) : Written first (ss ++ ds) where
  slash := by
    intro piece hpiece
    rcases List.mem_append.mp hpiece with hpiece | hpiece
    · exact hws.slash piece hpiece
    · exact hw.slash piece hpiece
  lead := by
    rw [joinPieces_append hss hds]
    exact lead_append_slash hw.lead hne

/-- A path that ends in a slash has an empty piece at its end. -/
theorem Written.eq_nil_of_endsInSlash (hw : Written first (piece :: rest))
    (hslash : (ofPieces first (piece :: rest)).endsInSlash = true) : piece = [] := by
  have htext : ∃ before, joinPieces (piece :: rest) = before ++ piece := by
    cases rest with
    | nil => exact ⟨[], rfl⟩
    | cons other others => exact ⟨joinPieces (other :: others) ++ ['/'], by simp [joinPieces]⟩
  obtain ⟨before, hbefore⟩ := htext
  rw [endsInSlash, toList_ofPieces, hbefore, ← List.append_assoc, List.getLast?_append] at hslash
  cases hlast : piece.getLast? with
  | none => exact List.getLast?_eq_none_iff.mp hlast
  | some c =>
    have hc : c = '/' := by simpa [hlast] using hslash
    have hother := hw.slash piece List.mem_cons_self c (List.mem_of_getLast? hlast)
    simp [hc] at hother

/-- A slash at the end stands before what is written after it. -/
theorem Written.append_tail (hw : Written first ([] :: rest))
    (htext : (ofPieces first ([] :: rest)).text ≠ "")
    (hslash : (ofPieces first ([] :: rest)).endsInSlash = true) (hws : Written [] ss)
    (hss : ss ≠ []) :
    Written first (ss ++ rest) ∧ (ofPieces first (ss ++ rest)).text.toList =
      (ofPieces first ([] :: rest)).text.toList ++ joinPieces ss := by
  by_cases hrest : rest = []
  · -- the path is the root's slash
    subst hrest
    rcases (lead_cases _).mp hw.lead with rfl | ⟨rfl, -⟩ | ⟨rfl, -⟩
    · rw [List.append_nil]
      exact ⟨⟨hws.slash, (lead_cases _).mpr (.inl rfl)⟩, by simp [joinPieces]⟩
    · simp [endsInSlash, joinPieces] at hslash
    · exact absurd rfl htext
  · refine ⟨hw.tail.append hrest ?_ hws hss, ?_⟩
    · intro hnil
      obtain ⟨rfl, hjoin⟩ := List.append_eq_nil_iff.mp hnil
      have hlead := hw.lead
      rw [joinPieces_cons hrest, hjoin] at hlead
      cases hlead
    · simp [joinPieces_append hss hrest, joinPieces_cons hrest]

/-- A path of names is written from its first name on. -/
theorem IsNormal.exists_written (hsub : sub.IsNormal) :
    ∃ ss, Written [] ss ∧ ss ≠ [] ∧ sub = ofPieces [] ss := by
  obtain ⟨first, ss, hw, hss, rfl⟩ := Path.exists_written sub
  have hleading := hsub.leading
  rw [hw.leading] at hleading
  rcases (lead_cases _).mp hw.lead with rfl | ⟨rfl, -⟩ | ⟨rfl, -⟩
  · cases hleading
  · cases hleading
  · exact ⟨ss, hw, hss, rfl⟩

/-- A joined path is written with the pieces of the second path after those of the first, which
lose a slash at their end. -/
theorem exists_written_join (p : Path) (hsub : sub.IsNormal) :
    ∃ first ss ds, Written first (ss ++ ds) ∧ p.join sub = ofPieces first (ss ++ ds) ∧
      Written [] ss ∧ sub = ofPieces [] ss ∧ (ofPieces first ds).components = p.components ∧
      (ofPieces first ds).text.toList <+: p.text.toList := by
  obtain ⟨ss, hws, hss, rfl⟩ := hsub.exists_written
  obtain ⟨first, pieces, hw, hne, rfl⟩ := Path.exists_written p
  rw [join_of_relative hsub.isAbsolute]
  by_cases htext : (ofPieces first pieces).text = ""
  · have hempty : first ++ joinPieces pieces = [] := by
      rw [← toList_ofPieces, htext]
      rfl
    obtain ⟨rfl, hjoin⟩ := List.append_eq_nil_iff.mp hempty
    refine ⟨[], ss, [], by rwa [List.append_nil], ?_, hws, rfl, ?_, List.nil_prefix⟩
    · rw [if_pos (by simp [htext]), List.append_nil, htext, String.empty_append]
    · rw [ofPieces, ofPieces, hjoin]
      rfl
  · by_cases hslash : (ofPieces first pieces).endsInSlash = true
    · rw [if_pos (by simp [hslash])]
      cases pieces with
      | nil => exact absurd rfl hne
      | cons piece rest =>
        obtain rfl := hw.eq_nil_of_endsInSlash hslash
        obtain ⟨hwritten, hjoined⟩ := hw.append_tail htext hslash hws hss
        refine ⟨first, ss, rest, hwritten, ?_, hws, rfl, (hw.components_skipped rfl).symm, ?_⟩
        · refine eq_of_toList ?_
          rw [hjoined, String.toList_append, toList_ofPieces [] ss, List.nil_append]
        · rw [toList_ofPieces, toList_ofPieces, List.prefix_append_right_inj]
          exact joinPieces_tail_isPrefix [] rest
    · rw [if_neg (by simp [htext, hslash])]
      refine ⟨first, ss, pieces, ?_, ?_, hws, rfl, rfl, List.prefix_rfl⟩
      · refine hw.append hne (fun hnil => htext ?_) hws hss
        rw [ofPieces, hnil]
      · refine eq_of_toList ?_
        simp [joinPieces_append hss hne]

/-! ## 3. The way back up -/

/-- Going up from the last of some pieces comes upon those before them. -/
theorem dropWhile_mem_piecesAbove (hss : ∃ piece ∈ ss, isSkipped piece = false) :
    ds.dropWhile isSkipped ∈ piecesAbove (ss ++ ds) := by
  induction ss with
  | nil =>
    obtain ⟨piece, hpiece, -⟩ := hss
    cases hpiece
  | cons piece rest ih =>
    rw [List.cons_append, piecesAbove]
    by_cases hrest : ∃ piece ∈ rest, isSkipped piece = false
    · split
      · exact ih hrest
      · exact List.mem_cons_of_mem _ (ih hrest)
    · have hskipped : ∀ piece ∈ rest, isSkipped piece = true := by
        intro other hother
        apply Decidable.byContradiction
        intro hnot
        exact hrest ⟨other, hother, by simpa using hnot⟩
      have hpiece : isSkipped piece = false := by
        obtain ⟨other, hother, hnot⟩ := hss
        rcases List.mem_cons.mp hother with rfl | hother
        · exact hnot
        · exact absurd ⟨other, hother, hnot⟩ hrest
      rw [if_neg (by simp [hpiece]), List.dropWhile_append_of_pos hskipped]
      exact List.mem_cons_self

/-- A path of no names is empty. -/
theorem IsNormal.text_eq (hsub : sub.IsNormal) (hnil : sub.components = []) : sub.text = "" := by
  apply Decidable.byContradiction
  intro htext
  have hparts : sub.parts = [] := by
    have hhead : sub.parts.head? ≠ some "." := by
      intro hhead
      have hleading := hsub.leading
      rw [Path.leading, hsub.isAbsolute, hhead] at hleading
      cases hleading
    have hmoves : sub.moves = [] := by
      rw [← filterMap_step?_components, hnil]
      rfl
    rw [Path.moves, List.filter_eq_nil_iff] at hmoves
    cases hparts : sub.parts with
    | nil => rfl
    | cons part others =>
      have hdot := hmoves part (hparts ▸ List.mem_cons_self)
      rw [hparts] at hhead
      exact absurd (by simpa using hdot) hhead
  have habsolute := isAbsolute_of_parts_eq_nil htext hparts
  rw [hsub.isAbsolute] at habsolute
  cases habsolute

/-- Going up from a joined path comes upon the first path, though it may be written with fewer
slashes and dots. -/
theorem exists_ancestor_join (p : Path) (hsub : sub.IsNormal) :
    ∃ q ∈ (p.join sub).ancestors, q.components = p.components ∧
      (q = p.join ⟨""⟩ ∨ q.text.toList <+: p.text.toList) := by
  by_cases hnil : sub.components = []
  · rcases sub with ⟨text⟩
    obtain rfl : text = "" := hsub.text_eq hnil
    refine ⟨p.join ⟨""⟩, List.mem_cons_self, ?_, .inl rfl⟩
    rw [components_join hsub, hnil, List.append_nil]
  · obtain ⟨first, ss, ds, hw, hjoin, hws, rfl, hcomponents, htext⟩ := exists_written_join p hsub
    have hss : ∃ piece ∈ ss, isSkipped piece = false := by
      apply Decidable.byContradiction
      intro hskipped
      apply hnil
      have hmoves : (ofPieces [] ss).moves = [] := by
        rw [hws.moves, List.map_eq_nil_iff, List.filter_eq_nil_iff]
        intro piece hpiece hnot
        exact hskipped ⟨piece, List.mem_reverse.mp hpiece, by simpa using hnot⟩
      rw [components, hsub.leading, hmoves]
      rfl
    refine ⟨ofPieces first (ds.dropWhile isSkipped), ?_, ?_, .inr (List.IsPrefix.trans ?_ htext)⟩
    · rw [hjoin, ancestors, hw.above_eq]
      refine List.mem_cons_of_mem _ (List.mem_append_left _ (List.mem_map.mpr ⟨_, ?_, rfl⟩))
      exact dropWhile_mem_piecesAbove hss
    · rw [hw.of_append.components_dropWhile, hcomponents]
    · rw [toList_ofPieces, toList_ofPieces, List.prefix_append_right_inj]
      exact joinPieces_dropWhile_isPrefix ds

end FatJar.Path
