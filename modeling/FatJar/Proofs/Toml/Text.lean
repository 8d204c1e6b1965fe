/-
FatJar.Proofs.Toml.Text — a text is read back from whatever form it is written in.

Two pairs of forms share an argument each. The forms between double quotes read
escapes alike (`ReadsEscapes`), and the forms on several lines end alike, with
three quotes before which one or two more may stand (`EndsInThree`). A quote
there belongs to the text or ends it depending on what follows, so the inductions
are about a text in front of which some quotes are still to be read.

Contents:
1. escapes;
2. texts on one line;
3. where a text on several lines ends;
4. texts on several lines;
5. texts in the form that is chosen for them;
6. keys.
-/
import FatJar.Toml.Printer
import FatJar.Toml.Text

namespace FatJar.Toml

variable {c quote : Char} {s rest : List Char} {body : List Char → Option (List Char × List Char)}

@[simp]
theorem prepend_some (cs read rest : List Char) :
    prepend cs (some (read, rest)) = some (cs ++ read, rest) := rfl

theorem prepend_prepend (cs ds : List Char) (scanned : Option (List Char × List Char)) :
    prepend cs (prepend ds scanned) = prepend (cs ++ ds) scanned := by
  cases scanned <;> simp [prepend]

/-- A character of a class is none that is not of it. -/
theorem ne_of_class {p : Char → Bool} {d : Char} (hc : p c = true) (hd : p d = false) : c ≠ d := by
  rintro rfl
  rw [hc] at hd
  cases hd

/-! ## 1. Escapes -/

theorem toNat_lt_of_isControl (h : isControl c = true) : c.toNat < 0x80 := by
  simp only [isControl, Bool.or_eq_true, Bool.and_eq_true, decide_eq_true_eq, beq_iff_eq] at h
  omega

theorem isControl_eq_false (hescape : needsEscape c = false) (hfeed : c ≠ '\n') :
    isControl c = false := by
  simpa [needsEscape, hfeed] using hescape

/-- Two digits in capitals stand for the character of their number. -/
theorem codePoint?_upperDigit :
    ∀ n < 0x80, codePoint? ['0', '0', upperDigit (n / 16), upperDigit (n % 16)] =
      some (Char.ofNat n) := by
  decide

/-- No letter of a short escape starts an escape of another kind. -/
theorem shortEscape?_letter {letter : Char} (h : shortEscape? letter = some c) :
    letter ≠ 'u' ∧ letter ≠ 'U' ∧ letter ≠ '\n' ∧ letter ≠ '\r' ∧ isSpace letter = false := by
  unfold shortEscape? at h
  split at h
  case h_8 => cases h
  all_goals decide

/-- A reader of texts between double quotes takes escapes for the characters that they stand for,
and takes other characters as they are. -/
structure ReadsEscapes (body : List Char → Option (List Char × List Char)) : Prop where
  short : ∀ {letter c : Char} (rest : List Char), shortEscape? letter = some c →
    body ('\\' :: letter :: rest) = prepend [c] (body rest)
  coded : ∀ {a b c d char : Char} (rest : List Char), codePoint? [a, b, c, d] = some char →
    body ('\\' :: 'u' :: a :: b :: c :: d :: rest) = prepend [char] (body rest)
  plain : ∀ {c : Char} (rest : List Char), c ≠ '"' → c ≠ '\\' → isControl c = false →
    body (c :: rest) = prepend [c] (body rest)

theorem ReadsEscapes.escapeOther (hbody : ReadsEscapes body) (hquote : c ≠ '"')
    (rest : List Char) : body (escapeOther c ++ rest) = prepend [c] (body rest) := by
  unfold Toml.escapeOther
  -- the escapes of one letter
  iterate 5
    split
    · rename_i h
      rw [beq_iff_eq.mp h]
      exact hbody.short rest rfl
  split
  · rename_i hcontrol
    have hcode := codePoint?_upperDigit c.toNat (toNat_lt_of_isControl hcontrol)
    rw [Char.ofNat_toNat] at hcode
    exact hbody.coded rest hcode
  · rename_i hslash hcontrol
    exact hbody.plain rest hquote (by simpa using hslash) (by simpa using hcontrol)

/-- What stands for a character starts with a backslash, or it is the character. -/
theorem escapeOther_eq_cons (c : Char) :
    ∃ d more, escapeOther c = d :: more ∧ (d = '\\' ∨ d = c ∧ isControl c = false) := by
  unfold Toml.escapeOther
  iterate 6
    split
    · exact ⟨_, _, rfl, .inl rfl⟩
  · rename_i hcontrol
    exact ⟨c, [], rfl, .inr ⟨rfl, by simpa using hcontrol⟩⟩

/-! ## 2. One line -/

theorem readsEscapes_basicBody : ReadsEscapes basicBody where
  short := by
    intro letter c rest h
    rw [basicBody.eq_4, h]
    · rfl
    · rintro a b c' d rest rfl
      cases h
    · rintro a b c' d e f g i rest rfl
      cases h
  coded := by
    intro a b c d char rest h
    rw [basicBody, h]
    rfl
  plain := by
    intro c rest hquote hslash hcontrol
    simp [basicBody, hslash, hcontrol]

theorem basicBody_escapeBasic (c : Char) (rest : List Char) :
    basicBody (escapeBasic c ++ rest) = prepend [c] (basicBody rest) := by
  unfold escapeBasic
  split
  · rename_i h
    rw [beq_iff_eq.mp h]
    exact readsEscapes_basicBody.short rest rfl
  split
  · rename_i h
    rw [beq_iff_eq.mp h]
    exact readsEscapes_basicBody.short rest rfl
  · rename_i h
    exact readsEscapes_basicBody.escapeOther (by simpa using h) rest

theorem basicBody_flatMap (s rest : List Char) :
    basicBody (s.flatMap escapeBasic ++ '"' :: rest) = some (s, rest) := by
  induction s with
  | nil => simp [basicBody]
  | cons c s ih =>
    rw [List.flatMap_cons, List.append_assoc, basicBody_escapeBasic, ih]
    rfl

/-- A text without single quotes and control characters, tabs apart, is read as it stands. -/
theorem literalBody_append (hs : ∀ c ∈ s, c ≠ '\'' ∧ isControl c = false) :
    literalBody (s ++ '\'' :: rest) = some (s, rest) := by
  induction s with
  | nil => simp [literalBody]
  | cons c s ih =>
    obtain ⟨hquote, hcontrol⟩ := hs c List.mem_cons_self
    have hrest := ih fun d hd => hs d (List.mem_cons_of_mem c hd)
    simp [literalBody, hcontrol, hrest]

/-! ## 3. Where a text on several lines ends -/

/-- A reader of texts on several lines stops at three quotes, takes one or two more in front of
them for a part of the text, and takes as such also those that other characters follow. -/
structure EndsInThree (quote : Char) (body : List Char → Option (List Char × List Char)) :
    Prop where
  three : ∀ {rest : List Char}, rest.head? ≠ some quote →
    body (quote :: quote :: quote :: rest) = some ([], rest)
  four : ∀ {rest : List Char}, rest.head? ≠ some quote →
    body (quote :: quote :: quote :: quote :: rest) = some ([quote], rest)
  five : ∀ {rest : List Char},
    body (quote :: quote :: quote :: quote :: quote :: rest) = some ([quote, quote], rest)
  one : ∀ {c : Char} {rest : List Char}, c ≠ quote →
    body (quote :: c :: rest) = prepend [quote] (body (c :: rest))
  two : ∀ {c : Char} {rest : List Char}, c ≠ quote →
    body (quote :: quote :: c :: rest) = prepend [quote, quote] (body (c :: rest))

namespace EndsInThree

variable {run : Nat} (hbody : EndsInThree quote body)

include hbody

theorem atEnd (hrun : run ≤ 2) (hrest : rest.head? ≠ some quote) :
    body (List.replicate run quote ++ quote :: quote :: quote :: rest) =
      some (List.replicate run quote, rest) := by
  match run, hrun with
  | 0, _ => exact hbody.three hrest
  | 1, _ => exact hbody.four hrest
  | 2, _ => exact hbody.five

theorem before (hrun : run ≤ 2) (hc : c ≠ quote) :
    body (List.replicate run quote ++ c :: rest) =
      prepend (List.replicate run quote) (body (c :: rest)) := by
  match run, hrun with
  | 0, _ =>
    cases h : body (c :: rest) <;> simp [prepend, h]
  | 1, _ => exact hbody.one hc
  | 2, _ => exact hbody.two hc

end EndsInThree

/-! ## 4. Several lines -/

theorem endsInThree_multiBasicBody : EndsInThree '"' (multiBasicBody .inside) where
  three := by
    intro rest hrest
    cases rest with
    | nil => simp [multiBasicBody]
    | cons c rest =>
      have hc : c ≠ '"' := by simpa using hrest
      simp [multiBasicBody, hc]
  four := by
    intro rest hrest
    cases rest with
    | nil => simp [multiBasicBody]
    | cons c rest =>
      have hc : c ≠ '"' := by simpa using hrest
      simp [multiBasicBody, hc]
  five := by simp [multiBasicBody]
  one := by
    intro c rest hc
    rw [multiBasicBody.eq_18] <;> simp [hc, isControl]
  two := by
    intro c rest hc
    rw [multiBasicBody.eq_18, multiBasicBody.eq_18] <;> simp [hc, isControl, prepend_prepend]

theorem readsEscapes_multiBasicBody : ReadsEscapes (multiBasicBody .inside) where
  short := by
    intro letter c rest h
    obtain ⟨hu, hU, hfeed, hreturn, hspace⟩ := shortEscape?_letter h
    rw [multiBasicBody.eq_15] <;> simp [hu, hU, hfeed, hreturn, hspace, h]
  coded := by
    intro a b c d char rest h
    rw [multiBasicBody, h]
    · rfl
    · simp
  plain := by
    intro c rest hquote hslash hcontrol
    have hfeed : c ≠ '\n' := by
      rintro rfl
      cases hcontrol
    have hreturn : c ≠ '\r' := by
      rintro rfl
      cases hcontrol
    rw [multiBasicBody.eq_18] <;> simp [hquote, hslash, hcontrol, hfeed, hreturn]

theorem endsInThree_multiLiteralBody : EndsInThree '\'' multiLiteralBody where
  three := by
    intro rest hrest
    cases rest with
    | nil => simp [multiLiteralBody]
    | cons c rest =>
      have hc : c ≠ '\'' := by simpa using hrest
      simp [multiLiteralBody, hc]
  four := by
    intro rest hrest
    cases rest with
    | nil => simp [multiLiteralBody]
    | cons c rest =>
      have hc : c ≠ '\'' := by simpa using hrest
      simp [multiLiteralBody, hc]
  five := by simp [multiLiteralBody]
  one := by
    intro c rest hc
    rw [multiLiteralBody.eq_6] <;> simp [hc, isControl]
  two := by
    intro c rest hc
    rw [multiLiteralBody.eq_6, multiLiteralBody.eq_6] <;> simp [hc, isControl, prepend_prepend]

/-- Between three double quotes a text is read as it was, and with it the quotes that stand in
front of it and that its escapes have taken into account. -/
theorem multiBasicBody_escapeMulti {run : Nat} (hrun : run ≤ 2) (hrest : rest.head? ≠ some '"') :
    multiBasicBody .inside
        (List.replicate run '"' ++ (escapeMulti run s ++ '"' :: '"' :: '"' :: rest)) =
      some (List.replicate run '"' ++ s, rest) := by
  have hends := endsInThree_multiBasicBody
  have hescapes := readsEscapes_multiBasicBody
  -- on the text; quotes at its front are counted with those that stand before it
  induction s generalizing run with
  | nil =>
    rw [escapeMulti, List.nil_append, List.append_nil]
    exact hends.atEnd hrun hrest
  | cons c s ih =>
    have htail : multiBasicBody .inside (escapeMulti 0 s ++ '"' :: '"' :: '"' :: rest) =
        some (s, rest) := ih (Nat.zero_le 2)
    -- whatever is written for `c` and starts with another character leaves the quotes alone
    have hstep : ∀ {d : Char} {more : List Char}, d ≠ '"' →
        multiBasicBody .inside (d :: more) = some (c :: s, rest) →
        multiBasicBody .inside (List.replicate run '"' ++ d :: more) =
          some (List.replicate run '"' ++ c :: s, rest) := by
      intro d more hd hmore
      rw [hends.before hrun hd, hmore]
      rfl
    rw [escapeMulti]
    split
    · rename_i hquote
      rw [beq_iff_eq.mp hquote] at hstep ⊢
      split
      · rw [List.cons_append, List.cons_append]
        refine hstep (by decide) ?_
        rw [hescapes.short _ rfl, htail]
        rfl
      · rename_i htwo
        have hmore := ih (Nat.lt_of_le_of_ne hrun (by simpa using htwo))
        rw [List.replicate_succ', List.append_assoc, List.append_assoc] at hmore
        exact hmore
    · rename_i hquote
      have hquote : c ≠ '"' := by simpa using hquote
      split
      · rename_i hfeed
        rw [beq_iff_eq.mp hfeed] at hstep ⊢
        rw [List.cons_append]
        refine hstep (by decide) ?_
        simp [multiBasicBody, htail]
      · obtain ⟨d, more, hother, hd⟩ := escapeOther_eq_cons c
        have hread := hescapes.escapeOther hquote (escapeMulti 0 s ++ '"' :: '"' :: '"' :: rest)
        rw [htail, hother] at hread
        rw [List.append_assoc, hother]
        refine hstep ?_ hread
        rcases hd with rfl | ⟨rfl, -⟩
        · decide
        · exact hquote

theorem multiLiteralBody_plain (hquote : c ≠ '\'') (hescape : needsEscape c = false) :
    multiLiteralBody (c :: rest) = prepend [c] (multiLiteralBody rest) := by
  by_cases hfeed : c = '\n'
  · subst hfeed
    rw [multiLiteralBody]
  · have hcontrol := isControl_eq_false hescape hfeed
    have hreturn : c ≠ '\r' := by
      rintro rfl
      cases hcontrol
    rw [multiLiteralBody.eq_6] <;> simp [hquote, hfeed, hreturn, hcontrol]

/-- A text in which no run of single quotes is longer than two is read as it stands. -/
theorem multiLiteralBody_append {run : Nat} (hrun : longestRun '\'' run s < 3)
    (hs : ∀ c ∈ s, needsEscape c = false) (hrest : rest.head? ≠ some '\'') :
    multiLiteralBody (List.replicate run '\'' ++ (s ++ '\'' :: '\'' :: '\'' :: rest)) =
      some (List.replicate run '\'' ++ s, rest) := by
  have hends := endsInThree_multiLiteralBody
  induction s generalizing run with
  | nil =>
    rw [List.nil_append, List.append_nil]
    exact hends.atEnd (Nat.le_of_lt_succ hrun) hrest
  | cons c s ih =>
    have hothers : ∀ d ∈ s, needsEscape d = false := fun d hd =>
      hs d (List.mem_cons_of_mem c hd)
    rw [longestRun] at hrun
    split at hrun
    · rename_i hquote
      have hmore := ih hrun hothers
      rw [List.replicate_succ', List.append_assoc, List.append_assoc] at hmore
      rw [beq_iff_eq.mp hquote]
      exact hmore
    · rename_i hquote
      have hquote : c ≠ '\'' := by simpa using hquote
      have htail : multiLiteralBody (s ++ '\'' :: '\'' :: '\'' :: rest) = some (s, rest) :=
        ih (Nat.lt_of_le_of_lt (Nat.le_max_right run _) hrun) hothers
      have hshort : run ≤ 2 := by omega
      rw [List.cons_append, hends.before hshort hquote,
        multiLiteralBody_plain hquote (hs c List.mem_cons_self), htail]
      simp

theorem skipFirstBreak_eq {cs : List Char} (hfeed : cs.head? ≠ some '\n')
    (hreturn : cs.head? ≠ some '\r') : skipFirstBreak cs = cs := by
  cases cs with
  | nil => rfl
  | cons c cs =>
    have hfeed : c ≠ '\n' := by simpa using hfeed
    have hreturn : c ≠ '\r' := by simpa using hreturn
    simp [skipFirstBreak, hfeed, hreturn]

/-- A text that starts on a line of its own loses the first line end, and no other does. -/
theorem skipFirstBreak_firstBreak {cs : List Char}
    (hcs : '\n' ∉ s → cs.head? ≠ some '\n' ∧ cs.head? ≠ some '\r') :
    skipFirstBreak (firstBreak s ++ cs) = cs := by
  rw [firstBreak]
  split
  · rfl
  · rename_i hfeed
    obtain ⟨hfeed, hreturn⟩ := hcs (by simpa using hfeed)
    exact skipFirstBreak_eq hfeed hreturn

/-! ## 5. The form that is chosen -/

theorem head?_escapeBasic (c : Char) (rest : List Char) :
    (escapeBasic c ++ rest).head? ≠ some '"' := by
  unfold escapeBasic
  split
  · simp
  split
  · simp
  · rename_i hquote
    obtain ⟨d, more, hother, hd⟩ := escapeOther_eq_cons c
    rw [hother]
    rcases hd with rfl | ⟨rfl, -⟩
    · simp
    · simpa using hquote

theorem head?_escapeMulti (run : Nat) (hs : '\n' ∉ s) :
    (escapeMulti run s).head? ≠ some '\n' ∧ (escapeMulti run s).head? ≠ some '\r' := by
  cases s with
  | nil => simp [escapeMulti]
  | cons c s =>
    have hfeed : c ≠ '\n' := by
      rintro rfl
      exact hs List.mem_cons_self
    rw [escapeMulti]
    split
    · split
      · simp
      · simp
    · rw [if_neg (by simpa using hfeed)]
      obtain ⟨d, more, hother, hd⟩ := escapeOther_eq_cons c
      rw [hother]
      rcases hd with rfl | ⟨rfl, hcontrol⟩
      · simp
      · refine ⟨by simpa using hfeed, ?_⟩
        intro hreturn
        cases hreturn
        cases hcontrol

theorem string?_basic (hrest : rest.head? ≠ some '"') :
    string? (writeText s .basic ++ rest) = some (s, rest) := by
  rw [writeText, List.cons_append, List.append_assoc, List.singleton_append, string?.eq_2,
    basicBody_flatMap]
  -- the text does not start with the second and the third of three quotes
  intro more hmore
  cases s with
  | nil =>
    rw [List.flatMap_nil, List.nil_append, List.cons.injEq] at hmore
    exact hrest (by rw [hmore.2]; rfl)
  | cons c s =>
    rw [List.flatMap_cons, List.append_assoc] at hmore
    exact head?_escapeBasic c _ (by rw [hmore]; rfl)

theorem string?_literal (hne : s ≠ []) (hs : ∀ c ∈ s, c ≠ '\'' ∧ isControl c = false) :
    string? (writeText s .literal ++ rest) = some (s, rest) := by
  rw [writeText, List.cons_append, List.append_assoc, List.singleton_append, string?.eq_4,
    literalBody_append hs]
  obtain ⟨c, cs, rfl⟩ := List.exists_cons_of_ne_nil hne
  intro more hmore
  exact (hs c List.mem_cons_self).1 (List.cons.inj hmore).1

theorem string?_multiBasic (hrest : rest.head? ≠ some '"') :
    string? (writeText s .multiBasic ++ rest) = some (s, rest) := by
  have hbody := multiBasicBody_escapeMulti (s := s) (Nat.zero_le 2) hrest
  simp only [writeText, List.cons_append, List.append_assoc, List.nil_append, string?]
  rw [skipFirstBreak_firstBreak]
  · exact hbody
  · intro hfeed
    have hhead := head?_escapeMulti 0 hfeed
    cases hmulti : escapeMulti 0 s with
    | nil => simp
    | cons d more => simpa [hmulti] using hhead

theorem string?_multiLiteral (hrun : longestRun '\'' 0 s < 3)
    (hs : ∀ c ∈ s, needsEscape c = false) (hrest : rest.head? ≠ some '\'') :
    string? (writeText s .multiLiteral ++ rest) = some (s, rest) := by
  have hbody := multiLiteralBody_append hrun hs hrest
  simp only [writeText, List.cons_append, List.append_assoc, List.nil_append, string?]
  rw [skipFirstBreak_firstBreak]
  · exact hbody
  · intro hfeed
    cases s with
    | nil => simp
    | cons c s =>
      refine ⟨?_, ?_⟩
      · rintro ⟨⟩
        exact hfeed List.mem_cons_self
      · rintro ⟨⟩
        cases hs '\r' List.mem_cons_self

theorem plainForm?_eq_literal (h : plainForm? s = some .literal) :
    s ≠ [] ∧ ∀ c ∈ s, c ≠ '\'' ∧ isControl c = false := by
  unfold plainForm? at h
  split at h
  · cases h
  · rename_i hplain
    split at h
    · cases h
    · rename_i hquotes
      split at h
      · rename_i hsingle
        refine ⟨?_, ?_⟩
        · rintro rfl
          simp at hquotes
        · intro c hc
          simp only [Bool.or_eq_true, List.any_eq_true, not_or, not_exists, not_and,
            List.contains_eq_mem, decide_eq_true_eq, Bool.not_eq_true] at hplain
          have hquote : c ≠ '\'' := by
            rintro rfl
            simp [hc] at hsingle
          have hfeed : c ≠ '\n' := by
            rintro rfl
            exact hplain.2 hc
          exact ⟨hquote, isControl_eq_false (hplain.1 c hc) hfeed⟩
      · cases h

theorem plainForm?_eq_basic_or (s : List Char) :
    (plainForm? s).getD .basic = .basic ∨ plainForm? s = some .literal := by
  unfold plainForm?
  split
  · exact .inl rfl
  split
  · exact .inl rfl
  split
  · exact .inr rfl
  · exact .inl rfl

theorem plainForm?_ne_multiLiteral (s : List Char) : plainForm? s ≠ some .multiLiteral := by
  intro h
  rcases plainForm?_eq_basic_or s with hbasic | hliteral
  · simp [h] at hbasic
  · simp [h] at hliteral

theorem formOf_eq_multiLiteral (h : formOf s = .multiLiteral) :
    longestRun '\'' 0 s < 3 ∧ ∀ c ∈ s, needsEscape c = false := by
  unfold formOf at h
  split at h
  · rename_i form hplain
    subst h
    exact absurd hplain (plainForm?_ne_multiLiteral s)
  · split at h
    · cases h
    · split at h
      · rename_i hform
        simpa [and_comm] using hform
      · split at h <;> cases h

theorem plainForm?_of_formOf (h : formOf s = .literal) : plainForm? s = some .literal := by
  unfold formOf at h
  split at h
  · rename_i form hplain
    rw [hplain, h]
  · split at h
    · cases h
    split at h
    · cases h
    split at h <;> cases h

/-- What follows a text starts with no quote. -/
def AfterText (rest : List Char) : Prop :=
  rest.head? ≠ some '"' ∧ rest.head? ≠ some '\''

/-- A text is read back from the form that is chosen for it. -/
theorem string?_printText (s : String) (hrest : AfterText rest) :
    string? (printText s ++ rest) = some (s.toList, rest) := by
  rw [printText]
  cases hform : formOf s.toList with
  | basic => exact string?_basic hrest.1
  | literal =>
    obtain ⟨hne, hs⟩ := plainForm?_eq_literal (plainForm?_of_formOf hform)
    exact string?_literal hne hs
  | multiBasic => exact string?_multiBasic hrest.1
  | multiLiteral =>
    obtain ⟨hrun, hs⟩ := formOf_eq_multiLiteral hform
    exact string?_multiLiteral hrun hs hrest.2

/-! ## 6. Keys -/

/-- A character with which a written key can start. -/
def startsKey (c : Char) : Bool :=
  isBare c || c == '"' || c == '\''

theorem printKey_eq_cons (key : String) :
    ∃ c more, printKey key = c :: more ∧ startsKey c = true := by
  rw [printKey]
  split
  · rename_i hbare
    simp only [Bool.and_eq_true, Bool.not_eq_true', List.isEmpty_eq_false_iff, List.all_eq_true]
      at hbare
    obtain ⟨c, more, hcs⟩ := List.exists_cons_of_ne_nil hbare.1
    rw [hcs]
    exact ⟨c, more, rfl, by simp [startsKey, hbare.2 c (by simp [hcs])]⟩
  · rcases plainForm?_eq_basic_or key.toList with hform | hform
    · rw [hform]
      exact ⟨_, _, rfl, rfl⟩
    · rw [hform]
      exact ⟨_, _, rfl, rfl⟩

theorem keyPart?_bare (hne : s ≠ []) (hs : ∀ c ∈ s, isBare c = true)
    (hrest : ∀ c ∈ rest.head?, isBare c = false) : keyPart? (s ++ rest) = some (s, rest) := by
  have hstop : rest.takeWhile isBare = [] ∧ rest.dropWhile isBare = rest := by
    cases rest with
    | nil => exact ⟨rfl, rfl⟩
    | cons c rest => simp [hrest c rfl]
  have htake : (s ++ rest).takeWhile isBare = s := by
    rw [List.takeWhile_append_of_pos hs, hstop.1, List.append_nil]
  have hdrop : (s ++ rest).dropWhile isBare = rest := by
    rw [List.dropWhile_append_of_pos hs, hstop.2]
  obtain ⟨c, cs, rfl⟩ := List.exists_cons_of_ne_nil hne
  have hc := hs c List.mem_cons_self
  rw [keyPart?.eq_3, htake, hdrop]
  · simp
  · rintro more hmore
    cases hmore
    cases hc
  · rintro more hmore
    cases hmore
    cases hc

theorem keyPart?_printKey (key : String) (hrest : ∀ c ∈ rest.head?, isBare c = false) :
    keyPart? (printKey key ++ rest) = some (key.toList, rest) := by
  rw [printKey]
  split
  · rename_i hbare
    simp only [Bool.and_eq_true, Bool.not_eq_true', List.isEmpty_eq_false_iff, List.all_eq_true]
      at hbare
    exact keyPart?_bare hbare.1 hbare.2 hrest
  · rcases plainForm?_eq_basic_or key.toList with hform | hform
    · rw [hform, writeText, List.cons_append, List.append_assoc]
      exact basicBody_flatMap key.toList rest
    · rw [hform, Option.getD_some, writeText, List.cons_append, List.append_assoc]
      exact literalBody_append (plainForm?_eq_literal hform).2

theorem skipSpaces_cons (hc : isSpace c = false) : skipSpaces (c :: rest) = c :: rest := by
  rw [skipSpaces, List.dropWhile_cons, hc]
  rfl

theorem skipSpaces_printKey (key : String) (rest : List Char) :
    skipSpaces (printKey key ++ rest) = printKey key ++ rest := by
  obtain ⟨c, more, hkey, hc⟩ := printKey_eq_cons key
  have hspace : c ≠ ' ' := ne_of_class hc rfl
  have htab : c ≠ '\t' := ne_of_class hc rfl
  rw [hkey]
  exact skipSpaces_cons (by simp [isSpace, hspace, htab])

/-- A key of one part is read back, with the spaces after it. -/
theorem key?_printKey (key : String) (hrest : ∀ c ∈ rest.head?, isBare c = false)
    (hdot : (skipSpaces rest).head? ≠ some '.') :
    key? (printKey key ++ rest) = some ([key], skipSpaces rest) := by
  rw [key?, depthLimit, keyParts?, skipSpaces_printKey, keyPart?_printKey key hrest]
  simp only [Option.bind_eq_bind, Option.bind_some, String.ofList_toList]
  split
  · rename_i more hmore
    exact absurd (by rw [hmore]; rfl) hdot
  · rfl

end FatJar.Toml
