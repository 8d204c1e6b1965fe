/-
FatJar.Proofs.Toml.Value — texts, numbers and arrays of texts are read back.

A value is told from others by how it starts. For a text that is a quote; the
digits of a number start dates, times and numbers with a fraction as well, and
what follows them decides.

Contents:
1. texts;
2. digits;
3. numbers;
4. arrays.
-/
import FatJar.Proofs.Toml.Text
import FatJar.Toml.Value
import Mathlib.Data.List.Basic

namespace FatJar.Toml

variable {c : Char} {rest : List Char}

/-! ## 1. Texts -/

theorem printText_eq_cons (s : String) :
    ∃ c more, printText s = c :: more ∧ (c = '"' ∨ c = '\'') := by
  rw [printText]
  cases formOf s.toList <;> simp [writeText]

theorem scalar?_printText (s : String) (hrest : AfterText rest) :
    scalar? (printText s ++ rest) = some (.string s, rest) := by
  have hstring := string?_printText s hrest
  obtain ⟨c, more, htext, rfl | rfl⟩ := printText_eq_cons s
  · rw [htext, List.cons_append] at hstring ⊢
    rw [scalar?, hstring]
    simp
  · rw [htext, List.cons_append] at hstring ⊢
    rw [scalar?, hstring]
    simp

theorem value?_eq_scalar? (depth : Nat) (harray : c ≠ '[') (htable : c ≠ '{') :
    value? depth (c :: rest) = scalar? (c :: rest) := by
  cases depth with
  | zero => rw [value?]
  | succ depth => simp [value?, harray, htable]

theorem value?_printText (depth : Nat) (s : String) (hrest : AfterText rest) :
    value? depth (printText s ++ rest) = some (.string s, rest) := by
  rw [← scalar?_printText s hrest]
  obtain ⟨c, more, htext, rfl | rfl⟩ := printText_eq_cons s
  · rw [htext]
    exact value?_eq_scalar? depth (by decide) (by decide)
  · rw [htext]
    exact value?_eq_scalar? depth (by decide) (by decide)

/-! ## 2. Digits -/

section Digits

variable {digits : List Char} (hdigits : ∀ c ∈ digits, c.isDigit = true)

include hdigits

theorem moreDigits_append :
    moreDigits Char.isDigit (digits ++ '\n' :: rest) = some (digits, '\n' :: rest) := by
  induction digits with
  | nil => simp [moreDigits, Char.isDigit]
  | cons c digits ih =>
    have hc := hdigits c List.mem_cons_self
    have hscore : c ≠ '_' := ne_of_class hc rfl
    have hrest := ih fun d hd => hdigits d (List.mem_cons_of_mem c hd)
    simp [moreDigits, hscore, hc, hrest]

/-- After a fixed number of digits there is a digit or the end of the line. -/
theorem fixed?_append {value found n : Nat} {left : List Char}
    (h : fixed? value n (digits ++ '\n' :: rest) = some (found, left)) :
    ∃ c more, left = c :: more ∧ (c.isDigit = true ∨ c = '\n') := by
  induction n generalizing value digits with
  | zero =>
    cases h
    cases digits with
    | nil => exact ⟨_, _, rfl, .inr rfl⟩
    | cons c digits => exact ⟨_, _, rfl, .inl (hdigits c List.mem_cons_self)⟩
  | succ n ih =>
    cases digits with
    | nil => simp [fixed?, Char.isDigit] at h
    | cons c digits =>
      rw [List.cons_append, fixed?, if_pos (hdigits c List.mem_cons_self)] at h
      exact ih (fun d hd => hdigits d (List.mem_cons_of_mem c hd)) h

theorem hour?_append : hour? (digits ++ '\n' :: rest) = none := by
  unfold hour? twoDigits?
  cases hfixed : fixed? 0 2 (digits ++ '\n' :: rest) with
  | none => rfl
  | some found =>
    obtain ⟨c, more, hleft, hc⟩ := fixed?_append hdigits hfixed
    have hcolon : c ≠ ':' := by
      rintro rfl
      rcases hc with hc | hc <;> cases hc
    simp [hleft, expect?, hcolon]

/-- Digits alone are no date and no time. -/
theorem date?_append : date? (digits ++ '\n' :: rest) = none := by
  unfold date?
  split
  · rename_i year more hfixed
    obtain ⟨c, more', hleft, hc⟩ := fixed?_append hdigits hfixed
    cases hleft
    rcases hc with hc | hc <;> cases hc
  · rw [hour?_append hdigits]

end Digits

/-! ## 3. Numbers -/

theorem isDigit_toDigits (n : Nat) : ∀ c ∈ Nat.toDigits 10 n, c.isDigit = true := fun _ hc =>
  Nat.isDigit_of_mem_toDigits (by decide) (by decide) hc

theorem toDigits_eq_cons (n : Nat) :
    ∃ c cs, Nat.toDigits 10 n = c :: cs ∧ c.isDigit = true ∧ ∀ d ∈ cs, d.isDigit = true := by
  have hdigits := isDigit_toDigits n
  cases hcs : Nat.toDigits 10 n with
  | nil => exact absurd hcs Nat.toDigits_ne_nil
  | cons c cs =>
    rw [hcs] at hdigits
    exact ⟨c, cs, rfl, List.forall_mem_cons.mp hdigits⟩

/-- The digits of a number do not start with a zero, unless the number is zero. -/
theorem eq_zero_of_head?_toDigits {n : Nat} (h : (Nat.toDigits 10 n).head? = some '0') : n = 0 := by
  induction n using Nat.strongRecOn with
  | _ n ih =>
    by_cases hn : n < 10
    · rw [Nat.toDigits_of_lt_base hn] at h
      simpa using h
    · rw [Nat.toDigits_of_base_le (by decide) (by omega)] at h
      obtain ⟨c, cs, hcs, -⟩ := toDigits_eq_cons (n / 10)
      have hzero := ih (n / 10) (by omega) (by simpa [hcs] using h)
      omega

theorem valueOf_toDigits (n : Nat) : valueOf 10 (Nat.toDigits 10 n) = n := by
  have hvalue : ∀ c ∈ Nat.toDigits 10 n, ∀ sum : Nat,
      10 * sum + (hexValue? c).getD 0 = 10 * sum + (c.toNat - '0'.toNat) := by
    intro c hc sum
    rw [hexValue?, if_pos (isDigit_toDigits n c hc)]
    rfl
  calc valueOf 10 (Nat.toDigits 10 n)
      = (Nat.toDigits 10 n).foldl (fun sum c => 10 * sum + (c.toNat - '0'.toNat)) 0 :=
        List.foldl_ext _ _ 0 fun sum c hc => hvalue c hc sum
    _ = Nat.ofDigitChars 10 (Nat.toDigits 10 n) 0 := Nat.ofDigitChars_eq_foldl.symm
    _ = n := Nat.ofDigitChars_ten_toDigits

theorem decimal?_toDigits (n : Nat) (rest : List Char) :
    decimal? (Nat.toDigits 10 n ++ '\n' :: rest) = some (Nat.toDigits 10 n, '\n' :: rest) := by
  by_cases hzero : n = 0
  · subst hzero
    rfl
  · obtain ⟨c, cs, hcs, hdigit, hmore⟩ := toDigits_eq_cons n
    have hc : c ≠ '0' := by
      rintro rfl
      exact hzero (eq_zero_of_head?_toDigits (by rw [hcs]; rfl))
    simp [hcs, decimal?, hc, digits?, hdigit, moreDigits_append hmore]

theorem sign_of_isDigit (hc : c.isDigit = true) : sign (c :: rest) = (false, c :: rest) := by
  have hplus : c ≠ '+' := ne_of_class hc rfl
  have hminus : c ≠ '-' := ne_of_class hc rfl
  simp [sign, hplus, hminus]

/-- Digits alone are no number with a fraction or an exponent. -/
theorem float?_toDigits (n : Nat) : float? (Nat.toDigits 10 n ++ '\n' :: rest) = none := by
  have hdecimal := decimal?_toDigits n rest
  obtain ⟨c, cs, hcs, hc, -⟩ := toDigits_eq_cons n
  have hi : c ≠ 'i' := ne_of_class hc rfl
  have hn : c ≠ 'n' := ne_of_class hc rfl
  rw [hcs, List.cons_append] at hdecimal ⊢
  simp [float?, sign_of_isDigit hc, hi, hn, hdecimal, startsFraction]

theorem integer?_toDigits {n : Nat} (hn : n ≤ maxInteger) :
    integer? (Nat.toDigits 10 n ++ '\n' :: rest) = some ((n : Int), '\n' :: rest) := by
  have hdecimal := decimal?_toDigits n rest
  have hvalue := valueOf_toDigits n
  have hrange : inRange n = true := by
    simp only [inRange, Bool.and_eq_true, decide_eq_true_eq]
    omega
  -- a zero at the front is the whole number, so no mark of another base follows it
  have hmark : ∀ {mark : Char} {more : List Char},
      Nat.toDigits 10 n ++ '\n' :: rest = '0' :: mark :: more → mark = '\n' := by
    intro mark more h
    obtain rfl : n = 0 := by
      obtain ⟨c, cs, hcs, -⟩ := toDigits_eq_cons n
      rw [hcs] at h
      obtain ⟨rfl, -⟩ := List.cons.inj h
      exact eq_zero_of_head?_toDigits (by rw [hcs]; rfl)
    cases h
    rfl
  have hsign : sign (Nat.toDigits 10 n ++ '\n' :: rest) =
      (false, Nat.toDigits 10 n ++ '\n' :: rest) := by
    obtain ⟨c, cs, hcs, hc, -⟩ := toDigits_eq_cons n
    rw [hcs]
    exact sign_of_isDigit hc
  rw [integer?.eq_4, decimalInteger?, hsign]
  · simp [hdecimal, hvalue, hrange]
  · intro more h
    cases hmark h
  · intro more h
    cases hmark h
  · intro more h
    cases hmark h

theorem number?_toDigits {n : Nat} (hn : n ≤ maxInteger) :
    number? (Nat.toDigits 10 n ++ '\n' :: rest) = some (.integer n, '\n' :: rest) := by
  rw [number?, date?_append (isDigit_toDigits n), float?_toDigits n, integer?_toDigits hn]
  rfl

/-- A number of jobs is read back. -/
theorem value?_toString (depth : Nat) {n : Nat} (hn : n ≤ maxInteger) :
    value? depth ((toString n).toList ++ '\n' :: rest) = some (.integer n, '\n' :: rest) := by
  rw [Nat.toString_eq_ofList_toDigits, String.toList_ofList, ← number?_toDigits hn]
  obtain ⟨c, cs, hcs, hc, -⟩ := toDigits_eq_cons n
  have ht : c ≠ 't' := ne_of_class hc rfl
  have hf : c ≠ 'f' := ne_of_class hc rfl
  have hdouble : c ≠ '"' := ne_of_class hc rfl
  have hsingle : c ≠ '\'' := ne_of_class hc rfl
  rw [hcs, List.cons_append, value?_eq_scalar? depth (ne_of_class hc rfl) (ne_of_class hc rfl)]
  simp [scalar?, ht, hf, hdouble, hsingle]

/-! ## 4. Arrays -/

/-- A character that is no blank and starts no comment. -/
def isSolid (c : Char) : Bool :=
  !isSpace c && c != '\n' && c != '\r' && c != '#'

theorem skipTrivia_cons (hc : isSolid c = true) :
    skipTrivia false (c :: rest) = some (c :: rest) := by
  simp only [isSolid, Bool.and_eq_true, Bool.not_eq_true', bne_iff_ne] at hc
  obtain ⟨⟨⟨hspace, hfeed⟩, hreturn⟩, hcomment⟩ := hc
  simp [skipTrivia, hspace, hfeed, hreturn]

theorem skipTrivia_printText (s : String) (rest : List Char) :
    skipTrivia false (printText s ++ rest) = some (printText s ++ rest) := by
  obtain ⟨c, more, htext, rfl | rfl⟩ := printText_eq_cons s
  · rw [htext]
    exact skipTrivia_cons rfl
  · rw [htext]
    exact skipTrivia_cons rfl

/-- What is written for an item on a line of its own. -/
def itemLine (s : String) : List Char :=
  "    ".toList ++ printText s ++ ",\n".toList

theorem printText_append_ne (s : String) (rest more : List Char) :
    printText s ++ rest ≠ ']' :: more := by
  obtain ⟨c, cs, htext, hc⟩ := printText_eq_cons s
  intro h
  rw [htext] at h
  obtain ⟨rfl, -⟩ := List.cons.inj h
  simp at hc

theorem skipTrivia_itemLine (s : String) (rest : List Char) :
    skipTrivia false ('\n' :: (itemLine s ++ rest)) =
      some (printText s ++ ',' :: '\n' :: rest) := by
  have hline : itemLine s ++ rest =
      ' ' :: ' ' :: ' ' :: ' ' :: (printText s ++ ',' :: '\n' :: rest) := by
    simp [itemLine]
  have htext := skipTrivia_printText s (',' :: '\n' :: rest)
  simp [hline, skipTrivia, isSpace, htext]

theorem length_le_flatMap_itemLine (texts : List String) :
    texts.length ≤ (texts.flatMap itemLine).length := by
  induction texts with
  | nil => exact Nat.zero_le _
  | cons s texts ih =>
    have hline : 1 ≤ (itemLine s).length := by simp [itemLine]
    rw [List.flatMap_cons, List.length_append, List.length_cons]
    omega

section Items

variable {value : List Char → Option (Item × List Char)}
  (hvalue : ∀ {rest : List Char} (s : String), AfterText rest →
    value (printText s ++ rest) = some (.string s, rest))

include hvalue

theorem arrayItems_last {fuel : Nat} {cs : List Char} {s : String}
    (hcs : skipTrivia false cs = some (printText s ++ ']' :: rest)) :
    arrayItems value (fuel + 1) cs = some ([.string s], rest) := by
  have hafter : AfterText (']' :: rest) := by simp [AfterText]
  have hbracket := printText_append_ne s (']' :: rest)
  have hskip : skipTrivia false (']' :: rest) = some (']' :: rest) := skipTrivia_cons rfl
  simp [arrayItems, hcs, hvalue s hafter, hskip]

theorem arrayItems_next {fuel : Nat} {cs : List Char} {s : String}
    (hcs : skipTrivia false cs = some (printText s ++ ',' :: rest)) :
    arrayItems value (fuel + 1) cs =
      (arrayItems value fuel rest).map fun read => (.string s :: read.1, read.2) := by
  have hafter : AfterText (',' :: rest) := by simp [AfterText]
  have hbracket := printText_append_ne s (',' :: rest)
  have hskip : skipTrivia false (',' :: rest) = some (',' :: rest) := skipTrivia_cons rfl
  cases hmore : arrayItems value fuel rest <;>
    simp [arrayItems, hcs, hvalue s hafter, hskip, hmore]

/-- Items on lines of their own are read one after the other. -/
theorem arrayItems_lines {fuel : Nat} (texts : List String) (hfuel : texts.length < fuel) :
    arrayItems value fuel ('\n' :: (texts.flatMap itemLine ++ ']' :: rest)) =
      some (texts.map .string, rest) := by
  obtain ⟨fuel, rfl⟩ : ∃ more, fuel = more + 1 := ⟨fuel - 1, by omega⟩
  induction texts generalizing fuel with
  | nil =>
    have hskip : skipTrivia false ('\n' :: ']' :: rest) = some (']' :: rest) := by
      simp [skipTrivia, isSpace]
    simp [arrayItems, hskip]
  | cons s texts ih =>
    have hskip := skipTrivia_itemLine s (texts.flatMap itemLine ++ ']' :: rest)
    obtain ⟨fuel, rfl⟩ : ∃ more, fuel = more + 1 := ⟨fuel - 1, by
      rw [List.length_cons] at hfuel
      omega⟩
    rw [List.flatMap_cons, List.append_assoc, arrayItems_next hvalue hskip,
      ih fuel (by simpa using hfuel)]
    rfl

end Items

/-- An array of texts is read back. -/
theorem value?_printArray (depth : Nat) (texts : List String) :
    value? (depth + 1) (printArray texts ++ rest) = some (.array (texts.map .string), rest) := by
  have hvalue : ∀ {rest : List Char} (s : String), AfterText rest →
      value? depth (printText s ++ rest) = some (.string s, rest) := fun s hrest =>
    value?_printText depth s hrest
  match texts with
  | [] =>
    have hskip : skipTrivia false (']' :: rest) = some (']' :: rest) := skipTrivia_cons rfl
    show value? (depth + 1) ('[' :: ']' :: rest) = _
    simp [value?, arrayItems, hskip]
  | [s] =>
    rw [printArray, List.cons_append, List.append_assoc, List.singleton_append, value?,
      arrayItems_last hvalue (skipTrivia_printText s _)]
    rfl
  | first :: second :: texts =>
    -- every item takes a character at least
    have hfuel := length_le_flatMap_itemLine (first :: second :: texts)
    show value? (depth + 1)
      ('[' :: '\n' :: ((first :: second :: texts).flatMap itemLine ++ [']'] ++ rest)) = _
    rw [List.append_assoc, List.singleton_append, value?, arrayItems_lines hvalue]
    · rfl
    · simp only [List.length_cons, List.length_append] at hfuel ⊢
      omega

end FatJar.Toml
