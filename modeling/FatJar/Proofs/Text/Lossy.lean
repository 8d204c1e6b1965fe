/-
FatJar.Proofs.Text.Lossy — reading names that were written as text.

`decodeLossy` reads any bytes; on the bytes of a text it gives the text, since
every character is one whole piece (`firstLossy_utf8EncodeChar`). In the old code
page only ASCII is written, and that is read back too.
-/
import FatJar.Proofs.Text.Utf8
import FatJar.Text.CodePage
import Mathlib.Data.List.Basic

namespace FatJar.Text

/-! ## 1. UTF-8 -/

/-! The ranges that may follow a first byte, by the number of bytes. The exceptions are the first
bytes of the least and the greatest characters of a length, and of the surrogates. -/

theorem followers?_two : ∀ n < 0xe0, 0xc2 ≤ n →
    followers? (UInt8.ofNat n) = some [(0x80, 0xbf)] := by decide +kernel

theorem followers?_three : ∀ n < 0xf0, 0xe0 ≤ n →
    followers? (UInt8.ofNat n) =
      some [(if n = 0xe0 then 0xa0 else 0x80, if n = 0xed then 0x9f else 0xbf), (0x80, 0xbf)] := by
  decide +kernel

theorem followers?_four : ∀ n < 0xf5, 0xf0 ≤ n →
    followers? (UInt8.ofNat n) =
      some [(if n = 0xf0 then 0x90 else 0x80, if n = 0xf4 then 0x8f else 0xbf), (0x80, 0xbf),
        (0x80, 0xbf)] := by decide +kernel

/-- A byte in the range given for it agrees. -/
theorem agreeing_cons {low high : UInt8} {n : Nat} (hlow : low.toNat ≤ n) (hhigh : n ≤ high.toNat)
    (ranges : List (UInt8 × UInt8)) (bytes : Bytes) :
    agreeing ((low, high) :: ranges) (UInt8.ofNat n :: bytes) = agreeing ranges bytes + 1 := by
  have hsize := high.toNat_lt
  have hn : (UInt8.ofNat n).toNat = n := by
    rw [UInt8.toNat_ofNat']
    omega
  have hlow' : low ≤ UInt8.ofNat n := by rw [UInt8.le_iff_toNat_le, hn]; exact hlow
  have hhigh' : UInt8.ofNat n ≤ high := by rw [UInt8.le_iff_toNat_le, hn]; exact hhigh
  simp [agreeing, hlow', hhigh']

theorem agreeing_tail (n : Nat) (ranges : List (UInt8 × UInt8)) (bytes : Bytes) :
    agreeing ((0x80, 0xbf) :: ranges) (UInt8.ofNat (n % 64 + 128) :: bytes) =
      agreeing ranges bytes + 1 := by
  have hlow : (0x80 : UInt8).toNat = 128 := rfl
  have hhigh : (0xbf : UInt8).toNat = 191 := rfl
  exact agreeing_cons (by omega) (by omega) ranges bytes

theorem agreeing_nil (bytes : Bytes) : agreeing [] bytes = 0 := by
  cases bytes <;> rfl

/-- The bytes of a character: the first says how many follow, and those are in their ranges. -/
theorem utf8EncodeChar_followers (c : Char) (rest : Bytes) :
    ∃ first more ranges, String.utf8EncodeChar c = first :: more ∧
      followers? first = some ranges ∧ ranges.length = more.length ∧
      agreeing ranges (more ++ rest) = more.length := by
  have hvalid : c.val.toNat < 0xd800 ∨ 0xdfff < c.val.toNat ∧ c.val.toNat < 0x110000 := c.valid
  generalize hv : c.val.toNat = v at hvalid
  unfold String.utf8EncodeChar
  simp only [hv]
  split
  · refine ⟨_, [], [], rfl, ?_, rfl, agreeing_nil _⟩
    have hfirst : UInt8.ofNat v ≤ 0x7f := by
      rw [UInt8.le_iff_toNat_le, UInt8.toNat_ofNat']
      have : (0x7f : UInt8).toNat = 127 := rfl
      omega
    simp [followers?, hfirst]
  · split
    · refine ⟨_, _, _, rfl, followers?_two _ (by omega) (by omega), rfl, ?_⟩
      simp only [List.cons_append, List.nil_append, agreeing_tail, agreeing_nil]
      rfl
    · split
      · refine ⟨_, _, _, rfl, followers?_three _ (by omega) (by omega), rfl, ?_⟩
        rw [List.cons_append, agreeing_cons]
        · simp only [List.cons_append, List.nil_append, agreeing_tail, agreeing_nil]
          rfl
        · split
          · show 160 ≤ _
            omega
          · show 128 ≤ _
            omega
        · split
          · show _ ≤ 159
            omega
          · show _ ≤ 191
            omega
      · refine ⟨_, _, _, rfl, followers?_four _ (by omega) (by omega), rfl, ?_⟩
        rw [List.cons_append, agreeing_cons]
        · simp only [List.cons_append, List.nil_append, agreeing_tail, agreeing_nil]
          rfl
        · split
          · show 144 ≤ _
            omega
          · show 128 ≤ _
            omega
        · split
          · show _ ≤ 143
            omega
          · show _ ≤ 191
            omega

/-- A character at the start of some bytes is read as one piece. -/
theorem decodeLossy_utf8EncodeChar (c : Char) (rest : Bytes) :
    decodeLossy (String.utf8EncodeChar c ++ rest) = String.singleton c ++ decodeLossy rest := by
  obtain ⟨first, more, ranges, hbytes, hranges, hlength, hagree⟩ :=
    utf8EncodeChar_followers c rest
  have hdecode : decode? (first :: more) = some (String.singleton c) := by
    have hencode : encode (String.singleton c) = first :: more := by
      rw [← hbytes, encode_eq_flatMap]
      simp
    rw [← hencode, decode?_encode]
  have hfirst : firstLossy first (more ++ rest) = (String.singleton c, more.length) := by
    simp [firstLossy, hranges, hagree, hlength, hdecode]
  rw [hbytes, List.cons_append, decodeLossy, hfirst]
  simp

/-- The bytes of a text are read as the text. -/
theorem decodeLossy_encode (s : String) : decodeLossy (encode s) = s := by
  have hchars : ∀ cs : List Char,
      decodeLossy (cs.flatMap String.utf8EncodeChar) = String.ofList cs := by
    intro cs
    induction cs with
    | nil => rw [List.flatMap_nil, decodeLossy, String.ofList_nil]
    | cons c rest ih =>
      rw [List.flatMap_cons, decodeLossy_utf8EncodeChar, ih, ← String.toList_inj]
      simp
  rw [encode_eq_flatMap, hchars, String.ofList_toList]

/-! ## 2. The old code page -/

/-- ASCII is the same in the old code page. -/
theorem decodeCodePage_encode {s : String} (h : ∀ c ∈ s.toList, c.toNat < 0x80) :
    decodeCodePage (encode s) = s := by
  have hchar : ∀ c ∈ s.toList, (String.utf8EncodeChar c).map codePageChar = [c] := by
    intro c hc
    have hbyte : (UInt8.ofNat c.toNat).toNat = c.toNat := by
      rw [UInt8.toNat_ofNat']
      have := h c hc
      omega
    simp [utf8EncodeChar_ascii (h c hc), codePageChar, hbyte, h c hc]
  rw [decodeCodePage, encode_eq_flatMap, List.map_flatMap, List.flatMap_congr hchar]
  simp

end FatJar.Text
