/-
FatJar.Proofs.Text.Utf8 — ASCII characters in UTF-8.

A byte below 0x80 stands for the character of the same number and occurs in no
other character, so line feeds, spaces and colons can be looked for in the bytes
of a text as well as in its characters.

Contents:
1. the bytes of a text, character by character;
2. bytes below 0x80.
-/
import FatJar.Text.Utf8

namespace FatJar.Text

/-! ## 1. Characters -/

/-- The bytes of a text are those of its characters. -/
theorem encode_ofList (cs : List Char) :
    encode (String.ofList cs) = cs.flatMap String.utf8EncodeChar := by
  simp [encode, List.utf8Encode]

/-- The bytes of a text are those of its characters. -/
theorem encode_eq_flatMap (s : String) : encode s = s.toList.flatMap String.utf8EncodeChar := by
  rw [← encode_ofList, String.ofList_toList]

/-! ## 2. ASCII -/

/-- A byte below 0x80 belongs to the character of its number. -/
theorem toNat_eq_of_mem_utf8EncodeChar {c : Char} {b : UInt8} (hb : b.toNat < 0x80)
    (h : b ∈ String.utf8EncodeChar c) : c.toNat = b.toNat := by
  have hc : c.toNat = c.val.toNat := rfl
  unfold String.utf8EncodeChar at h
  simp only at h
  split at h
  · rw [List.mem_singleton] at h
    subst h
    simp only [UInt8.toNat_ofNat'] at hb ⊢
    omega
  · -- every byte of a longer character has its highest bit set
    split at h
    · simp only [List.mem_cons, List.not_mem_nil, or_false] at h
      rcases h with rfl | rfl <;> simp only [UInt8.toNat_ofNat'] at hb <;> omega
    · split at h
      · simp only [List.mem_cons, List.not_mem_nil, or_false] at h
        rcases h with rfl | rfl | rfl <;> simp only [UInt8.toNat_ofNat'] at hb <;> omega
      · simp only [List.mem_cons, List.not_mem_nil, or_false] at h
        rcases h with rfl | rfl | rfl | rfl <;> simp only [UInt8.toNat_ofNat'] at hb <;> omega

/-- A character below 0x80 is the one byte of its number. -/
theorem utf8EncodeChar_ascii {c : Char} (hc : c.toNat < 0x80) :
    String.utf8EncodeChar c = [UInt8.ofNat c.toNat] := by
  have hval : c.val.toNat ≤ 0x7f := Nat.le_of_lt_succ hc
  unfold String.utf8EncodeChar
  simp only [hval, if_true]
  rfl

/-- A text holds an ASCII character exactly when its bytes hold the byte of the same number. -/
theorem mem_encode_iff {s : String} {b : UInt8} {c : Char} (hb : b.toNat < 0x80)
    (hc : c.toNat = b.toNat) : b ∈ encode s ↔ c ∈ s.toList := by
  rw [encode_eq_flatMap, List.mem_flatMap]
  constructor
  · rintro ⟨d, hd, hbd⟩
    have hdc : d.toNat = c.toNat := by rw [toNat_eq_of_mem_utf8EncodeChar hb hbd, hc]
    rwa [← Char.toNat_inj.mp hdc]
  · intro h
    refine ⟨c, h, ?_⟩
    rw [utf8EncodeChar_ascii (hc ▸ hb), hc]
    simp

/-- A text holds a line feed exactly when its bytes do. -/
theorem lineFeed_mem_encode {s : String} : (0x0a : UInt8) ∈ encode s ↔ '\n' ∈ s.toList :=
  mem_encode_iff (by decide) (by decide)

/-- The bytes of a text that starts with another character do not start with a space. -/
theorem head?_encode_ne_space {c : Char} {cs : List Char} (hc : c ≠ ' ') :
    (encode (String.ofList (c :: cs))).head? ≠ some 0x20 := by
  rw [encode_ofList, List.flatMap_cons]
  intro h
  cases hbytes : String.utf8EncodeChar c with
  | nil => exact String.utf8EncodeChar_ne_nil hbytes
  | cons b bs =>
    rw [hbytes] at h
    cases h
    have hmem : (0x20 : UInt8) ∈ String.utf8EncodeChar c := hbytes ▸ List.mem_cons_self
    have hnat : c.toNat = ' '.toNat := toNat_eq_of_mem_utf8EncodeChar (by decide) hmem
    exact hc (Char.toNat_inj.mp hnat)

/-- The bytes of a text with a character are not empty. -/
theorem encode_ne_nil {c : Char} {cs : List Char} : encode (String.ofList (c :: cs)) ≠ [] := by
  rw [encode_ofList, List.flatMap_cons]
  intro h
  exact String.utf8EncodeChar_ne_nil (List.append_eq_nil_iff.mp h).1

end FatJar.Text
