/-
FatJar.Proofs.Text.ByteOrder — texts in the order of their characters are in the
order of their bytes.

In UTF-8 the characters with more bytes come after those with fewer, and their
first bytes tell them apart. Of characters with equally many bytes the first byte
in which they differ is in the order of the characters. So the first character in
which two texts differ decides about their bytes too.
-/
import FatJar.Proofs.Text.Utf8
import Mathlib.Tactic.SplitIfs

namespace FatJar.Text

/-- The bytes of two characters are in the order of the characters, whatever follows them. -/
theorem utf8EncodeChar_append_lt {c d : Char} (h : c < d) (xs ys : Bytes) :
    String.utf8EncodeChar c ++ xs < String.utf8EncodeChar d ++ ys := by
  have hlt : c.val.toNat < d.val.toNat := h
  have hmax : d.val.toNat < 0x110000 := by
    have hvalid := d.valid
    simp only [UInt32.isValidChar, Nat.isValidChar] at hvalid
    omega
  -- the bytes are made of the digits to the base 64
  have hsecond : ∀ n : Nat, n / 4096 = n / 64 / 64 := fun n => by
    rw [Nat.div_div_eq_div_mul]
  have hthird : ∀ n : Nat, n / 262144 = n / 64 / 64 / 64 := fun n => by
    rw [Nat.div_div_eq_div_mul, Nat.div_div_eq_div_mul]
  unfold String.utf8EncodeChar
  simp only [hsecond, hthird]
  -- one case for each pair of lengths; those in which the first character is longer cannot be
  split_ifs <;>
    simp (disch := omega) only [List.cons_append, List.nil_append, List.cons_lt_cons_iff,
      UInt8.lt_iff_toNat_lt, ← UInt8.toNat_inj, UInt8.toNat_ofNat', Nat.mod_eq_of_lt] <;>
    omega

theorem flatMap_utf8EncodeChar_lt {cs ds : List Char} (h : cs < ds) :
    cs.flatMap String.utf8EncodeChar < ds.flatMap String.utf8EncodeChar := by
  induction cs generalizing ds with
  | nil =>
    cases ds with
    | nil => exact absurd h (List.lt_irrefl [])
    | cons d ds =>
      cases hbytes : String.utf8EncodeChar d with
      | nil => exact absurd hbytes String.utf8EncodeChar_ne_nil
      | cons b bs => simp [hbytes]
  | cons c cs ih =>
    cases ds with
    | nil => exact absurd h (List.not_lt_nil _)
    | cons d ds =>
      rw [List.flatMap_cons, List.flatMap_cons]
      rcases List.cons_lt_cons_iff.mp h with hfirst | ⟨rfl, hrest⟩
      · exact utf8EncodeChar_append_lt hfirst _ _
      · exact List.append_left_lt (ih hrest)

/-- Two texts have different bytes. -/
theorem encode_injective : Function.Injective encode := fun s t hsame =>
  Option.some.inj (by rw [← decode?_encode s, hsame, decode?_encode])

/-- A text that comes before another has bytes that come before. -/
theorem encode_lt_encode {s t : String} (h : s < t) : encode s < encode t := by
  rw [encode_eq_flatMap, encode_eq_flatMap]
  exact flatMap_utf8EncodeChar_lt h

end FatJar.Text
