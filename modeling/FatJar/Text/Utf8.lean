/-
FatJar.Text.Utf8 — text as bytes.

Contents:
1. `encode` and the strict `decode?`, which accepts exactly what `encode` writes;
2. `decodeLossy`, which reads any bytes and puts U+FFFD in place of each
   longest piece that starts a character and does not complete it.
-/

namespace FatJar

/-- Contents of files, entries and manifests. -/
abbrev Bytes := List UInt8

namespace Text

/-! ## 1. Strict reading -/

/-- The UTF-8 form of a text. -/
def encode (s : String) : Bytes :=
  s.toByteArray.data.toList

/-- The text whose UTF-8 form is given, or none where there is no such text. -/
def decode? (bytes : Bytes) : Option String :=
  String.fromUTF8? ⟨bytes.toArray⟩

/-- Reading accepts a written text. -/
@[simp]
theorem decode?_encode (s : String) : decode? (encode s) = some s := by
  have h : (⟨(encode s).toArray⟩ : ByteArray) = s.toByteArray := by simp [encode]
  unfold decode?
  rw [h, String.fromUTF8?, dif_pos s.isValidUTF8]
  rfl

/-- Reading accepts nothing else. -/
theorem encode_of_decode? {bytes : Bytes} {s : String} (h : decode? bytes = some s) :
    encode s = bytes := by
  unfold decode? String.fromUTF8? at h
  split at h
  · cases h
    simp [encode, String.fromUTF8]
  · cases h

/-- The empty text has no bytes. -/
@[simp]
theorem encode_empty : encode "" = [] := rfl

/-- Texts are written one after the other. -/
@[simp]
theorem encode_append (s t : String) : encode (s ++ t) = encode s ++ encode t := by
  simp [encode]

/-! ## 2. Reading that replaces what is no text -/

/-- The ranges of the bytes that follow a first byte, or none for a byte that starts no character. -/
def followers? (first : UInt8) : Option (List (UInt8 × UInt8)) :=
  let tail : UInt8 × UInt8 := (0x80, 0xbf)
  if first ≤ 0x7f then some []
  else if 0xc2 ≤ first && first ≤ 0xdf then some [tail]
  else if first == 0xe0 then some [(0xa0, 0xbf), tail]
  else if first == 0xed then some [(0x80, 0x9f), tail]
  else if 0xe1 ≤ first && first ≤ 0xef then some [tail, tail]
  else if first == 0xf0 then some [(0x90, 0xbf), tail, tail]
  else if 0xf1 ≤ first && first ≤ 0xf3 then some [tail, tail, tail]
  else if first == 0xf4 then some [(0x80, 0x8f), tail, tail]
  else none

/-- How many bytes lie in the ranges given for them, up to the first that does not. -/
def agreeing : List (UInt8 × UInt8) → Bytes → Nat
  | (low, high) :: ranges, b :: bytes =>
    if low ≤ b && b ≤ high then agreeing ranges bytes + 1 else 0
  | _, _ => 0

/-- The replacement character. -/
def replacement : String := "\ufffd"

/-- The first character of some bytes, with the number of bytes after the first that it takes. -/
def firstLossy (first : UInt8) (rest : Bytes) : String × Nat :=
  match followers? first with
  | none => (replacement, 0)
  | some ranges =>
    let n := agreeing ranges rest
    if n == ranges.length then ((decode? (first :: rest.take n)).getD replacement, n)
    else (replacement, n)

/-- The text in the bytes, with U+FFFD for what is not UTF-8. -/
def decodeLossy : Bytes → String
  | [] => ""
  | first :: rest =>
    let step := firstLossy first rest
    step.1 ++ decodeLossy (rest.drop step.2)
termination_by bytes => bytes.length
decreasing_by
  simp only [List.length_cons, List.length_drop]
  omega

end Text

end FatJar
