/-
FatJar.Proofs.Zip.Deflate — compressed data expands to the payload.

Compressing is not trusted: `deflate` expands what it has made and falls back on
plain blocks where that does not give the payload. So `inflate?_deflate` needs no
argument about codes or copies, only that plain blocks are read back.
-/
import FatJar.Zip.Deflate

namespace FatJar.Zip

/-- A number of two bytes is read back. -/
theorem pair?_bytes {n : Nat} (h : n ≤ maxPlainBlock) (rest : Bytes) :
    pair? (n.toUInt8 :: (n / 256).toUInt8 :: rest) = some (n, rest) := by
  have hlow : n.toUInt8.toNat = n % 256 := by simp
  have hhigh : (n / 256).toUInt8.toNat = n / 256 % 256 := by simp
  simp only [maxPlainBlock] at h
  simp only [pair?, hlow, hhigh, Option.some.injEq, Prod.mk.injEq, and_true]
  omega

/-- A plain block ends with its bytes. The bits that are left of its first byte are not looked
at. -/
theorem plainBlock?_tail (last : Bool) {payload : Bytes} (h : payload.length ≤ maxPlainBlock)
    (started : List Bool) (rest : Bytes) (out : Array UInt8) :
    plainBlock? ⟨started, (plainBlock last payload).tail ++ rest⟩ out =
      some (⟨[], rest⟩, out ++ payload.toArray) := by
  have hcomplement : maxPlainBlock - payload.length ≤ maxPlainBlock := Nat.sub_le _ _
  have hsum : payload.length + (maxPlainBlock - payload.length) = 65535 := by
    simp only [maxPlainBlock] at *
    omega
  simp [plainBlock?, plainBlock, BitStream.aligned, pair?_bytes h, pair?_bytes hcomplement, hsum]

/-- The first three bits of a plain block say whether it is the last and that it is plain. -/
theorem inflateBlocks_plainBlock (fuel : Nat) (last : Bool) {payload : Bytes}
    (h : payload.length ≤ maxPlainBlock) (rest : Bytes) (out : Array UInt8) :
    inflateBlocks (fuel + 1) ⟨[], plainBlock last payload ++ rest⟩ out =
      if last then some (out ++ payload.toArray)
      else inflateBlocks fuel ⟨[], rest⟩ (out ++ payload.toArray) := by
  let bytes := (plainBlock last payload).tail ++ rest
  have hbit : BitStream.bit? ⟨[], plainBlock last payload ++ rest⟩ =
      some (last, ⟨List.replicate 7 false, bytes⟩) := by
    cases last <;> rfl
  have hkind : BitStream.number? 2 ⟨List.replicate 7 false, bytes⟩ =
      some (0, ⟨List.replicate 5 false, bytes⟩) := rfl
  have hblock := plainBlock?_tail last h (List.replicate 5 false) rest out
  rw [inflateBlocks, hbit]
  simp only [Option.bind_eq_bind, Option.bind_some, hkind, beq_self_eq_true, if_true]
  rw [show plainBlock? ⟨List.replicate 5 false, bytes⟩ out = _ from hblock]
  rfl

/-- Plain blocks are read back, one after the other. -/
theorem inflateBlocks_plainBlocks (payload : Bytes) (out : Array UInt8) (fuel : Nat)
    (hfuel : payload.length < fuel) :
    inflateBlocks fuel ⟨[], plainBlocks payload⟩ out = some (out ++ payload.toArray) := by
  obtain ⟨fuel, rfl⟩ : ∃ n, fuel = n + 1 := ⟨fuel - 1, by omega⟩
  induction payload using plainBlocks.induct generalizing out fuel with
  | case1 payload h =>
    have hread := inflateBlocks_plainBlock fuel true h [] out
    rw [plainBlocks, if_pos h]
    simpa using hread
  | case2 payload h ih =>
    have hfirst : (payload.take maxPlainBlock).length ≤ maxPlainBlock := by
      simp only [List.length_take]
      omega
    obtain ⟨fuel, rfl⟩ : ∃ n, fuel = n + 1 := by
      simp only [maxPlainBlock] at h
      exact ⟨fuel - 1, by omega⟩
    rw [plainBlocks, if_neg h, inflateBlocks_plainBlock _ _ hfirst]
    have hrest := ih (out ++ (payload.take maxPlainBlock).toArray) fuel (by
      simp only [List.length_drop, maxPlainBlock] at *
      omega)
    simpa [List.take_append_drop] using hrest

theorem length_lt_plainBlocks (payload : Bytes) :
    payload.length < (plainBlocks payload).length := by
  induction payload using plainBlocks.induct with
  | case1 payload h =>
    rw [plainBlocks, if_pos h]
    simp only [plainBlock, List.cons_append, List.nil_append, List.length_cons]
    omega
  | case2 payload h ih =>
    rw [plainBlocks, if_neg h]
    simp only [List.length_drop, List.length_append, plainBlock, List.length_cons, List.length_nil,
      List.length_take] at ih ⊢
    omega

theorem inflate?_plainBlocks (payload : Bytes) : inflate? (plainBlocks payload) = some payload := by
  have hlength := length_lt_plainBlocks payload
  rw [inflate?, inflateBlocks_plainBlocks payload #[] _ (by omega)]
  simp

/-- **Compressed data expands to the payload.** -/
theorem inflate?_deflate (payload : Bytes) : inflate? (deflate payload) = some payload := by
  unfold deflate
  simp only
  split
  · rename_i h
    exact eq_of_beq h
  · exact inflate?_plainBlocks payload

end FatJar.Zip
