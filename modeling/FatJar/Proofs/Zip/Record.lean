/-
FatJar.Proofs.Zip.Record — records are read back as they were written.

A record is a list of numbers, each in so many bytes. `fields?_writeFields` reads
all of them back at once, so the three kinds of records need no argument of their
own: each of them is its fields, followed by some blocks of a given length.

Numbers lose what does not fit into their width. `Header.Fits` and
`EndRecord.Fits` say that nothing is lost.

Contents:
1. numbers, fields and blocks;
2. local headers;
3. directory headers;
4. the end record.
-/
import FatJar.Zip.Record
import Mathlib.Algebra.Order.Ring.Nat

namespace FatJar.Zip

/-! ## 1. Numbers, fields and blocks -/

@[simp]
theorem length_littleEndian (width n : Nat) : (littleEndian width n).length = width := by
  induction width generalizing n with
  | zero => rfl
  | succ width ih => simp [littleEndian, ih]

theorem ofLittleEndian_littleEndian (width n : Nat) :
    ofLittleEndian (littleEndian width n) = n % 256 ^ width := by
  induction width generalizing n with
  | zero => simp [littleEndian, ofLittleEndian, Nat.mod_one]
  | succ width ih =>
    have hbyte : n.toUInt8.toNat = n % 256 := by simp
    rw [littleEndian, ofLittleEndian, ih, hbyte, Nat.pow_succ', Nat.mod_mul]

/-- Numbers that fit into their widths are read back. -/
theorem fields?_writeFields (fields : List (Nat × Nat)) (rest : Bytes)
    (h : ∀ f ∈ fields, f.2 < 256 ^ f.1) :
    fields? (fields.map (·.1)) (writeFields fields ++ rest) = some (fields.map (·.2), rest) := by
  induction fields with
  | nil => rfl
  | cons f others ih =>
    obtain ⟨width, value⟩ := f
    have hvalue : ofLittleEndian (littleEndian width value) = value := by
      rw [ofLittleEndian_littleEndian, Nat.mod_eq_of_lt (h _ List.mem_cons_self)]
    have hothers := ih fun f hf => h f (List.mem_cons_of_mem _ hf)
    have hbytes : writeFields ((width, value) :: others) ++ rest =
        littleEndian width value ++ (writeFields others ++ rest) := by
      simp [writeFields]
    have htake : (littleEndian width value ++ (writeFields others ++ rest)).take width =
        littleEndian width value := by
      rw [List.take_append_of_le_length (by simp), List.take_of_length_le (by simp)]
    have hdrop : (littleEndian width value ++ (writeFields others ++ rest)).drop width =
        writeFields others ++ rest := by
      rw [List.drop_append_of_le_length (by simp), List.drop_of_length_le (by simp),
        List.nil_append]
    simp [fields?, hbytes, htake, hdrop, hothers, hvalue]

/-- Numbers take all the bytes of their widths. -/
theorem fields?_eq_none {widths : List Nat} {bytes : Bytes} (h : bytes.length < widths.sum) :
    fields? widths bytes = none := by
  induction widths generalizing bytes with
  | nil => cases h
  | cons width widths ih =>
    rw [List.sum_cons] at h
    by_cases hfield : width ≤ bytes.length
    · have hrest : fields? widths (bytes.drop width) = none := by
        apply ih
        rw [List.length_drop]
        omega
      simp [fields?, hrest]
    · have hshort : min width bytes.length ≠ width := by omega
      simp [fields?, hshort]

@[simp]
theorem length_writeFields (fields : List (Nat × Nat)) :
    (writeFields fields).length = (fields.map (·.1)).sum := by
  simp [writeFields, List.length_flatMap]

theorem block?_append (block rest : Bytes) :
    block? block.length (block ++ rest) = some (block, rest) := by
  simp [block?]

/-! ## 2. Local headers -/

namespace Header

/-- Every number of the header fits into its field. -/
structure Fits (h : Header) : Prop where
  maker : h.maker < 256 ^ 2
  flags : h.flags < 256 ^ 2
  method : h.method < 256 ^ 2
  time : h.time < 256 ^ 2
  date : h.date < 256 ^ 2
  crc : h.crc < 256 ^ 4
  compressedSize : h.compressedSize < 256 ^ 4
  size : h.size < 256 ^ 4
  attributes : h.attributes < 256 ^ 4
  offset : h.offset < 256 ^ 4
  rawName : h.rawName.length < 256 ^ 2
  extra : h.extra.length < 256 ^ 2
  rawComment : h.rawComment.length < 256 ^ 2

variable {h : Header}

theorem length_writeLocal : h.writeLocal.length = 30 + h.rawName.length := by
  simp [writeLocal]

theorem localLength?_writeLocal (hfits : h.Fits) (rest : Bytes) :
    localLength? (h.writeLocal ++ rest) = some h.writeLocal.length := by
  have hfields := fields?_writeFields [(4, localSignature), (2, neededVersion), (2, h.flags),
    (2, h.method), (2, h.time), (2, h.date), (4, h.crc), (4, h.compressedSize), (4, h.size),
    (2, h.rawName.length), (2, 0)] (h.rawName ++ rest) (by
      simp only [List.forall_mem_cons]
      exact ⟨by decide, by decide, hfits.flags, hfits.method, hfits.time, hfits.date, hfits.crc,
        hfits.compressedSize, hfits.size, hfits.rawName, by decide, by simp⟩)
  rw [length_writeLocal, localLength?, writeLocal, List.append_assoc]
  simp only [List.map_cons, List.map_nil] at hfields
  simp only [localWidths, hfields]
  simp

/-! ## 3. Directory headers -/

theorem length_write :
    h.write.length = 46 + h.rawName.length + h.extra.length + h.rawComment.length := by
  simp [write]
  omega

theorem read?_write (hfits : h.Fits) (rest : Bytes) : read? (h.write ++ rest) = some (h, rest) := by
  have hfields := fields?_writeFields [(4, signature), (2, h.maker), (2, neededVersion),
    (2, h.flags), (2, h.method), (2, h.time), (2, h.date), (4, h.crc), (4, h.compressedSize),
    (4, h.size), (2, h.rawName.length), (2, h.extra.length), (2, h.rawComment.length), (2, 0),
    (2, 0), (4, h.attributes), (4, h.offset)] (h.rawName ++ (h.extra ++ (h.rawComment ++ rest))) (by
      simp only [List.forall_mem_cons]
      exact ⟨by decide, hfits.maker, by decide, hfits.flags, hfits.method, hfits.time, hfits.date,
        hfits.crc, hfits.compressedSize, hfits.size, hfits.rawName, hfits.extra, hfits.rawComment,
        by decide, by decide, hfits.attributes, hfits.offset, by simp⟩)
  simp only [List.map_cons, List.map_nil] at hfields
  simp [read?, write, widths, hfields, block?_append]

end Header

/-! ## 4. The end record -/

namespace EndRecord

structure Fits (r : EndRecord) : Prop where
  disk : r.disk < 256 ^ 2
  directoryDisk : r.directoryDisk < 256 ^ 2
  membersHere : r.membersHere < 256 ^ 2
  members : r.members < 256 ^ 2
  directorySize : r.directorySize < 256 ^ 4
  directoryOffset : r.directoryOffset < 256 ^ 4
  commentLength : r.commentLength < 256 ^ 2

variable {r : EndRecord}

theorem length_write : r.write.length = 22 := by
  simp [write]

theorem read?_write (hfits : r.Fits) (rest : Bytes) :
    read? (r.write ++ rest) = some (r, rest) := by
  have hfields := fields?_writeFields [(4, signature), (2, r.disk), (2, r.directoryDisk),
    (2, r.membersHere), (2, r.members), (4, r.directorySize), (4, r.directoryOffset),
    (2, r.commentLength)] rest (by
      simp only [List.forall_mem_cons]
      exact ⟨by decide, hfits.disk, hfits.directoryDisk, hfits.membersHere, hfits.members,
        hfits.directorySize, hfits.directoryOffset, hfits.commentLength, by simp⟩)
  simp only [List.map_cons, List.map_nil] at hfields
  simp only [read?, write, widths, hfields]

theorem read?_eq_none {bytes : Bytes} (h : bytes.length < r.write.length) :
    read? bytes = none := by
  have hfields : fields? widths bytes = none := fields?_eq_none (by rwa [length_write] at h)
  rw [read?, hfields]

end EndRecord

end FatJar.Zip
