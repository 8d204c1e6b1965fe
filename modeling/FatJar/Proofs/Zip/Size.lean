/-
FatJar.Proofs.Zip.Size — how long a container can be, from its entries alone.

No word of a code has more than 15 bits and no symbol more than 13 extra ones, so
what a token adds is bounded, and so is what stands in front of a block. There are
at most two tokens and one block for each byte. The bound that follows
(`length_deflate_le`) is far from sharp, but it is linear and needs no
compressing: whether entries fit into a container can be seen from the lengths of
their names and payloads (`Small.fits`).

Contents:
1. bits that are written;
2. words and symbols;
3. the codes in front of a block;
4. blocks;
5. groups of tokens;
6. containers.
-/
import FatJar.Proofs.Zip.Container
import Mathlib.Algebra.Order.BigOperators.Group.List

namespace FatJar.Zip

/-! ## 1. Bits -/

namespace BitWriter

variable {w w₁ w₂ : BitWriter} {m n : Nat}

/-- How many bits have been written. -/
def bitCount (w : BitWriter) : Nat :=
  8 * w.bytes.size + w.count

/-- Unless the first writer holds a whole byte back, neither does the second, and it has at most so
many bits more. -/
def Grows (w : BitWriter) (bits : Nat) (w' : BitWriter) : Prop :=
  w.count < 8 → w'.count < 8 ∧ w'.bitCount ≤ w.bitCount + bits

theorem Grows.trans (h₁ : w.Grows m w₁) (h₂ : w₁.Grows n w₂) : w.Grows (m + n) w₂ := by
  intro hcount
  obtain ⟨hcount₁, hbits₁⟩ := h₁ hcount
  obtain ⟨hcount₂, hbits₂⟩ := h₂ hcount₁
  exact ⟨hcount₂, by omega⟩

theorem Grows.mono (h : w.Grows m w₁) (hle : m ≤ n) : w.Grows n w₁ := by
  intro hcount
  obtain ⟨hcount₁, hbits⟩ := h hcount
  exact ⟨hcount₁, by omega⟩

theorem grows_foldl {α : Type} {step : BitWriter → α → BitWriter} {bits : Nat} {items : List α}
    (h : ∀ a ∈ items, ∀ w : BitWriter, w.Grows bits (step w a)) (w : BitWriter) :
    w.Grows (bits * items.length) (items.foldl step w) := by
  induction items generalizing w with
  | nil => exact fun hcount => ⟨hcount, Nat.le_refl _⟩
  | cons a items ih =>
    have hrest := ih (fun b hb => h b (List.mem_cons_of_mem a hb)) (step w a)
    refine ((h a List.mem_cons_self w).trans hrest).mono ?_
    rw [List.length_cons, Nat.mul_succ, Nat.add_comm]

theorem bitCount_drain (fuel : Nat) (w : BitWriter) : (drain fuel w).bitCount = w.bitCount := by
  induction fuel generalizing w with
  | zero => rfl
  | succ fuel ih =>
    rw [drain]
    split
    · rfl
    · rw [ih]
      simp only [bitCount, Array.size_push]
      omega

theorem count_drain {fuel : Nat} (h : w.count < 8 * (fuel + 1)) : (drain fuel w).count < 8 := by
  induction fuel generalizing w with
  | zero => exact h
  | succ fuel ih =>
    rw [drain]
    split
    · assumption
    · exact ih (by simp only; omega)

theorem grows_put (w : BitWriter) (value width : Nat) : w.Grows width (w.put value width) := by
  intro hcount
  refine ⟨count_drain ?_, ?_⟩
  · show w.count + width < 8 * (width / 8 + 1 + 1)
    omega
  · rw [put, bitCount_drain]
    simp only [bitCount]
    omega

theorem grows_align (w : BitWriter) : w.Grows 8 w.align := by
  rw [align]
  split
  · exact fun hcount => ⟨hcount, Nat.le_add_right _ _⟩
  · exact (w.grows_put 0 (8 - w.count)).mono (Nat.sub_le _ _)

theorem grows_putPlain (bytes : Array UInt8) (w : BitWriter) :
    w.Grows (42 + 8 * bytes.size) (w.putPlain bytes) := by
  intro hcount
  have hhead := (((w.grows_put 0 2).trans (grows_align _)).trans (grows_put _ bytes.size 16)).trans
    (grows_put _ (maxPlainBlock - bytes.size % (maxPlainBlock + 1)) 16)
  obtain ⟨hstarted, hbits⟩ := hhead hcount
  refine ⟨hstarted, ?_⟩
  simp only [putPlain, bitCount, Array.size_append] at hbits ⊢
  omega

end BitWriter

/-! ## 2. Words and symbols -/

/-- No length is greater than that of the longest word. -/
def Bounded (lengths : Array Nat) : Prop :=
  ∀ length ∈ lengths, length ≤ Code.maxLength

theorem length_relieve (counts : List Nat) : (relieve counts).length = counts.length := by
  cases counts with
  | nil => rfl
  | cons longest rest =>
    have hzeros : (rest.takeWhile (· == 0)).length ≤ rest.length :=
      (List.takeWhile_prefix _).length_le
    cases hdrop : rest.drop (rest.takeWhile (· == 0)).length with
    | nil =>
      have hlength := congrArg List.length hdrop
      rw [List.length_drop, List.length_nil] at hlength
      simp only [relieve, hdrop, List.length_cons]
      omega
    | cons count shorter =>
      have hlength := congrArg List.length hdrop
      rw [List.length_drop, List.length_cons] at hlength
      simp only [relieve, hdrop, List.length_append, List.length_dropLast, List.length_cons,
        List.length_nil]
      omega

theorem length_limitedCounts (limit : Nat) (depths : List Nat) :
    (limitedCounts limit depths).length = limit := by
  have hrepeat : ∀ n counts, (repeatStep relieve n counts).length = counts.length := by
    intro n
    induction n with
    | zero => exact fun _ => rfl
    | succ n ih =>
      intro counts
      rw [repeatStep, ih, length_relieve]
  rw [limitedCounts]
  split <;> simp [hrepeat, countsUpTo]

theorem bounded_codeLengths {limit : Nat} (h : limit ≤ Code.maxLength) (counts : Array Nat) :
    Bounded (codeLengths limit counts) := by
  rw [codeLengths]
  refine List.foldlRecOn _ _ ?_ fun found hfound entry hentry length hlength => ?_
  · intro length hlength
    rw [(Array.mem_replicate.mp hlength).2]
    exact Nat.zero_le _
  · rcases Array.mem_or_eq_of_mem_setIfInBounds hlength with hold | rfl
    · exact hfound length hold
    · -- the lengths that are set count the places in a list of `limit` numbers
      obtain ⟨word, hword, hvalue⟩ := List.mem_flatMap.mp (List.of_mem_zip hentry).2
      have hplace := List.snd_lt_of_mem_zipIdx hword
      rw [length_limitedCounts] at hplace
      have hvalue := List.eq_of_mem_replicate hvalue
      omega

theorem length_codeWords {lengths : Array Nat} (h : Bounded lengths) :
    ∀ word ∈ codeWords lengths, word.length ≤ Code.maxLength := by
  rw [codeWords, ← Array.foldl_toList]
  refine List.foldlRecOn
    (motive := fun state : Array Nat × Array Word =>
      ∀ word ∈ state.2, word.length ≤ Code.maxLength)
    _ _ (by simp) fun state hstate length hlength word hword => ?_
  rcases Array.mem_push.mp hword with hold | rfl
  · exact hstate word hold
  · exact h length (Array.mem_toList_iff.mp hlength)

theorem width_symbolFor {table : Array (Nat × Nat)} {most : Nat}
    (h : ∀ entry ∈ table, entry.2 ≤ most) (value : Nat) : (symbolFor table value).width ≤ most := by
  rw [symbolFor, ← Array.foldl_toList]
  refine List.foldlRecOn (motive := fun state : Nat × ExtendedSymbol => state.2.width ≤ most) _ _
    (Nat.zero_le most) fun state hstate entry hentry => ?_
  dsimp only
  split
  · exact h entry (Array.mem_toList_iff.mp hentry)
  · exact hstate

/-- The most extra bits that a symbol has. -/
def maxExtra : Nat := 13

/-- The most bits that are written for a symbol. -/
def symbolBits : Nat := Code.maxLength + maxExtra

theorem BitWriter.grows_putSymbol {words : Array Word} {s : ExtendedSymbol}
    (hwords : ∀ word ∈ words, word.length ≤ Code.maxLength) (hwidth : s.width ≤ maxExtra)
    (w : BitWriter) : w.Grows symbolBits (w.putSymbol words s) := by
  have hword : (words.getD s.symbol ⟨0, 0⟩).length ≤ Code.maxLength := by
    rw [Array.getD]
    split
    · exact hwords _ (Array.getElem_mem _)
    · exact Nat.zero_le _
  exact ((w.grows_put _ _).mono hword).trans ((grows_put _ _ _).mono hwidth)

/-! ## 3. Codes in front of a block -/

theorem sum_portions (limit n : Nat) : (portions limit n).sum = n := by
  have hdivision := Nat.div_add_mod n limit
  rw [portions, List.sum_append, List.sum_replicate_nat, Nat.mul_comm]
  split
  · rename_i hzero
    rw [beq_iff_eq.mp hzero] at hdivision
    exact hdivision
  · simpa using hdivision

theorem length_flatMap_portions {α : Type} {f : Nat → List α} (h : ∀ n, (f n).length ≤ n)
    (limit n : Nat) : ((portions limit n).flatMap f).length ≤ n := by
  have hle := List.sum_le_sum fun k (_ : k ∈ portions limit n) => h k
  rwa [List.map_id', sum_portions, ← List.length_flatMap] at hle

theorem length_runSymbols (run : Nat × Nat) : (runSymbols run).length ≤ run.2 + 1 := by
  have hzeros : ∀ n, (zeroSymbols n).length ≤ n := by
    intro n
    unfold zeroSymbols
    grind
  have hrepeats : ∀ n, (repeatSymbols run.1 n).length ≤ n := by
    intro n
    unfold repeatSymbols
    grind
  rw [runSymbols]
  split
  · exact (length_flatMap_portions hzeros 138 run.2).trans (Nat.le_succ _)
  · have hrest := length_flatMap_portions hrepeats 6 (run.2 - 1)
    rw [List.length_cons]
    omega

/-- There are at most two symbols for each length: a run of its own, and a place in it. -/
theorem length_flatMap_runSymbols (lengths : List Nat) :
    ((runs lengths).flatMap runSymbols).length ≤ 2 * lengths.length := by
  have hruns : ((runs lengths).map fun run => run.2 + 1).sum ≤ 2 * lengths.length := by
    induction lengths with
    | nil => exact Nat.le_refl 0
    | cons n lengths ih =>
      rw [runs]
      split
      · rename_i m count others hrest
        rw [hrest] at ih
        split <;> simp only [List.map_cons, List.sum_cons, List.length_cons] at ih ⊢ <;> omega
      · simp
  rw [List.length_flatMap]
  exact (List.sum_le_sum fun run _ => length_runSymbols run).trans hruns

theorem width_runSymbols {run : Nat × Nat} {s : ExtendedSymbol} (h : s ∈ runSymbols run) :
    s.width ≤ maxExtra := by
  have hzeros : ∀ n, ∀ s ∈ zeroSymbols n, s.width ≤ maxExtra := by
    intro n
    unfold zeroSymbols maxExtra
    grind
  have hrepeats : ∀ n, ∀ s ∈ repeatSymbols run.1 n, s.width ≤ maxExtra := by
    intro n
    unfold repeatSymbols maxExtra
    grind
  rw [runSymbols] at h
  split at h
  · obtain ⟨n, -, hs⟩ := List.mem_flatMap.mp h
    exact hzeros n s hs
  · rcases List.mem_cons.mp h with rfl | h
    · exact Nat.zero_le _
    · obtain ⟨n, -, hs⟩ := List.mem_flatMap.mp h
      exact hrepeats n s hs

theorem writtenCount_le {least most : Nat} (h : least ≤ most) (lengths : Array Nat) :
    writtenCount least most lengths ≤ most := by
  rw [writtenCount]
  refine Nat.max_le.mpr ⟨h, ?_⟩
  cases hlast : ((List.range most).filter fun i => lengths.getD i 0 != 0).getLast? with
  | none => exact Nat.zero_le most
  | some i =>
    have hmem := (List.mem_filter.mp (List.mem_of_getLast? hlast)).1
    exact List.mem_range.mp hmem

namespace BitWriter

/-- The most bits in front of a block: three numbers, the lengths of one code, and two symbols for
each length of the two others. -/
def codeBits : Nat := 14 + 3 * 19 + symbolBits * (2 * (286 + 30))

/-- The lengths of the code for lengths take three bits each. -/
theorem grows_putOwn (own : Array Nat) (count : Nat) (w : BitWriter) :
    w.Grows (3 * 19) (((lengthOrder.map fun symbol => own.getD symbol 0).toArray.extract 0
      count).foldl (fun w length => w.put length 3) w) := by
  rw [← Array.foldl_toList]
  refine (grows_foldl (fun length _ w => grows_put w length 3) w).mono ?_
  rw [Array.length_toList, Array.size_extract, List.size_toArray, List.length_map]
  exact Nat.mul_le_mul_left 3 ((Nat.sub_le _ _).trans (Nat.min_le_right _ _))

theorem grows_putRuns (counts : Array Nat) {lengths : List Nat} (h : lengths.length ≤ 286 + 30)
    (w : BitWriter) :
    w.Grows (symbolBits * (2 * (286 + 30))) (((runs lengths).flatMap runSymbols).foldl
      (fun w s => w.putSymbol (codeWords (codeLengths 7 counts)) s) w) := by
  have hwords := length_codeWords (bounded_codeLengths (by decide : 7 ≤ Code.maxLength) counts)
  refine (grows_foldl (fun s hs w => grows_putSymbol hwords ?_ w) w).mono ?_
  · obtain ⟨run, -, hs⟩ := List.mem_flatMap.mp hs
    exact width_runSymbols hs
  · have hsymbols := length_flatMap_runSymbols lengths
    exact Nat.mul_le_mul_left _ (by omega)

theorem grows_putCodes (literals distances : Array Nat) (w : BitWriter) :
    w.Grows codeBits (w.putCodes literals distances) := by
  have hlengths : (literals.extract 0 (writtenCount 257 286 literals) ++
      distances.extract 0 (writtenCount 1 30 distances)).toList.length ≤ 286 + 30 := by
    have hliteral := writtenCount_le (by decide : 257 ≤ 286) literals
    have hdistance := writtenCount_le (by decide : 1 ≤ 30) distances
    simp only [Array.length_toList, Array.size_append, Array.size_extract]
    omega
  have hnumbers : ∀ a b c, w.Grows 14 (((w.put a 5).put b 5).put c 4) := fun a b c =>
    ((w.grows_put a 5).trans (grows_put _ b 5)).trans (grows_put _ c 4)
  simp only [putCodes]
  exact ((hnumbers _ _ _).trans (grows_putOwn _ _ _)).trans (grows_putRuns _ hlengths _)

/-! ## 4. Blocks -/

theorem grows_putTokens {literals distances : Array Nat} (hliterals : Bounded literals)
    (hdistances : Bounded distances) (tokens : Array Token) (w : BitWriter) :
    w.Grows (2 * symbolBits * tokens.size + symbolBits)
      (w.putTokens literals distances tokens) := by
  have hliteralWords := length_codeWords hliterals
  have hdistanceWords := length_codeWords hdistances
  have hlength : ∀ c, (lengthSymbol c).width ≤ maxExtra := fun c =>
    width_symbolFor (by decide) c.length
  have hdistance : ∀ c, (distanceSymbol c).width ≤ maxExtra := fun c =>
    width_symbolFor (by decide) c.distance
  rw [putTokens, ← Array.foldl_toList, ← Array.length_toList]
  refine (grows_foldl (fun token _ w => ?_) w).trans
    (grows_putSymbol hliteralWords (Nat.zero_le _) _)
  cases token with
  | literal b =>
    refine (grows_putSymbol hliteralWords (Nat.zero_le _) w).mono ?_
    exact Nat.le_mul_of_pos_left _ (by decide)
  | copy c =>
    refine ((grows_putSymbol hliteralWords (hlength c) w).trans
      (grows_putSymbol hdistanceWords (hdistance c) _)).mono ?_
    exact (Nat.two_mul symbolBits).ge

/-- The most bits of a block without tokens. -/
def blockBits : Nat := 60 + codeBits + symbolBits

/-- The most bits of the block for a group. -/
def groupBits (g : TokenGroup) : Nat :=
  blockBits + 2 * symbolBits * g.tokens.size

theorem grows_putPacked (g : TokenGroup) (w : BitWriter) :
    w.Grows (2 + codeBits + symbolBits + 2 * symbolBits * g.tokens.size) (w.putPacked g) := by
  rw [putPacked]
  split
  · have hliterals : Bounded Code.fixedLiteralLengths.toArray := by
      intro length hlength
      simp only [Code.fixedLiteralLengths, List.mem_toArray, List.mem_append,
        List.mem_replicate] at hlength
      simp only [Code.maxLength]
      omega
    have hdistances : Bounded Code.fixedDistanceLengths.toArray := by
      intro length hlength
      simp only [Code.fixedDistanceLengths, List.mem_toArray, List.mem_replicate] at hlength
      simp only [Code.maxLength]
      omega
    refine ((w.grows_put 1 2).trans (grows_putTokens hliterals hdistances g.tokens _)).mono ?_
    omega
  · have hbounded := bounded_codeLengths (Nat.le_refl Code.maxLength)
    refine (((w.grows_put 2 2).trans (grows_putCodes _ _ _)).trans
      (grows_putTokens (hbounded _) (hbounded _) g.tokens _)).mono ?_
    omega

theorem grows_putGroup (data : Array UInt8) (last : Bool) (g : TokenGroup) (w : BitWriter) :
    w.Grows (groupBits g) (w.putGroup data last g) := by
  intro hcount
  obtain ⟨hcount, hbit⟩ := w.grows_put (if last then 1 else 0) 1 hcount
  rw [putGroup]
  generalize w.put (if last then 1 else 0) 1 = w₁ at hcount hbit ⊢
  obtain ⟨hpacked, hpackedBits⟩ := grows_putPacked g w₁ hcount
  split
  · rename_i hplain
    simp only [Bool.and_eq_true, decide_eq_true_eq] at hplain
    obtain ⟨hstarted, hplainBits⟩ :=
      grows_putPlain (data.extract g.start (g.start + g.size)) w₁ hcount
    refine ⟨hstarted, hplainBits.trans ?_⟩
    -- bytes are kept as they are only where packing them takes about as many, and the count of
    -- whole bytes lags behind that of bits by less than a byte
    have hsize : (data.extract g.start (g.start + g.size)).size ≤ g.size := by
      rw [Array.size_extract]
      omega
    simp only [bitCount, groupBits, blockBits] at *
    omega
  · refine ⟨hpacked, ?_⟩
    simp only [groupBits, blockBits]
    omega

theorem grows_putGroups (data : Array UInt8) (groups : List TokenGroup) (w : BitWriter) :
    w.Grows (groups.map groupBits).sum (putGroups data groups w) := by
  fun_induction putGroups data groups w with
  | case1 w => exact fun hcount => ⟨hcount, Nat.le_refl _⟩
  | case2 g w => simpa using grows_putGroup data true g w
  | case3 g rest w _ ih => exact (grows_putGroup data false g w).trans ih

end BitWriter

/-! ## 5. Groups of tokens -/

open BitWriter (groupBits blockBits)

theorem length_tokens_moveAt (data : Array UInt8) (places : Places) (i : Nat)
    (pending : Option Pending) : (moveAt data places i pending).tokens.length ≤ 2 := by
  have hcopy : ∀ before byte c, (Move.forCopy before byte c).tokens.length ≤ before.length + 1 := by
    intro before byte c
    unfold Move.forCopy
    split <;> simp
  cases pending with
  | none =>
    rw [moveAt]
    split
    · simp
    · exact (hcopy _ _ _).trans (by simp)
  | some pending =>
    rw [moveAt]
    split
    · simp
    · exact hcopy _ _ _

theorem size_foldl_push (tokens : List Token) (g : TokenGroup) :
    (tokens.foldl TokenGroup.push g).tokens.size = g.tokens.size + tokens.length := by
  induction tokens generalizing g with
  | nil => rfl
  | cons token tokens ih =>
    rw [List.foldl_cons, ih]
    cases token <;> simp [TokenGroup.push] <;> omega

/-- The most bits that a byte brings, which are those of two tokens and of a block. -/
def byteBits : Nat := blockBits + 4 * symbolBits

theorem groupBits_foldl_push {tokens : List Token} (h : tokens.length ≤ 2) (g : TokenGroup) :
    groupBits (tokens.foldl TokenGroup.push g) ≤ groupBits g + 4 * symbolBits := by
  simp only [groupBits, size_foldl_push, symbolBits, Code.maxLength, maxExtra]
  omega

theorem sum_groupBits_groupsFrom (data : Array UInt8) (fuel i : Nat) (places : Places)
    (pending : Option Pending) (g : TokenGroup) :
    ((groupsFrom data fuel i places pending g).map groupBits).sum ≤
      groupBits g + fuel * byteBits := by
  -- what the tokens of a byte add to the group in hand is paid by that byte, and so is the block
  -- that starts when the group is full
  induction fuel generalizing i places pending g with
  | zero => simp [groupsFrom]
  | succ fuel ih =>
    have hempty : ∀ start, groupBits (.empty start) = blockBits := fun _ => rfl
    rw [groupsFrom, Nat.succ_mul]
    split
    · simp [groupBits]
    · have htokens := length_tokens_moveAt data (places.insert data i) i pending
      have hpushed := groupBits_foldl_push htokens g
      dsimp only
      split
      · rw [List.map_cons, List.sum_cons]
        refine (Nat.add_le_add_left (ih _ _ _ _) _).trans ?_
        rw [hempty]
        simp only [groupBits, byteBits] at hpushed ⊢
        omega
      · refine (ih _ _ _ _).trans ?_
        simp only [byteBits]
        omega

theorem length_packed_le (payload : Bytes) :
    8 * (packed payload).length ≤ byteBits * (payload.length + 2) := by
  have hgroups : ((tokenGroups payload.toArray).map groupBits).sum ≤
      blockBits + (payload.length + 1) * byteBits :=
    sum_groupBits_groupsFrom payload.toArray (payload.length + 1) 0 .empty none (.empty 0)
  have hbits : 8 * (packed payload).length ≤
      ((tokenGroups payload.toArray).map groupBits).sum + 8 := by
    have hgrows := (BitWriter.grows_putGroups payload.toArray (tokenGroups payload.toArray)
      .empty).trans (BitWriter.grows_align _)
    have hwritten := (hgrows (by decide)).2
    have hnothing : BitWriter.empty.bitCount = 0 := rfl
    rw [BitWriter.bitCount, hnothing] at hwritten
    rw [packed, Array.length_toList]
    omega
  have hblock : blockBits + 8 ≤ byteBits := by decide
  have hsplit : byteBits * (payload.length + 2) = (payload.length + 1) * byteBits + byteBits := by
    rw [Nat.mul_comm, Nat.succ_mul]
  omega

theorem length_plainBlocks_le (payload : Bytes) :
    (plainBlocks payload).length ≤ 6 * payload.length + 5 := by
  induction payload using plainBlocks.induct with
  | case1 payload h =>
    rw [plainBlocks, if_pos h]
    simp only [plainBlock, List.cons_append, List.nil_append, List.length_cons]
    omega
  | case2 payload h ih =>
    rw [plainBlocks, if_neg h]
    simp only [List.length_drop, List.length_append, plainBlock, List.length_cons, List.length_nil,
      List.length_take, maxPlainBlock] at ih h ⊢
    omega

/-- **Compressed data is bounded by the payload.** The factor is that of single bytes that all stand
in blocks of their own, so that data is far shorter than this. -/
theorem length_deflate_le (payload : Bytes) :
    8 * (deflate payload).length ≤ byteBits * (payload.length + 2) := by
  unfold deflate
  simp only
  split
  · exact length_packed_le payload
  · have hplain := length_plainBlocks_le payload
    have hbyte : 48 ≤ byteBits := by decide
    calc 8 * (plainBlocks payload).length ≤ 48 * (payload.length + 2) := by omega
      _ ≤ byteBits * (payload.length + 2) := Nat.mul_le_mul_right _ hbyte

/-! ## 6. Containers -/

/-- The most bytes that an entry takes: two headers with its name, and its data. -/
def room (e : Entry) : Nat :=
  76 + 2 * (Text.encode (writtenName e)).length + byteBits * ((writtenPayload e).length + 2)

theorem length_writtenData_le (e : Entry) :
    (writtenData e).length ≤ byteBits * ((writtenPayload e).length + 2) := by
  cases hkind : e.kind with
  | directory => simp [writtenData, hkind]
  | file =>
    have hdata := length_deflate_le e.payload
    simp only [writtenData, writtenPayload, hkind]
    omega

theorem length_layout_le (offset : Nat) (entries : List Entry) :
    (layout offset entries).1.length + (layout offset entries).2.length ≤
      (entries.map room).sum := by
  induction entries generalizing offset with
  | nil => exact Nat.le_refl 0
  | cons e entries ih =>
    have hdata := length_writtenData_le e
    have hrest := ih (offset +
      ((headerOf offset (writtenData e).length e).writeLocal ++ writtenData e).length)
    simp only [layout, List.length_append, Header.length_writeLocal, Header.length_write,
      List.map_cons, List.sum_cons] at hrest ⊢
    simp only [headerOf, room, List.length_nil] at hrest ⊢
    omega

theorem length_containerBytes_le (entries : List Entry) :
    (containerBytes entries).length ≤ (entries.map room).sum + 22 := by
  have hlayout := length_layout_le 0 entries
  simp only [containerBytes, List.length_append, EndRecord.length_write]
  omega

/-- Entries that fit into a container, as the lengths of their names and payloads show. -/
structure Small (entries : List Entry) : Prop where
  names : ∀ e ∈ entries, (Text.encode (writtenName e)).length < 256 ^ 2
  count : entries.length < 256 ^ 2
  bytes : (entries.map room).sum + 22 < 256 ^ 4

instance (entries : List Entry) : Decidable (Small entries) :=
  decidable_of_iff ((∀ e ∈ entries, (Text.encode (writtenName e)).length < 256 ^ 2) ∧
      entries.length < 256 ^ 2 ∧ (entries.map room).sum + 22 < 256 ^ 4)
    ⟨fun ⟨names, count, bytes⟩ => ⟨names, count, bytes⟩,
      fun h => ⟨h.names, h.count, h.bytes⟩⟩

theorem Small.fits {entries : List Entry} (h : Small entries) : Fits entries where
  names := h.names
  payloads := by
    intro e he
    have hbytes := h.bytes
    have hle : room e ≤ (entries.map room).sum := List.le_sum_of_mem (List.mem_map_of_mem he)
    have hpayload : (writtenPayload e).length ≤ byteBits * ((writtenPayload e).length + 2) :=
      (Nat.le_add_right _ 2).trans (Nat.le_mul_of_pos_left _ (by decide))
    rw [room] at hle
    omega
  count := h.count
  bytes := (length_containerBytes_le entries).trans_lt h.bytes

end FatJar.Zip
