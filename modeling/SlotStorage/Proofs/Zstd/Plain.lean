import SlotStorage.Proofs.Words
import SlotStorage.Zstd.Frame

/-!
# Reading back plain frames

A content that was stored in plain blocks is read back, block by block.
-/

namespace SlotStorage.Zstd

/-- What a plain frame announces. -/
def plainHeader : FrameHeader :=
  ⟨maxBlock, none, false⟩

theorem split?_append (front rest : Bytes) :
    split? front.length (front ++ rest) = some (front, rest) := by
  unfold split?
  rw [List.take_left, List.drop_left]
  exact if_pos rfl

theorem number?_littleEndian {count value : Nat} (small : value < 256 ^ count)
    (rest : Bytes) :
    number? count (Bytes.littleEndian count value ++ rest) =
      some (value, rest) := by
  have cut := split?_append (Bytes.littleEndian count value) rest
  rw [Bytes.length_littleEndian] at cut
  rw [number?, cut]
  change some (Bytes.ofLittleEndian (Bytes.littleEndian count value), rest) = _
  rw [Bytes.ofLittleEndian_littleEndian small]

theorem read?_plainHeader (rest : Bytes) :
    FrameHeader.read? (0x00 :: 0x38 :: rest) =
      some (plainHeader, rest) := by
  have descriptor : number? 1 (0x00 :: 0x38 :: rest) =
      some (0, 0x38 :: rest) :=
    number?_littleEndian (show 0 < 256 ^ 1 by decide) (0x38 :: rest)
  have window : number? 1 (0x38 :: rest) = some (0x38, rest) :=
    number?_littleEndian (show 0x38 < 256 ^ 1 by decide) rest
  have dictionary : number? 0 rest = some (0, rest) :=
    number?_littleEndian (show 0 < 256 ^ 0 by decide) rest
  have width : FrameHeader.windowOf? 0x38 = some maxBlock := by decide
  unfold FrameHeader.read?
  simp only [Option.bind_eq_bind, Option.bind_some, descriptor]
  simp only [FrameHeader.dictionaryBytes, FrameHeader.readSize?,
    Nat.reduceDiv, Nat.reduceMod, Nat.zero_ne_one, if_false, decide_false,
    Bool.false_eq_true, Option.bind_some, window, dictionary, width]
  rw [if_neg (by decide)]
  rfl

/-- A plain block is added to the output. -/
theorem block?_plain (state : FrameState) (content rest : Bytes)
    (isLast : Bool) (small : content.length ≤ maxBlock) :
    state.block? plainHeader
        (plainBlockHeader content.length isLast ++ content ++ rest) =
      some (isLast, { state with
        output := state.output ++ content
        atEmpty := content.length = 0 }, rest) := by
  have bound : content.length ≤ 131072 := small
  have mark : (8 * content.length + if isLast then 1 else 0) < 256 ^ 3 := by
    cases isLast <;> simp only [if_true, if_false, Bool.false_eq_true] <;>
      omega
  have size : (8 * content.length + if isLast then 1 else 0) / 8 =
      content.length := by
    cases isLast <;> simp only [if_true, if_false, Bool.false_eq_true] <;>
      omega
  have kind : (8 * content.length + if isLast then 1 else 0) / 2 % 4 = 0 := by
    cases isLast <;> simp only [if_true, if_false, Bool.false_eq_true] <;>
      omega
  have last : decide ((8 * content.length + if isLast then 1 else 0) % 2 = 1) =
      isLast := by
    cases isLast <;> simp only [if_true, if_false, Bool.false_eq_true,
      decide_eq_true_eq, decide_eq_false_iff_not] <;> omega
  have room : ¬ plainHeader.growthLimit < content.length := by
    change ¬ 131072 < content.length
    omega
  unfold FrameState.block?
  rw [plainBlockHeader, List.append_assoc, number?_littleEndian mark]
  simp only [Option.bind_eq_bind, Option.bind_some, size, kind,
    split?_append, if_neg room, last]

theorem toList_appendBytes (output : Array UInt8) (content : Bytes) :
    (output ++ content).toList = output.toList ++ content := by
  simp

/-- All plain blocks are read, and their contents follow each other. -/
theorem blocks?_plain {count : Nat} {content : Bytes}
    (exact : content.length / maxBlock = count) (state : FrameState)
    {fuel : Nat} (enough : count < fuel) :
    ∃ later, FrameState.blocks? plainHeader fuel state
        (plainBlocks count content) = some (later, []) ∧
      later.output.toList = state.output.toList ++ content := by
  have positive : 0 < maxBlock := by decide
  induction count generalizing content state fuel with
  | zero =>
      obtain ⟨fuel, rfl⟩ := Nat.exists_eq_succ_of_ne_zero
        (Nat.ne_of_gt enough)
      have small : content.length ≤ maxBlock := by
        have := Nat.lt_of_div_eq_zero positive exact
        omega
      have read := block?_plain state content [] true small
      rw [List.append_nil] at read
      refine ⟨{ state with
        output := state.output ++ content
        atEmpty := content.length = 0 }, ?_,
        toList_appendBytes state.output content⟩
      rw [plainBlocks, FrameState.blocks?, read]
      rfl
  | succ count induction =>
      obtain ⟨fuel, rfl⟩ := Nat.exists_eq_succ_of_ne_zero
        (Nat.ne_of_gt (Nat.lt_of_le_of_lt (Nat.zero_le _) enough))
      have full : maxBlock ≤ content.length := by
        apply Nat.le_of_not_lt
        intro short
        rw [Nat.div_eq_of_lt short] at exact
        exact absurd exact (Nat.succ_ne_zero count).symm
      have length : (content.take maxBlock).length = maxBlock := by
        rw [List.length_take]
        omega
      have others : (content.drop maxBlock).length / maxBlock = count := by
        rw [Nat.div_eq_sub_div positive full] at exact
        rw [List.length_drop]
        exact Nat.succ.inj exact
      have read := block?_plain state (content.take maxBlock)
        (plainBlocks count (content.drop maxBlock)) false
        (Nat.le_of_eq length)
      obtain ⟨later, reads, output⟩ := induction others
        { state with
          output := state.output ++ content.take maxBlock
          atEmpty := (content.take maxBlock).length = 0 }
        (show count < fuel by omega)
      refine ⟨later, ?_, ?_⟩
      · rw [length] at read reads
        rw [plainBlocks, FrameState.blocks?, read]
        exact reads
      · rw [output, toList_appendBytes, List.append_assoc,
          List.take_append_drop]

theorem length_plainBlocks (count : Nat) (content : Bytes) :
    count < (plainBlocks count content).length := by
  induction count generalizing content with
  | zero =>
      rw [plainBlocks, List.length_append, plainBlockHeader,
        Bytes.length_littleEndian]
      omega
  | succ count induction =>
      have others := induction (content.drop maxBlock)
      rw [plainBlocks, List.length_append, List.length_append,
        plainBlockHeader, Bytes.length_littleEndian]
      omega

theorem frame?_plain (content : Bytes) :
    frame? (0x00 :: 0x38 :: plainBlocks (content.length / maxBlock) content) =
      some (content, []) := by
  obtain ⟨state, blocks, output⟩ := blocks?_plain (Eq.refl _) .initial
    (Nat.lt_succ_of_lt (length_plainBlocks (content.length / maxBlock)
      content))
  have whole : state.output.toList = content := output
  unfold frame?
  simp only [read?_plainHeader, Option.bind_eq_bind, Option.bind_some,
    blocks, whole]
  rfl

/-- Reading gives back what was stored. -/
theorem decompress?_compress (content : Bytes) :
    decompress? (compress content) = some content := by
  have written : compress content = Bytes.littleEndian 4 frameMark ++
      (0x00 :: 0x38 :: plainBlocks (content.length / maxBlock) content) := by
    rw [compress, List.append_assoc]
    rfl
  have mark : number? 4 (compress content) = some (frameMark,
      0x00 :: 0x38 :: plainBlocks (content.length / maxBlock) content) := by
    rw [written]
    exact number?_littleEndian (by decide) _
  have frames : ∀ fuel, frames? (fuel + 1) (compress content) =
      some content := by
    intro fuel
    obtain ⟨first, rest, cons⟩ : ∃ first rest,
        compress content = first :: rest := ⟨_, _, written⟩
    rw [cons] at mark ⊢
    simp only [frames?, mark, Option.bind_eq_bind, Option.bind_some, if_true,
      frame?_plain]
    simp
  obtain ⟨fuel, length⟩ : ∃ fuel, (compress content).length = fuel + 1 := by
    rw [written]
    exact ⟨_, rfl⟩
  rw [decompress?, if_neg (by rw [written]; exact Bool.false_ne_true),
    length]
  exact frames fuel

end SlotStorage.Zstd
