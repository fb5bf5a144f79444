import SlotStorage.Proofs.Record.Binary
import SlotStorage.Record.Store

/-!
# The binary format is exact

A format is exact when reading accepts nothing but what writing produces: the
bytes that were taken off the front are those that are written for the value.
This passes from the parts of a record to the record, like reading back does.
Together they make the format of records prefix-free: no record is written as
the beginning of another one, so a record that is cut short cannot be read.
-/

namespace SlotStorage

namespace BinaryFormat

variable {α β : Type}

/-- Every value that is read is valid, and the bytes start with what is
written for it. -/
def Exact (format : BinaryFormat α) (valid : α → Prop) : Prop :=
  ∀ bytes value rest, format.read.run bytes = .ok (value, rest) →
    valid value ∧ bytes = format.write value ++ rest

/-- A reading in two steps succeeds if both steps do. -/
theorem run_bind_eq_ok {reader : BinaryReader α}
    {next : α → BinaryReader β} {bytes rest : Bytes} {result : β}
    (run : (reader >>= next).run bytes = .ok (result, rest)) :
    ∃ value between, reader.run bytes = .ok (value, between) ∧
      (next value).run between = .ok (result, rest) := by
  rw [StateT.run_bind] at run
  cases first : reader.run bytes with
  | error error =>
      rw [first] at run
      cases run
  | ok found =>
      rw [first] at run
      exact ⟨found.1, found.2, rfl, run⟩

theorem run_pure_eq_ok {value result : α} {bytes rest : Bytes}
    (run : (pure value : BinaryReader α).run bytes = .ok (result, rest)) :
    value = result ∧ bytes = rest :=
  Prod.mk.inj (Except.ok.inj run)

/-! ## Parts of a record -/

theorem run_takeBytes_eq_ok {error : BinaryError} {count : Nat}
    {bytes front rest : Bytes}
    (run : (takeBytes error count).run bytes = .ok (front, rest)) :
    front.length = count ∧ bytes = front ++ rest := by
  change takeBytes error count bytes = _ at run
  unfold takeBytes at run
  by_cases enough : count ≤ bytes.length
  · rw [if_pos enough] at run
    obtain ⟨rfl, rfl⟩ := Prod.mk.inj (Except.ok.inj run)
    exact ⟨List.length_take_of_le enough, (List.take_append_drop _ _).symm⟩
  · rw [if_neg enough] at run
    cases run

theorem run_readNumber_eq_ok {bytes rest : Bytes} {number : Nat}
    (run : readNumber.run bytes = .ok (number, rest)) :
    number < Word.countBound ∧ bytes = writeNumber number ++ rest := by
  obtain ⟨front, between, taken, last⟩ := run_bind_eq_ok run
  obtain ⟨length, rfl⟩ := run_takeBytes_eq_ok taken
  obtain ⟨rfl, rfl⟩ := run_pure_eq_ok last
  have small := Bytes.ofLittleEndian_lt front
  have written := Bytes.littleEndian_ofLittleEndian front
  rw [length] at small written
  refine ⟨small, ?_⟩
  rw [writeNumber, written]

theorem run_readBody_eq_ok {bytes body rest : Bytes}
    (run : readBody.run bytes = .ok (body, rest)) :
    body.length < Word.countBound ∧
      bytes = writeNumber body.length ++ body ++ rest := by
  obtain ⟨count, between, counted, last⟩ := run_bind_eq_ok run
  obtain ⟨small, rfl⟩ := run_readNumber_eq_ok counted
  obtain ⟨rfl, rfl⟩ := run_takeBytes_eq_ok last
  exact ⟨small, (List.append_assoc _ _ _).symm⟩

theorem uint64_exact : uint64.Exact fun _ => True := by
  intro bytes number rest run
  obtain ⟨value, between, counted, last⟩ := run_bind_eq_ok run
  obtain ⟨small, rfl⟩ := run_readNumber_eq_ok counted
  obtain ⟨rfl, rfl⟩ := run_pure_eq_ok last
  refine ⟨trivial, ?_⟩
  change _ = writeNumber (UInt64.ofNat value).toNat ++ between
  rw [UInt64.toNat_ofNat_of_lt' small]

theorem string_exact : string.Exact fun text =>
    (Utf8.ofString text).length < Word.countBound := by
  intro bytes text rest run
  obtain ⟨body, between, read, last⟩ := run_bind_eq_ok run
  obtain ⟨small, rfl⟩ := run_readBody_eq_ok read
  cases spelled : Utf8.toString? body with
  | error cause =>
      rw [spelled] at last
      cases last
  | ok found =>
      rw [spelled] at last
      obtain ⟨rfl, rfl⟩ := run_pure_eq_ok last
      have spelling := Utf8.ofString_of_toString? spelled
      change (Utf8.ofString found).length < _ ∧
        _ = writeNumber (Utf8.ofString found).length ++
          Utf8.ofString found ++ between
      rw [spelling]
      exact ⟨small, rfl⟩

theorem octets_exact (width : Nat) :
    (octets width).Exact fun _ => width < Word.countBound := by
  intro bytes number rest run
  obtain ⟨body, between, read, last⟩ := run_bind_eq_ok run
  obtain ⟨small, rfl⟩ := run_readBody_eq_ok read
  by_cases length : body.length = width
  · rw [Octets.ofBytes?, if_pos length] at last
    obtain ⟨rfl, rfl⟩ := run_pure_eq_ok last
    refine ⟨by rwa [← length], ?_⟩
    change _ = writeNumber width ++ (Octets.ofBytes width body).toBytes ++
      between
    rw [Octets.toBytes_ofBytes length, length]
  · rw [Octets.ofBytes?, if_neg length] at last
    cases last

theorem keyed_exact {format : BinaryFormat α} {valid : α → Prop}
    (exact : format.Exact valid) :
    (keyed format).Exact fun entry =>
      (Utf8.ofString entry.key).length < Word.countBound ∧
        valid entry.value := by
  intro bytes entry rest run
  obtain ⟨key, afterKey, keyRead, run⟩ := run_bind_eq_ok run
  obtain ⟨value, afterValue, valueRead, last⟩ := run_bind_eq_ok run
  obtain ⟨rfl, rfl⟩ := run_pure_eq_ok last
  obtain ⟨keySmall, rfl⟩ := string_exact _ _ _ keyRead
  obtain ⟨valueValid, rfl⟩ := exact _ _ _ valueRead
  exact ⟨⟨keySmall, valueValid⟩, (List.append_assoc _ _ _).symm⟩

theorem run_readMany_eq_ok {format : BinaryFormat α} {valid : α → Prop}
    (exact : format.Exact valid) {count : Nat} {bytes rest : Bytes}
    {values : List α}
    (run : (readMany format count).run bytes = .ok (values, rest)) :
    values.length = count ∧ (∀ value ∈ values, valid value) ∧
      bytes = values.flatMap format.write ++ rest := by
  induction count generalizing bytes values with
  | zero =>
      obtain ⟨rfl, rfl⟩ := run_pure_eq_ok run
      exact ⟨rfl, fun _ member => absurd member List.not_mem_nil, rfl⟩
  | succ count induction =>
      obtain ⟨value, between, first, run⟩ := run_bind_eq_ok run
      obtain ⟨others, after, later, last⟩ := run_bind_eq_ok run
      obtain ⟨rfl, rfl⟩ := run_pure_eq_ok last
      obtain ⟨valueValid, rfl⟩ := exact _ _ _ first
      obtain ⟨length, othersValid, rfl⟩ := induction later
      refine ⟨congrArg (· + 1) length, ?_, ?_⟩
      · exact List.forall_mem_cons.mpr ⟨valueValid, othersValid⟩
      · rw [List.flatMap_cons, List.append_assoc]

theorem list_exact {format : BinaryFormat α} {valid : α → Prop}
    (exact : format.Exact valid) :
    (list format).Exact fun values =>
      values.length < Word.countBound ∧ ∀ value ∈ values, valid value := by
  intro bytes values rest run
  obtain ⟨count, between, counted, last⟩ := run_bind_eq_ok run
  obtain ⟨small, rfl⟩ := run_readNumber_eq_ok counted
  obtain ⟨rfl, valuesValid, rfl⟩ := run_readMany_eq_ok exact last
  exact ⟨⟨small, valuesValid⟩, (List.append_assoc _ _ _).symm⟩

/-! ## Records -/

theorem unowned_exact : unowned.Exact fun record =>
    record.Encodable ∧ record.owner = 0 := by
  intro bytes record rest run
  obtain ⟨expiresAt, between, expiryRead, run⟩ := run_bind_eq_ok run
  obtain ⟨strings, later, stringsRead, run⟩ := run_bind_eq_ok run
  obtain ⟨numbers, after, numbersRead, last⟩ := run_bind_eq_ok run
  obtain ⟨rfl, rfl⟩ := run_pure_eq_ok last
  obtain ⟨-, rfl⟩ := uint64_exact _ _ _ expiryRead
  obtain ⟨⟨stringsSmall, stringTexts⟩, rfl⟩ :=
    list_exact (keyed_exact string_exact) _ _ _ stringsRead
  obtain ⟨⟨numbersSmall, numberTexts⟩, rfl⟩ :=
    list_exact (keyed_exact uint64_exact) _ _ _ numbersRead
  refine ⟨⟨⟨stringsSmall, numbersSmall, stringTexts, ?_⟩, rfl⟩, ?_⟩
  · exact fun entry member => (numberTexts entry member).1
  · simp only [unowned, List.append_assoc]

theorem metadata_exact : metadata.Exact Metadata.Encodable := by
  intro bytes record rest run
  rw [metadata_read_eq] at run
  obtain ⟨fields, between, fieldsRead, run⟩ := run_bind_eq_ok run
  obtain ⟨owner, after, ownerRead, last⟩ := run_bind_eq_ok run
  obtain ⟨rfl, rfl⟩ := run_pure_eq_ok last
  obtain ⟨⟨encodable, -⟩, rfl⟩ := unowned_exact _ _ _ fieldsRead
  obtain ⟨-, rfl⟩ := octets_exact 20 _ _ _ ownerRead
  refine ⟨⟨encodable.strings, encodable.numbers, encodable.stringTexts,
    encodable.numberTexts⟩, ?_⟩
  exact (List.append_assoc _ _ _).symm

theorem decode_eq_ok_iff {format : BinaryFormat α} {bytes : Bytes}
    {value : α} :
    format.decode bytes = .ok value ↔
      ∃ rest, format.read.run bytes = .ok (value, rest) := by
  unfold decode
  cases run : format.read.run bytes with
  | error cause =>
      constructor
      · intro decoded
        cases decoded
      · rintro ⟨rest, read⟩
        cases read
  | ok found =>
      constructor
      · intro decoded
        cases decoded
        exact ⟨found.2, rfl⟩
      · rintro ⟨rest, read⟩
        cases read
        rfl

/-- Exactly the byte strings that start with what is written for a record are
decoded to it. -/
theorem metadata_decode_eq_ok_iff {bytes : Bytes} {record : Metadata} :
    metadata.decode bytes = .ok record ↔
      record.Encodable ∧ metadata.write record <+: bytes := by
  constructor
  · intro decoded
    obtain ⟨rest, read⟩ := decode_eq_ok_iff.mp decoded
    obtain ⟨encodable, rfl⟩ := metadata_exact _ _ _ read
    exact ⟨encodable, List.prefix_append _ _⟩
  · rintro ⟨encodable, rest, rfl⟩
    exact (metadata_readsBack encodable).decode rest

theorem eq_of_metadata_prefix {left right : Metadata}
    (leftEncodable : left.Encodable) (rightEncodable : right.Encodable)
    (within : metadata.write left <+: metadata.write right) :
    left = right := by
  have leftRead : metadata.decode (metadata.write right) = .ok left :=
    metadata_decode_eq_ok_iff.mpr ⟨leftEncodable, within⟩
  have rightRead : metadata.decode (metadata.write right) = .ok right :=
    metadata_decode_eq_ok_iff.mpr ⟨rightEncodable, List.prefix_refl _⟩
  rw [leftRead] at rightRead
  exact Except.ok.inj rightRead

/-- A record that is cut short cannot be read. -/
theorem decode_cut {record : Metadata} (encodable : record.Encodable)
    {front : Bytes} (within : front <+: metadata.write record)
    (cut : front ≠ metadata.write record) :
    ∃ cause, metadata.decode front = .error cause := by
  cases decoded : metadata.decode front with
  | error cause => exact ⟨cause, rfl⟩
  | ok found =>
      obtain ⟨foundEncodable, written⟩ := metadata_decode_eq_ok_iff.mp decoded
      have same := eq_of_metadata_prefix foundEncodable encodable
        (written.trans within)
      rw [same] at written
      exact absurd (within.eq_of_length_le written.length_le) cut

end BinaryFormat

/-- The format of records is exact and prefix-free.  A byte string is decoded
to a record whose lengths fit in 64 bits if and only if it starts with what is
written for the record.  No record is written as the beginning of another one.
What is cut short is refused, and a frame with such a payload is reported as
one that cannot be deserialized. -/
theorem BinaryFormat.metadata_prefix_free [Compression] :
    (∀ bytes record, metadata.decode bytes = .ok record ↔
      record.Encodable ∧ metadata.write record <+: bytes) ∧
    (∀ left right : Metadata, left.Encodable → right.Encodable →
      metadata.write left <+: metadata.write right → left = right) ∧
    (∀ (record : Metadata) front, record.Encodable →
      front <+: metadata.write record → front ≠ metadata.write record →
        ∃ cause, metadata.decode front = .error cause ∧
          ∀ frame, RecordCodec.decode frame = .ok front →
            RecordStore.decodeFrame metadata frame =
              .error (.binary cause)) := by
  refine ⟨fun _ _ => metadata_decode_eq_ok_iff,
    fun _ _ => eq_of_metadata_prefix, ?_⟩
  intro record front encodable within cut
  obtain ⟨cause, refused⟩ := decode_cut encodable within cut
  refine ⟨cause, refused, ?_⟩
  intro frame payload
  cases frame with
  | nil => cases payload
  | cons tag body =>
      unfold RecordStore.decodeFrame
      rw [List.isEmpty_cons, if_neg Bool.false_ne_true]
      simp only [payload, bind, Except.bind, refused]

/-- A record with a repeated key, texts of every sequence length and the
largest number, with bytes after it and without its last byte. -/
theorem BinaryFormat.metadata_prefix_free_unicode :
    letI := Compression.plain
    let record : Metadata :=
      ⟨9, [⟨"é", "値😀"⟩, ⟨"é", ""⟩], [⟨"n", 18446744073709551615⟩], 7⟩
    let front := (metadata.write record).dropLast
    record.Encodable ∧
    metadata.decode (metadata.write record ++ [1, 2]) = .ok record ∧
    front <+: metadata.write record ∧ front ≠ metadata.write record ∧
    ∃ cause, metadata.decode front = .error cause ∧
      ∀ frame, RecordCodec.decode frame = .ok front →
        RecordStore.decodeFrame metadata frame = .error (.binary cause) := by
  intro record front
  have encodable : record.Encodable := by decide +kernel
  have within : front <+: metadata.write record := List.dropLast_prefix _
  have cut : front ≠ metadata.write record := by decide +kernel
  obtain ⟨decodes, -, refuses⟩ := @metadata_prefix_free Compression.plain
  exact ⟨encodable, (decodes _ record).mpr
    ⟨encodable, List.prefix_append _ _⟩, within, cut,
    refuses record front encodable within cut⟩

end SlotStorage
