import SlotStorage.Record.Binary
import SlotStorage.Proofs.Utf8

/-!
# Reading back records in the binary format

A format reads a value back when reading what was written gives the value and
leaves the bytes after it.  This passes from the parts of a record to the
record, as long as every length fits in 64 bits.
-/

namespace SlotStorage

/-- The lists and texts of the metadata have lengths of 64 bits. -/
structure Metadata.Encodable (record : Metadata) : Prop where
  strings : record.stringAnnotations.length < Word.countBound
  numbers : record.numericAnnotations.length < Word.countBound
  stringTexts : ∀ entry ∈ record.stringAnnotations,
    (Utf8.ofString entry.key).length < Word.countBound ∧
      (Utf8.ofString entry.value).length < Word.countBound
  numberTexts : ∀ entry ∈ record.numericAnnotations,
    (Utf8.ofString entry.key).length < Word.countBound

theorem Metadata.encodable_iff {record : Metadata} :
    record.Encodable ↔
      (record.stringAnnotations.length < Word.countBound ∧
        record.numericAnnotations.length < Word.countBound) ∧
      (∀ entry ∈ record.stringAnnotations,
        (Utf8.ofString entry.key).length < Word.countBound ∧
          (Utf8.ofString entry.value).length < Word.countBound) ∧
      ∀ entry ∈ record.numericAnnotations,
        (Utf8.ofString entry.key).length < Word.countBound :=
  ⟨fun all => ⟨⟨all.strings, all.numbers⟩, all.stringTexts, all.numberTexts⟩,
    fun ⟨⟨strings, numbers⟩, stringTexts, numberTexts⟩ =>
      ⟨strings, numbers, stringTexts, numberTexts⟩⟩

instance (record : Metadata) : Decidable record.Encodable :=
  decidable_of_iff _ Metadata.encodable_iff.symm

namespace BinaryFormat

variable {α β : Type}

/-- A reader takes the given bytes off the front and gives the value. -/
def Takes (reader : BinaryReader α) (front : Bytes) (value : α) : Prop :=
  ∀ rest, reader.run (front ++ rest) = .ok (value, rest)

/-- What the format writes for a value is read as the value. -/
def ReadsBack (format : BinaryFormat α) (value : α) : Prop :=
  Takes format.read (format.write value) value

theorem Takes.pure (value : α) : Takes (Pure.pure value) [] value :=
  fun _ => rfl

theorem Takes.bind {reader : BinaryReader α} {next : α → BinaryReader β}
    {front others : Bytes} {value : α} {result : β}
    (first : Takes reader front value)
    (second : Takes (next value) others result) :
    Takes (reader >>= next) (front ++ others) result := by
  intro rest
  have run : reader.run (front ++ (others ++ rest)) =
      .ok (value, others ++ rest) := first (others ++ rest)
  rw [StateT.run_bind, List.append_assoc, run]
  exact second rest

/-- A last step that takes nothing off. -/
theorem Takes.map {reader : BinaryReader α} {next : α → BinaryReader β}
    {front : Bytes} {value : α} {result : β}
    (first : Takes reader front value)
    (second : Takes (next value) [] result) :
    Takes (reader >>= next) front result := by
  have both := first.bind second
  rwa [List.append_nil] at both

theorem takes_bytes (error : BinaryError) (front : Bytes) :
    Takes (takeBytes error front.length) front front := by
  intro rest
  have enough : front.length ≤ (front ++ rest).length := by simp
  change takeBytes error front.length (front ++ rest) = _
  unfold takeBytes
  rw [if_pos enough, List.take_left, List.drop_left]

theorem takes_number {number : Nat} (small : number < Word.countBound) :
    Takes readNumber (writeNumber number) number := by
  have bytes := takes_bytes .endOfInput (writeNumber number)
  rw [writeNumber, Bytes.length_littleEndian] at bytes
  apply bytes.map
  rw [Bytes.ofLittleEndian_littleEndian (by exact small)]
  exact .pure number

theorem takes_body {body : Bytes} (small : body.length < Word.countBound) :
    Takes readBody (writeNumber body.length ++ body) body :=
  (takes_number small).bind (takes_bytes .shortBody body)

theorem uint64_readsBack (number : UInt64) : uint64.ReadsBack number := by
  apply (takes_number number.toNat_lt).map
  rw [UInt64.ofNat_toNat]
  exact .pure number

theorem string_readsBack {text : String}
    (small : (Utf8.ofString text).length < Word.countBound) :
    string.ReadsBack text := by
  apply (takes_body small).map
  rw [Utf8.toString?_ofString]
  exact .pure text

theorem octets_readsBack {width : Nat} (small : width < Word.countBound)
    (number : Octets width) : (octets width).ReadsBack number := by
  have length : number.toBytes.length = width := Octets.length_toBytes number
  have body : Takes readBody (writeNumber number.toBytes.length ++
      number.toBytes) number.toBytes := takes_body (by rwa [length])
  rw [length] at body
  apply body.map
  rw [Octets.ofBytes?_toBytes]
  exact .pure number

theorem keyed_readsBack {format : BinaryFormat α} {entry : Keyed α}
    (small : (Utf8.ofString entry.key).length < Word.countBound)
    (value : format.ReadsBack entry.value) :
    (keyed format).ReadsBack entry :=
  (string_readsBack small).bind (value.map (.pure entry))

theorem takes_many {format : BinaryFormat α} {values : List α}
    (each : ∀ value ∈ values, format.ReadsBack value) :
    Takes (readMany format values.length) (values.flatMap format.write)
      values := by
  induction values with
  | nil => exact .pure []
  | cons value values induction =>
      have first : format.ReadsBack value := each value List.mem_cons_self
      have others := induction fun other member =>
        each other (List.mem_cons_of_mem value member)
      exact first.bind (others.map (.pure (value :: values)))

theorem list_readsBack {format : BinaryFormat α} {values : List α}
    (small : values.length < Word.countBound)
    (each : ∀ value ∈ values, format.ReadsBack value) :
    (list format).ReadsBack values :=
  (takes_number small).bind (takes_many each)

/-- Records without their owner, which comes last. -/
def unowned : BinaryFormat Metadata where
  write record :=
    uint64.write record.expiresAt
      ++ (list (keyed string)).write record.stringAnnotations
      ++ (list (keyed uint64)).write record.numericAnnotations
  read := do
    let expiresAt ← uint64.read
    let stringAnnotations ← (list (keyed string)).read
    let numericAnnotations ← (list (keyed uint64)).read
    return ⟨expiresAt, stringAnnotations, numericAnnotations, 0⟩

theorem metadata_write_eq (record : Metadata) :
    metadata.write record =
      unowned.write record ++ (octets 20).write record.owner :=
  rfl

theorem metadata_read_eq :
    metadata.read = do
      let record ← unowned.read
      let owner ← (octets 20).read
      return { record with owner := owner } := by
  simp only [metadata, unowned, bind_assoc, pure_bind]

theorem unowned_takes {record : Metadata} (encodable : record.Encodable) :
    Takes unowned.read (unowned.write record) { record with owner := 0 } := by
  have strings : (list (keyed string)).ReadsBack record.stringAnnotations := by
    apply list_readsBack encodable.strings
    intro entry member
    obtain ⟨key, value⟩ := encodable.stringTexts entry member
    exact keyed_readsBack key (string_readsBack value)
  have numbers : (list (keyed uint64)).ReadsBack
      record.numericAnnotations := by
    apply list_readsBack encodable.numbers
    intro entry member
    exact keyed_readsBack (encodable.numberTexts entry member)
      (uint64_readsBack entry.value)
  unfold unowned
  simp only [List.append_assoc]
  apply (uint64_readsBack record.expiresAt).bind
  apply strings.bind
  apply numbers.map
  exact .pure { record with owner := 0 }

theorem metadata_readsBack {record : Metadata} (encodable : record.Encodable) :
    metadata.ReadsBack record := by
  have owner : (octets 20).ReadsBack record.owner :=
    octets_readsBack (by decide) record.owner
  unfold ReadsBack
  rw [metadata_read_eq, metadata_write_eq]
  apply (unowned_takes encodable).bind
  apply owner.map
  exact .pure record

/-- What was written is decoded, whatever comes after it. -/
theorem ReadsBack.decode {format : BinaryFormat α} {value : α}
    (reads : format.ReadsBack value) (rest : Bytes) :
    format.decode (format.write value ++ rest) = .ok value := by
  rw [BinaryFormat.decode, reads rest]
  rfl

end BinaryFormat

end SlotStorage
