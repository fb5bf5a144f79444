import Mathlib.Tactic.SplitIfs
import SlotStorage.Json.Reader
import SlotStorage.Json.Writer
import SlotStorage.Proofs.Text.Decimal
import SlotStorage.Proofs.Text.Hex
import SlotStorage.Proofs.Text.Reading

/-!
# Reading back JSON

What is written for a value is read as the value, whatever follows it that is
no digit.  This holds of texts, numbers and names, and it passes to arrays
from their items and to objects from their members.  No blanks are written, so
none are passed over.
-/

namespace SlotStorage.Json

open Reader

variable {α β σ : Type}

/-! ## Marks -/

section Marks

variable {char : Char} (solid : isBlank char = false) (rest : List Char)

include solid

theorem reads_blanks : Reads blanks (char :: rest) () (char :: rest) :=
  reads_skipWhile_none (ends_cons solid rest)

theorem reads_mark : Reads (mark char) (char :: rest) () rest :=
  (reads_blanks solid rest).bind (reads_expect char rest)

theorem reads_ahead :
    Reads ahead (char :: rest) (some char) (char :: rest) :=
  (reads_blanks solid rest).bind (reads_peek char rest)

end Marks

/-- The text starts like a value: with no blank and nothing that closes. -/
def Opens (front : List Char) : Prop :=
  ∃ first others, front = first :: others ∧ isBlank first = false ∧
    first ≠ ']' ∧ first ≠ '\x7d'

/-- The reader takes what is written for a value off the front of any text in
which a number may end there. -/
structure ReadsBack (reader : Reader α) (front : List Char) (value : α) :
    Prop where
  opens : Opens front
  reads : ∀ rest, Ends Char.isDigit rest →
    Reads reader (front ++ rest) value rest

/-- A last step that takes nothing off. -/
theorem ReadsBack.map {reader : Reader α} {next : α → Reader β}
    {front : List Char} {value : α} {result : β}
    (first : ReadsBack reader front value)
    (second : ∀ rest, Reads (next value) rest result rest) :
    ReadsBack (reader >>= next) front result :=
  ⟨first.opens, fun rest ends => (first.reads rest ends).bind (second rest)⟩

/-- A document gives a value if only blanks come after it. -/
theorem parse?_eq_some {reader : Reader α} {document : String} {value : α} :
    Json.parse? reader document = some value ↔
      ∃ rest, Reads reader document.toList value rest ∧
        Reads blanks rest () [] := by
  unfold Json.parse?
  rw [all_eq_some]
  constructor
  · intro reads
    obtain ⟨found, rest, first, reads⟩ := reads.exists_of_bind
    obtain ⟨_, last, second, ended⟩ := reads.exists_of_bind
    cases ended
    exact ⟨rest, first, second⟩
  · rintro ⟨rest, first, second⟩
    exact first.bind (second.bind (.pure value []))

theorem ReadsBack.parse? {reader : Reader α} {front : List Char} {value : α}
    (back : ReadsBack reader front value) :
    Json.parse? reader (String.ofList front) = some value := by
  have reads := back.reads [] (ends_nil _)
  rw [List.append_nil] at reads
  apply parse?_eq_some.mpr
  rw [String.toList_ofList]
  exact ⟨[], reads, reads_skipWhile_none (ends_nil isBlank)⟩

/-! ## Texts -/

theorem unit?_digits {code : Nat} (small : code < 0x20) :
    unit? '0' '0' (Hex.digit (code / 16)) (Hex.digit (code % 16)) =
      some code := by
  have high := Hex.digitValue?_digit (code / 16) (by omega)
  have low := Hex.digitValue?_digit (code % 16) (by omega)
  have zero : Hex.digitValue? '0'.toNat = some 0 := rfl
  have whole : ((0 * 16 + 0) * 16 + code / 16) * 16 + code % 16 = code := by
    omega
  unfold unit?
  rw [zero, high, low]
  exact congrArg some whole

theorem single?_toNat (char : Char) : single? char.toNat = some char := by
  have valid : char.toNat.isValidChar := char.valid
  rw [single?, if_pos valid, Char.ofNat_toNat]

/-- An escape of one letter stands for its meaning. -/
theorem textBody_letter {letter char : Char}
    (meaning : escape? letter = some char) (rest : List Char) :
    textBody ('\\' :: letter :: rest) =
      prepend? (some char) (textBody rest) := by
  have unnumbered : letter ≠ 'u' := by
    rintro rfl
    cases meaning
  -- A letter u would start a numbered escape.
  rw [textBody, meaning]
  exact fun _ _ _ _ _ numbered => absurd numbered unnumbered

/-- A numbered escape stands for the character of its number. -/
theorem textBody_number {a b c d char : Char}
    (meaning : unit? a b c d = some char.toNat) (rest : List Char) :
    textBody ('\\' :: 'u' :: a :: b :: c :: d :: rest) =
      prepend? (some char) (textBody rest) := by
  rw [textBody.eq_def]
  simp only [meaning, Option.bind_some, single?_toNat]

theorem textBody_plain {char : Char} (noQuote : char ≠ '"')
    (noEscape : char ≠ '\\') (printed : ¬ char.toNat < 0x20)
    (rest : List Char) :
    textBody (char :: rest) = prepend? (some char) (textBody rest) := by
  -- The goals that are left say that none of the earlier cases applies.
  rw [textBody, if_neg printed]
  · exact noQuote
  · exact fun _ _ _ _ _ escapes => absurd escapes noEscape
  · exact fun _ _ escapes => absurd escapes noEscape

theorem textBody_writeChar (char : Char) (rest : List Char) :
    textBody (writeChar char ++ rest) =
      prepend? (some char) (textBody rest) := by
  unfold writeChar
  split_ifs with quote escape back feed newline carriage tab control
  · subst quote
    exact textBody_letter rfl rest
  · subst escape
    exact textBody_letter rfl rest
  · subst back
    exact textBody_letter rfl rest
  · subst feed
    exact textBody_letter rfl rest
  · subst newline
    exact textBody_letter rfl rest
  · subst carriage
    exact textBody_letter rfl rest
  · subst tab
    exact textBody_letter rfl rest
  · exact textBody_number (unit?_digits control) rest
  · exact textBody_plain quote escape control rest

theorem textBody_write (chars rest : List Char) :
    textBody (chars.flatMap writeChar ++ '"' :: rest) = some (chars, rest) := by
  induction chars with
  | nil => exact textBody.eq_2 rest
  | cons char chars induction =>
      rw [List.flatMap_cons, List.append_assoc, textBody_writeChar, induction]
      rfl

theorem reads_text (chars rest : List Char) :
    Reads text (writeText chars ++ rest) chars rest := by
  have quoted : writeText chars ++ rest =
      '"' :: (chars.flatMap writeChar ++ '"' :: rest) := by
    simp [writeText]
  rw [quoted]
  exact (reads_mark rfl _).bind (textBody_write chars rest)

theorem opens_writeText (chars : List Char) : Opens (writeText chars) :=
  ⟨'"', _, rfl, rfl, by decide, by decide⟩

theorem text_readsBack (chars : List Char) :
    ReadsBack text (writeText chars) chars :=
  ⟨opens_writeText chars, fun rest _ => reads_text chars rest⟩

theorem string_readsBack (value : String) :
    ReadsBack string (writeString value) value := by
  apply (text_readsBack value.toList).map
  intro rest
  rw [String.ofList_toList]
  exact .pure value rest

/-! ## Numbers -/

theorem isBlank_of_isDigit {char : Char} (isDigit : char.isDigit = true) :
    isBlank char = false := by
  have space : char ≠ ' ' := ne_of_condition isDigit rfl
  have newline : char ≠ '\n' := ne_of_condition isDigit rfl
  have tab : char ≠ '\t' := ne_of_condition isDigit rfl
  have carriage : char ≠ '\r' := ne_of_condition isDigit rfl
  simp [isBlank, space, newline, tab, carriage]

theorem opens_writeNatural (number : Nat) : Opens (writeNatural number) := by
  obtain ⟨first, others, digits, isDigit⟩ :=
    Decimal.exists_toDigits_eq_cons number
  exact ⟨first, others, digits, isBlank_of_isDigit isDigit,
    ne_of_condition isDigit rfl, ne_of_condition isDigit rfl⟩

theorem reads_wholeDigits (number : Nat) {rest : List Char}
    (ends : Ends Char.isDigit rest) :
    Reads wholeDigits (writeNatural number ++ rest) (writeNatural number)
      rest := by
  by_cases zero : number = 0
  · subst zero
    rfl
  · obtain ⟨first, others, digits, nonzero⟩ :=
      Decimal.exists_toDigits_eq_cons_of_ne_zero zero
    have reads : Reads (takeSome Char.isDigit) (writeNatural number ++ rest)
        (writeNatural number) rest :=
      reads_takeSome (fun _ member => Decimal.isDigit_of_mem member) ends
        Nat.toDigits_ne_nil
    have whole : wholeDigits (writeNatural number ++ rest) =
        takeSome Char.isDigit (writeNatural number ++ rest) := by
      rw [writeNatural, digits, List.cons_append, wholeDigits]
      exact fun _ zeros => absurd (List.cons.inj zeros).1 nonzero
    exact whole.trans reads

theorem blanks_writeNatural (number : Nat) (rest : List Char) :
    Reads blanks (writeNatural number ++ rest) ()
      (writeNatural number ++ rest) := by
  obtain ⟨first, others, digits, solid, _⟩ := opens_writeNatural number
  rw [digits]
  exact reads_blanks solid (others ++ rest)

theorem ofDigitChars_writeNatural (number : Nat) :
    Nat.ofDigitChars 10 (writeNatural number) 0 = number :=
  Nat.ofDigitChars_ten_toDigits

theorem natural_readsBack (number : Nat) :
    ReadsBack natural (writeNatural number) number where
  opens := opens_writeNatural number
  reads rest ends := by
    apply (blanks_writeNatural number rest).bind
    apply (reads_wholeDigits number ends).bind
    rw [ofDigitChars_writeNatural]
    exact .pure number rest

theorem uint64_readsBack (number : UInt64) :
    ReadsBack uint64 (writeNatural number.toNat) number := by
  apply (natural_readsBack number.toNat).map
  intro rest
  have small : number.toNat < Word.countBound := number.toNat_lt
  rw [if_pos small, UInt64.ofNat_toNat]
  exact .pure number rest

theorem opens_writeInteger (number : Int) : Opens (writeInteger number) := by
  unfold writeInteger
  split_ifs
  · exact ⟨'-', _, rfl, rfl, by decide, by decide⟩
  · exact opens_writeNatural number.natAbs

theorem reads_integer (number : Int) {rest : List Char}
    (ends : Ends Char.isDigit rest) :
    Reads integer (writeInteger number ++ rest) number rest := by
  unfold writeInteger
  split_ifs with negative
  · apply (reads_blanks rfl _).bind
    apply (reads_accept '-' _).bind
    apply (reads_wholeDigits number.natAbs ends).bind
    have nonzero : number.natAbs ≠ 0 := by omega
    have opposite : -(number.natAbs : Int) = number := by omega
    simp only [ofDigitChars_writeNatural, if_neg nonzero, opposite]
    exact .pure number rest
  · obtain ⟨first, others, digits, isDigit⟩ :=
      Decimal.exists_toDigits_eq_cons number.natAbs
    have unsigned : first ≠ '-' := ne_of_condition isDigit rfl
    have accepts : Reads (accept '-') (writeNatural number.natAbs ++ rest)
        false (writeNatural number.natAbs ++ rest) := by
      rw [writeNatural, digits]
      exact reads_accept_other unsigned (others ++ rest)
    have same : (number.natAbs : Int) = number := by omega
    apply (blanks_writeNatural number.natAbs rest).bind
    apply accepts.bind
    apply ((natural_readsBack number.natAbs).reads rest ends).bind
    rw [same]
    exact .pure number rest

theorem integer_readsBack (number : Int) :
    ReadsBack integer (writeInteger number) number :=
  ⟨opens_writeInteger number, fun _ ends => reads_integer number ends⟩

theorem int32_readsBack (number : Int32) :
    ReadsBack int32 (writeInteger number.toInt) number := by
  apply (integer_readsBack number.toInt).map
  intro rest
  rw [if_pos ⟨number.le_toInt, number.toInt_lt⟩, Int32.ofInt_toInt]
  exact .pure number rest

end SlotStorage.Json
