import SlotStorage.Proofs.Text.Decimal
import SlotStorage.Proofs.Text.Reading
import SlotStorage.Toml.Scalar

/-!
# Reading back TOML scalars

A text of simple characters between quotes is read as the text.  A number in
decimal digits that ends with its line is read as the number: it is first
tried as a date, as a time and as a number with a fraction, but none of them
starts with nothing but digits.
-/

namespace SlotStorage.Toml

open Reader

/-! ## Texts -/

/-- The character stands for itself between quotes. -/
def isSimple (char : Char) : Bool :=
  isPlain char && char ≠ '"' && char ≠ '\\'

theorem basicBody_simple {char : Char} (simple : isSimple char = true)
    (rest : List Char) :
    basicBody (char :: rest) = prepend char (basicBody rest) := by
  obtain ⟨⟨plain, noQuote⟩, noEscape⟩ :
      (isPlain char = true ∧ char ≠ '"') ∧ char ≠ '\\' := by
    simpa [isSimple] using simple
  -- The goals that are left say that none of the earlier cases applies.
  rw [basicBody, if_pos plain]
  · exact noQuote
  · exact fun _ _ _ _ _ escapes => absurd escapes noEscape
  · exact fun _ _ _ _ _ _ _ _ _ escapes => absurd escapes noEscape
  · exact fun _ _ escapes => absurd escapes noEscape

theorem basicBody_append {chars : List Char}
    (simple : ∀ char ∈ chars, isSimple char = true) (rest : List Char) :
    basicBody (chars ++ '"' :: rest) = some (chars, rest) := by
  induction chars with
  | nil => exact basicBody.eq_2 rest
  | cons char chars induction =>
      have first : isSimple char = true := simple char List.mem_cons_self
      have others := induction fun char member =>
        simple char (List.mem_cons_of_mem _ member)
      rw [List.cons_append, basicBody_simple first, others]
      rfl

theorem reads_quoted {chars : List Char}
    (simple : ∀ char ∈ chars, isSimple char = true) (some : chars ≠ [])
    (rest : List Char) :
    Reads scalar ('"' :: (chars ++ '"' :: rest)) (.string chars) rest := by
  obtain ⟨first, others, rfl⟩ := List.exists_cons_of_ne_nil some
  have noQuote : first ≠ '"' := by
    rintro rfl
    cases simple '"' List.mem_cons_self
  have body := basicBody_append simple rest
  have line : quoted ('"' :: (first :: others ++ '"' :: rest)) =
      basicBody (first :: others ++ '"' :: rest) := by
    unfold quoted
    split
    · rename_i same
      exact absurd (List.cons.inj (List.cons.inj same).2).1 noQuote
    · rename_i same
      cases (List.cons.inj same).1
    · rfl
  unfold Reads scalar
  simp only [true_or, if_true, line, body, Option.map_some]

/-! ## What starts with digits -/

/-- There are only digits up to the end of the line. -/
inductive DigitLine : List Char → Prop where
  | ended (rest : List Char) : DigitLine ('\n' :: rest)
  | digit {char : Char} {rest : List Char} :
      char.isDigit = true → DigitLine rest → DigitLine (char :: rest)

namespace DigitLine

variable {chars : List Char}

theorem of_digits {front : List Char}
    (digits : ∀ char ∈ front, char.isDigit = true) (rest : List Char) :
    DigitLine (front ++ '\n' :: rest) := by
  induction front with
  | nil => exact .ended rest
  | cons char front induction =>
      exact .digit (digits char List.mem_cons_self)
        (induction fun char member =>
          digits char (List.mem_cons_of_mem _ member))

theorem refuses_expect {char : Char} (noDigit : char.isDigit = false)
    (noEnd : '\n' ≠ char) (line : DigitLine chars) :
    Refuses (expect char) chars := by
  cases line with
  | ended rest => exact Reader.refuses_expect noEnd rest
  | digit isDigit line =>
      exact Reader.refuses_expect (ne_of_condition isDigit noDigit) _

theorem exactDigits {count : Nat} {found rest : List Char}
    (line : DigitLine chars)
    (reads : Reads (exactDigits count) chars found rest) :
    DigitLine rest := by
  induction count generalizing chars found with
  | zero =>
      cases reads
      exact line
  | succ count induction =>
      obtain ⟨digit, between, first, second⟩ := reads.exists_of_bind
      cases line with
      | ended rest =>
          -- The end of the line is no digit, so nothing is read there.
          cases first
          cases second
      | digit isDigit line =>
          cases first
          rw [if_pos isDigit] at second
          obtain ⟨others, _, third, last⟩ := second.exists_of_bind
          cases last
          exact induction line third

theorem twoDigits {least most number : Nat} {rest : List Char}
    (line : DigitLine chars)
    (reads : Reads (twoDigits least most) chars number rest) :
    DigitLine rest := by
  obtain ⟨found, between, first, second⟩ := reads.exists_of_bind
  cases Reads.eq_of_guard second
  exact line.exactDigits first

/-- After the year comes a minus. -/
theorem refuses_date (line : DigitLine chars) : Refuses date chars := by
  apply refuses_bind
  intro found between reads
  exact ((line.exactDigits reads).refuses_expect rfl (by decide)).bind _

/-- After the hour comes a colon. -/
theorem refuses_time (line : DigitLine chars) : Refuses time chars := by
  apply refuses_bind
  intro found between reads
  exact ((line.twoDigits reads).refuses_expect rfl (by decide)).bind _

end DigitLine

theorem refuses_exactDigits {char : Char} (noDigit : char.isDigit = false)
    (count : Nat) (rest : List Char) :
    Refuses (exactDigits (count + 1)) (char :: rest) := by
  have first : Reads next (char :: rest) char rest := rfl
  apply first.refuses_bind
  rw [if_neg (by simp [noDigit])]
  exact refuses_failure rest

theorem refuses_dateTime {chars : List Char} (date : Refuses date chars)
    (time : Refuses time chars) : Refuses dateTime chars :=
  (reads_optional_none date).refuses_bind (time.bind _)

/-! ## Integers -/

section Integers

variable (number : Int) (rest : List Char)

theorem digitLine_toDigits (size : Nat) :
    DigitLine (Nat.toDigits 10 size ++ '\n' :: rest) :=
  .of_digits (fun _ member => Decimal.isDigit_of_mem member) rest

theorem reads_sign :
    Reads sign ((toString number).toList ++ '\n' :: rest) (decide (number < 0))
      (Nat.toDigits 10 number.natAbs ++ '\n' :: rest) := by
  rw [Decimal.toList_toString]
  by_cases negative : number < 0
  · rw [if_pos negative, decide_eq_true negative]
    rfl
  · obtain ⟨first, others, digits, isDigit⟩ :=
      Decimal.exists_toDigits_eq_cons number.natAbs
    have noPlus : first ≠ '+' := ne_of_condition isDigit rfl
    have noMinus : first ≠ '-' := ne_of_condition isDigit rfl
    rw [if_neg negative, decide_eq_false negative, digits]
    unfold Reads sign
    split
    · rename_i same
      cases same
      exact absurd rfl noPlus
    · rename_i same
      cases same
      exact absurd rfl noMinus
    · rfl

theorem digitRun_append {front : List Char} (afterDigit : Bool)
    (digits : ∀ char ∈ front, char.isDigit = true) :
    digitRun Char.isDigit afterDigit (front ++ '\n' :: rest) =
      (front, '\n' :: rest) := by
  induction front generalizing afterDigit with
  | nil => rfl
  | cons char front induction =>
      have isDigit : char.isDigit = true := digits char List.mem_cons_self
      have others := induction true fun char member =>
        digits char (List.mem_cons_of_mem _ member)
      rw [List.cons_append, digitRun, if_pos isDigit, others]

theorem reads_decimalDigits (size : Nat) :
    Reads decimalDigits (Nat.toDigits 10 size ++ '\n' :: rest)
      (Nat.toDigits 10 size) ('\n' :: rest) := by
  by_cases zero : size = 0
  · subst zero
    rfl
  · obtain ⟨first, others, digits, nonzero⟩ :=
      Decimal.exists_toDigits_eq_cons_of_ne_zero zero
    have areDigits : ∀ char ∈ Nat.toDigits 10 size, char.isDigit = true :=
      fun _ member => Decimal.isDigit_of_mem member
    have run := digitRun_append rest false areDigits
    have whole : decimalDigits (Nat.toDigits 10 size ++ '\n' :: rest) =
        Toml.digits Char.isDigit (Nat.toDigits 10 size ++ '\n' :: rest) := by
      rw [digits, List.cons_append, decimalDigits]
      exact fun _ zeros => absurd (List.cons.inj zeros).1 nonzero
    unfold Reads
    rw [whole, Toml.digits, run, digits]

theorem decimalValue_toDigits (size : Nat) :
    decimalValue (Nat.toDigits 10 size) = size := by
  have value := Nat.ofDigitChars_ten_toDigits (n := size)
  rwa [Nat.ofDigitChars_eq_foldl] at value

/-- Neither a point nor an exponent follows the digits. -/
theorem refuses_plainFloat :
    Refuses plainFloat ((toString number).toList ++ '\n' :: rest) := by
  have noPoint : Refuses fraction ('\n' :: rest) :=
    (Reader.refuses_expect (by decide) rest).bind _
  have noPower : Refuses exponent ('\n' :: rest) := by
    have mark : Reads next ('\n' :: rest) '\n' rest := rfl
    apply mark.refuses_bind
    rw [if_neg (by decide)]
    exact refuses_failure rest
  apply (reads_sign number rest).refuses_bind
  apply (reads_decimalDigits rest number.natAbs).refuses_bind
  apply (reads_optional_none noPoint).refuses_bind
  apply (reads_optional_none noPower).refuses_bind
  exact refuses_failure _

theorem refuses_specialFloat :
    Refuses specialFloat ((toString number).toList ++ '\n' :: rest) := by
  apply (reads_sign number rest).refuses_bind
  obtain ⟨first, others, digits, isDigit⟩ :=
    Decimal.exists_toDigits_eq_cons number.natAbs
  have notInf : first ≠ 'i' := ne_of_condition isDigit rfl
  have notNan : first ≠ 'n' := ne_of_condition isDigit rfl
  rw [digits]
  have noInf : Refuses (expectAll ['i', 'n', 'f'])
      (first :: others ++ '\n' :: rest) :=
    (Reader.refuses_expect notInf _).bind _
  have noNan : Refuses (expectAll ['n', 'a', 'n'])
      (first :: others ++ '\n' :: rest) :=
    (Reader.refuses_expect notNan _).bind _
  exact (reads_optional_none noInf).refuses_bind (noNan.bind _)

/-- No date and no time starts with a minus or with nothing but digits. -/
theorem refuses_dateTime_integer :
    Refuses dateTime ((toString number).toList ++ '\n' :: rest) := by
  rw [Decimal.toList_toString]
  by_cases negative : number < 0
  · rw [if_pos negative]
    have noDigits (count : Nat) :=
      refuses_exactDigits (show '-'.isDigit = false from rfl) count
        (Nat.toDigits 10 number.natAbs ++ '\n' :: rest)
    exact refuses_dateTime ((noDigits 3).bind _) (((noDigits 1).bind _).bind _)
  · rw [if_neg negative]
    have line := digitLine_toDigits rest number.natAbs
    exact refuses_dateTime line.refuses_date line.refuses_time

/-- A number that starts with a zero is zero. -/
theorem eq_newline_of_zero {mark : Char} {others : List Char}
    (zeros : (toString number).toList ++ '\n' :: rest = '0' :: mark :: others) :
    mark = '\n' := by
  rw [Decimal.toList_toString] at zeros
  by_cases negative : number < 0
  · rw [if_pos negative] at zeros
    cases zeros
  · rw [if_neg negative] at zeros
    by_cases zero : number.natAbs = 0
    · rw [zero] at zeros
      cases zeros
      rfl
    · obtain ⟨first, others, digits, nonzero⟩ :=
        Decimal.exists_toDigits_eq_cons_of_ne_zero zero
      rw [digits] at zeros
      exact absurd (List.cons.inj zeros).1 nonzero

theorem reads_integer
    (bounded : -9223372036854775808 ≤ number ∧ number < 9223372036854775808) :
    Reads integer ((toString number).toList ++ '\n' :: rest) (.integer number)
      ('\n' :: rest) := by
  have signed : (if decide (number < 0) then
      -(decimalValue (Nat.toDigits 10 number.natAbs) : Int)
      else decimalValue (Nat.toDigits 10 number.natAbs)) = number := by
    rw [decimalValue_toDigits]
    by_cases negative : number < 0
    · simp only [negative, decide_true, if_true]
      omega
    · simp only [negative, decide_false, Bool.false_eq_true, if_false]
      omega
  have accepted : bounded? number = some (.integer number) := if_pos bounded
  unfold Reads integer
  -- Another base would show in a letter after a zero at the front.
  split
  · rename_i zeros
    cases eq_newline_of_zero number rest zeros
  · rename_i zeros
    cases eq_newline_of_zero number rest zeros
  · rename_i zeros
    cases eq_newline_of_zero number rest zeros
  · apply (reads_sign number rest).bind
    apply (reads_decimalDigits rest number.natAbs).bind
    apply reads_require
    rw [signed]
    exact accepted

theorem reads_number
    (bounded : -9223372036854775808 ≤ number ∧ number < 9223372036854775808) :
    Reads scalar ((toString number).toList ++ '\n' :: rest) (.integer number)
      ('\n' :: rest) := by
  have noDate : dateTime _ = none := refuses_dateTime_integer number rest
  have noFloat : plainFloat _ = none := refuses_plainFloat number rest
  have noSpecial : specialFloat _ = none := refuses_specialFloat number rest
  have reads := reads_integer number rest bounded
  obtain ⟨first, others, digits, different⟩ :=
    Decimal.exists_toString_eq_cons number
  rw [digits] at noDate noFloat noSpecial reads ⊢
  have noQuote : first ≠ '"' := different _ rfl (by decide)
  have noLiteral : first ≠ '\'' := different _ rfl (by decide)
  have noTrue : first ≠ 't' := different _ rfl (by decide)
  have noFalse : first ≠ 'f' := different _ rfl (by decide)
  have noInf : first ≠ 'i' := different _ rfl (by decide)
  have noNan : first ≠ 'n' := different _ rfl (by decide)
  have last : scalar (first :: others ++ '\n' :: rest) =
      integer (first :: others ++ '\n' :: rest) := by
    simp only [scalar, List.cons_append, noQuote, noLiteral, noTrue, noFalse,
      noInf, noNan, or_self, if_false]
    simp only [List.cons_append] at noDate noFloat noSpecial
    rw [noDate, noFloat, noSpecial]
    rfl
  exact last.trans reads

end Integers

end SlotStorage.Toml
