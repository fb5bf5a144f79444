import SlotStorage.Text.Reader

/-!
# What readers take off a text

A reader reads a value off a text if it succeeds with that value and leaves a
certain rest.  Steps follow each other on what the step before has left.  A
loop comes to its end if every step that goes on takes something off the text.
-/

namespace SlotStorage.Reader

variable {α β : Type}

/-- The reader takes the value off the front of a text and leaves the rest. -/
def Reads (reader : Reader α) (chars : List Char) (value : α)
    (rest : List Char) : Prop :=
  reader chars = some (value, rest)

theorem Reads.pure (value : α) (chars : List Char) :
    Reads (Pure.pure value) chars value chars :=
  rfl

theorem Reads.bind {reader : Reader α} {next : α → Reader β}
    {chars between rest : List Char} {value : α} {result : β}
    (first : Reads reader chars value between)
    (second : Reads (next value) between result rest) :
    Reads (reader >>= next) chars result rest := by
  change (reader chars).bind (fun found => next found.1 found.2) = _
  rw [show reader chars = some (value, between) from first]
  exact second

/-- What a step reads decides what the following steps are asked for. -/
theorem bind_apply {reader : Reader α} {chars between : List Char} {value : α}
    (first : Reads reader chars value between) (next : α → Reader β) :
    (reader >>= next) chars = next value between := by
  change (reader chars).bind (fun found => next found.1 found.2) = _
  rw [show reader chars = some (value, between) from first]
  rfl

/-- A reader of two steps has read something with the first one, too. -/
theorem Reads.exists_of_bind {reader : Reader α} {next : α → Reader β}
    {chars rest : List Char} {result : β}
    (reads : Reads (reader >>= next) chars result rest) :
    ∃ value between, Reads reader chars value between ∧
      Reads (next value) between result rest := by
  change (reader chars).bind (fun found => next found.1 found.2) =
    some (result, rest) at reads
  obtain ⟨⟨value, between⟩, first, second⟩ := Option.bind_eq_some_iff.mp reads
  exact ⟨value, between, first, second⟩

/-- The reader fails on a text. -/
def Refuses (reader : Reader α) (chars : List Char) : Prop :=
  reader chars = none

theorem Refuses.bind {reader : Reader α} {chars : List Char}
    (first : Refuses reader chars) (next : α → Reader β) :
    Refuses (reader >>= next) chars := by
  change (reader chars).bind (fun found => next found.1 found.2) = none
  rw [show reader chars = none from first]
  rfl

/-- Whatever the first step reads, the second one fails on what is left. -/
theorem refuses_bind {reader : Reader α} {next : α → Reader β}
    {chars : List Char}
    (second : ∀ value between, Reads reader chars value between →
      Refuses (next value) between) :
    Refuses (reader >>= next) chars := by
  change (reader chars).bind (fun found => next found.1 found.2) = none
  rw [Option.bind_eq_none_iff]
  intro found reads
  exact second found.1 found.2 reads

theorem Reads.refuses_bind {reader : Reader α} {next : α → Reader β}
    {chars between : List Char} {value : α}
    (first : Reads reader chars value between)
    (second : Refuses (next value) between) :
    Refuses (reader >>= next) chars :=
  (bind_apply first next).trans second

theorem Reads.eq_of_guard {condition : Prop} [Decidable condition]
    {value result : α} {chars rest : List Char}
    (reads : Reads (if condition then Pure.pure value else failure) chars result
      rest) : rest = chars := by
  by_cases holds : condition
  · rw [if_pos holds] at reads
    cases reads
    rfl
  · rw [if_neg holds] at reads
    cases reads

theorem refuses_failure (chars : List Char) :
    Refuses (failure : Reader α) chars :=
  rfl

theorem reads_optional_none {reader : Reader α} {chars : List Char}
    (refuses : Refuses reader chars) :
    Reads (optional reader) chars none chars := by
  unfold Reads optional
  rw [show reader chars = none from refuses]

theorem reads_require {option : Option α} {value : α}
    (present : option = some value) (chars : List Char) :
    Reads (require option) chars value chars := by
  rw [present]
  rfl

theorem reads_peek (char : Char) (rest : List Char) :
    Reads peek (char :: rest) (some char) (char :: rest) :=
  rfl

theorem reads_expect (char : Char) (rest : List Char) :
    Reads (expect char) (char :: rest) () rest :=
  if_pos rfl

theorem refuses_expect {char first : Char} (different : first ≠ char)
    (rest : List Char) : Refuses (expect char) (first :: rest) :=
  if_neg different

theorem Reads.eq_cons_of_expect {char : Char} {chars rest : List Char}
    {done : Unit} (reads : Reads (expect char) chars done rest) :
    chars = char :: rest := by
  cases chars with
  | nil => cases reads
  | cons first others =>
      have reads : (if first = char then some ((), others) else none) =
          some (done, rest) := reads
      by_cases same : first = char
      · rw [if_pos same] at reads
        cases reads
        rw [same]
      · rw [if_neg same] at reads
        cases reads

theorem reads_accept (char : Char) (rest : List Char) :
    Reads (accept char) (char :: rest) true rest :=
  if_pos rfl

theorem reads_accept_other {char first : Char} (different : first ≠ char)
    (rest : List Char) :
    Reads (accept char) (first :: rest) false (first :: rest) :=
  if_neg different

theorem ne_of_condition {condition : Char → Bool} {char other : Char}
    (holds : condition char = true) (fails : condition other = false) :
    char ≠ other := by
  intro same
  rw [same, fails] at holds
  cases holds

/-- The condition does not hold of the character that comes next. -/
def Ends (condition : Char → Bool) (rest : List Char) : Prop :=
  ∀ char ∈ rest.head?, condition char = false

theorem ends_nil (condition : Char → Bool) : Ends condition [] := by
  intro char member
  cases member

theorem ends_cons {condition : Char → Bool} {char : Char}
    (fails : condition char = false) (rest : List Char) :
    Ends condition (char :: rest) := by
  rintro _ ⟨⟩
  exact fails

section Runs

variable {condition : Char → Bool} {front rest : List Char}

theorem dropWhile_of_ends (ends : Ends condition rest) :
    rest.dropWhile condition = rest := by
  cases rest with
  | nil => rfl
  | cons char rest =>
      have fails : condition char = false := ends char rfl
      exact List.dropWhile_cons_of_neg (by simp [fails])

theorem takeWhile_of_ends (ends : Ends condition rest) :
    rest.takeWhile condition = [] := by
  cases rest with
  | nil => rfl
  | cons char rest =>
      have fails : condition char = false := ends char rfl
      exact List.takeWhile_cons_of_neg (by simp [fails])

variable (holds : ∀ char ∈ front, condition char = true)
  (ends : Ends condition rest)

include holds ends

theorem reads_skipWhile :
    Reads (skipWhile condition) (front ++ rest) () rest := by
  unfold Reads skipWhile
  rw [List.dropWhile_append_of_pos holds, dropWhile_of_ends ends]

theorem reads_takeWhile :
    Reads (takeWhile condition) (front ++ rest) front rest := by
  unfold Reads takeWhile
  rw [List.takeWhile_append_of_pos holds, List.dropWhile_append_of_pos holds,
    takeWhile_of_ends ends, dropWhile_of_ends ends, List.append_nil]

theorem reads_takeSome (some : front ≠ []) :
    Reads (takeSome condition) (front ++ rest) front rest := by
  apply (reads_takeWhile holds ends).bind
  rw [if_neg (by simpa using some)]
  exact .pure front rest

end Runs

theorem reads_skipWhile_none {condition : Char → Bool} {rest : List Char}
    (ends : Ends condition rest) :
    Reads (skipWhile condition) rest () rest := by
  have holds : ∀ char ∈ ([] : List Char), condition char = true := by simp
  exact reads_skipWhile holds ends

/-- The steps come to a result, and each one that goes on takes something off
the text. -/
inductive Loops (step : β → Reader (Sum β α)) :
    β → List Char → α → List Char → Prop where
  | last {state : β} {chars rest : List Char} {result : α} :
      Reads (step state) chars (.inr result) rest →
      Loops step state chars result rest
  | next {state later : β} {chars between rest : List Char} {result : α} :
      Reads (step state) chars (.inl later) between →
      between.length < chars.length →
      Loops step later between result rest →
      Loops step state chars result rest

theorem Loops.iterate {step : β → Reader (Sum β α)} {state : β}
    {chars rest : List Char} {result : α}
    (loops : Loops step state chars result rest) {steps : Nat}
    (enough : chars.length < steps) :
    Reads (iterate step steps state) chars result rest := by
  -- A step that goes on uses up a step and at least one character.
  induction loops generalizing steps with
  | last reads =>
      obtain _ | steps := steps
      · exact absurd enough (Nat.not_lt_zero _)
      · exact reads.bind (.pure _ _)
  | next reads shorter _ induction =>
      obtain _ | steps := steps
      · exact absurd enough (Nat.not_lt_zero _)
      · exact reads.bind (induction (by omega))

theorem Loops.loop {step : β → Reader (Sum β α)} {state : β}
    {chars rest : List Char} {result : α}
    (loops : Loops step state chars result rest) :
    Reads (loop step state) chars result rest :=
  loops.iterate (Nat.lt_succ_self chars.length)

/-- A reader gives the value of a text if it reads all of the text. -/
theorem all_eq_some {reader : Reader α} {chars : List Char} {value : α} :
    reader.all chars = some value ↔ Reads reader chars value [] := by
  unfold Reader.all Reads
  split
  · rename_i found reads
    rw [reads]
    simp
  · rename_i different
    constructor
    · intro given
      cases given
    · intro reads
      exact absurd reads (different value)

end SlotStorage.Reader
