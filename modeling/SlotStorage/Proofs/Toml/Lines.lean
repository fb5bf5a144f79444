import SlotStorage.Proofs.Toml.Scalars
import SlotStorage.Toml.Statement

/-!
# Reading back TOML lines

A document that has one statement in each line, and empty lines in between, is
read as the row of its statements.  The lines are headers of tables and keys
with values, where keys stand without quotes.
-/

namespace SlotStorage.Toml

open Reader

/-! ## Keys -/

theorem isBlank_eq_false {char : Char} (space : char ≠ ' ')
    (tab : char ≠ '\t') : isBlank char = false := by
  simp [isBlank, space, tab]

/-- Reads one more part of a key. -/
def keyStep (parts : Path) : Reader (Sum Path Path) := do
  blanks
  let part ← keyPart
  blanks
  if ← accept '.' then return .inl (part :: parts)
  else return .inr (part :: parts)

/-- A key without quotes, up to what follows it. -/
structure Bare (name : List Char) : Prop where
  nonempty : name ≠ []
  chars : name.all isKeyChar = true

namespace Bare

variable {name : List Char} (bare : Bare name)

include bare

theorem exists_eq_cons :
    ∃ first others, name = first :: others ∧ isKeyChar first = true := by
  obtain ⟨first, others, rfl⟩ := List.exists_cons_of_ne_nil bare.nonempty
  have chars := List.all_eq_true.mp bare.chars
  exact ⟨first, others, rfl, chars first List.mem_cons_self⟩

theorem reads_keyPart {rest : List Char} (ends : Ends isKeyChar rest) :
    Reads keyPart (name ++ rest) name rest := by
  have part : Reads (takeSome isKeyChar) (name ++ rest) name rest :=
    reads_takeSome (List.all_eq_true.mp bare.chars) ends bare.nonempty
  obtain ⟨first, others, rfl, isKey⟩ := bare.exists_eq_cons
  apply (reads_peek first (others ++ rest)).bind
  have noQuote : first ≠ '"' := ne_of_condition isKey rfl
  have noLiteral : first ≠ '\'' := ne_of_condition isKey rfl
  simp only [Option.some.injEq, noQuote, noLiteral, or_self, if_false]
  exact part

/-- A key does not start with a bracket. -/
theorem reads_unbracketed (rest : List Char) :
    Reads (accept '[') (name ++ rest) false (name ++ rest) := by
  obtain ⟨first, others, rfl, isKey⟩ := bare.exists_eq_cons
  exact reads_accept_other (ne_of_condition isKey rfl) (others ++ rest)

/-- Blanks may follow the name of a key. -/
theorem loops_key {blanks rest : List Char} {mark : Char}
    (isBlanks : ∀ char ∈ blanks, isBlank char = true)
    (noKey : Ends isKeyChar (blanks ++ mark :: rest))
    (solid : isBlank mark = false) (noPoint : mark ≠ '.') :
    Loops keyStep [] (name ++ (blanks ++ mark :: rest)) [name]
      (mark :: rest) := by
  obtain ⟨first, others, split, isKey⟩ := bare.exists_eq_cons
  have skipped : Reads Toml.blanks (name ++ (blanks ++ mark :: rest)) ()
      (name ++ (blanks ++ mark :: rest)) := by
    rw [split]
    apply reads_skipWhile_none
    apply ends_cons
    exact isBlank_eq_false (ne_of_condition isKey rfl)
      (ne_of_condition isKey rfl)
  have after : Reads Toml.blanks (blanks ++ mark :: rest) () (mark :: rest) :=
    reads_skipWhile isBlanks (ends_cons solid rest)
  apply Loops.last
  apply skipped.bind
  apply (bare.reads_keyPart noKey).bind
  apply after.bind
  exact (reads_accept_other noPoint rest).bind (.pure _ _)

theorem reads_key_spaced (rest : List Char) :
    Reads key (name ++ ' ' :: '=' :: rest) [name] ('=' :: rest) := by
  have isBlanks : ∀ char ∈ [' '], isBlank char = true := by simp [isBlank]
  have loops := bare.loops_key isBlanks (ends_cons rfl ('=' :: rest)) rfl
    (by decide)
  exact loops.loop.bind (.pure [name] _)

theorem reads_key_closed (rest : List Char) :
    Reads key (name ++ ']' :: rest) [name] (']' :: rest) := by
  have isBlanks : ∀ char ∈ ([] : List Char), isBlank char = true := by simp
  have noKey : Ends isKeyChar (']' :: rest) := ends_cons rfl rest
  have loops := bare.loops_key isBlanks noKey rfl (by decide)
  exact loops.loop.bind (.pure [name] _)

end Bare

/-! ## Statements -/

/-- The scalar that is written has the value, where its line ends after it. -/
structure Writes (chars : List Char) (content : Value) : Prop where
  opens : ∃ first others, chars = first :: others ∧ isBlank first = false ∧
    first ≠ '[' ∧ first ≠ '\x7b'
  reads : ∀ rest, Reads scalar (chars ++ '\n' :: rest) content ('\n' :: rest)

theorem Writes.reads_value {chars : List Char} {content : Value}
    (writes : Writes chars content) (rest : List Char) :
    Reads value (chars ++ '\n' :: rest) content ('\n' :: rest) := by
  have reads := writes.reads rest
  obtain ⟨first, others, rfl, _, noArray, noTable⟩ := writes.opens
  apply (reads_peek first (others ++ '\n' :: rest)).bind
  split
  · rename_i same
    exact absurd (Option.some.inj same) noArray
  · rename_i same
    exact absurd (Option.some.inj same) noTable
  · exact reads

/-- A text between quotes. -/
def inQuotes (chars : List Char) : List Char :=
  '"' :: (chars ++ ['"'])

theorem writes_text {chars : List Char}
    (simple : ∀ char ∈ chars, isSimple char = true) (nonempty : chars ≠ []) :
    Writes (inQuotes chars) (.string chars) where
  opens := ⟨'"', _, rfl, rfl, by decide, by decide⟩
  reads rest := by
    have split : inQuotes chars ++ '\n' :: rest =
        '"' :: (chars ++ '"' :: '\n' :: rest) := by
      simp [inQuotes]
    rw [split]
    exact reads_quoted simple nonempty ('\n' :: rest)

theorem writes_integer {number : Int}
    (bounded : -9223372036854775808 ≤ number ∧ number < 9223372036854775808) :
    Writes (toString number).toList (.integer number) where
  opens := by
    obtain ⟨first, others, digits, different⟩ :=
      Decimal.exists_toString_eq_cons number
    have solid : isBlank first = false :=
      isBlank_eq_false (different _ rfl (by decide))
        (different _ rfl (by decide))
    exact ⟨first, others, digits, solid, different _ rfl (by decide),
      different _ rfl (by decide)⟩
  reads rest := reads_number number rest bounded

/-- A line for a key and what is written for its value. -/
def assignmentLine (name content : List Char) : List Char :=
  name ++ ' ' :: '=' :: ' ' :: content

/-- The header of a table. -/
def headerLine (name : List Char) : List Char :=
  '[' :: (name ++ [']'])

/-- A line without a statement, or with one. -/
inductive Line : List Char → Option Statement → Prop where
  | empty : Line [] none
  | assignment {name content : List Char} {value : Value} :
      Bare name → Writes content value →
      Line (assignmentLine name content) (some (.assignment [name] value))
  | header {name : List Char} :
      Bare name → Line (headerLine name) (some (.table [name]))

theorem reads_assignment {name content : List Char} {value : Value}
    (bare : Bare name) (writes : Writes content value) (rest : List Char) :
    Reads statement (assignmentLine name content ++ '\n' :: rest)
      (.assignment [name] value) ('\n' :: rest) := by
  have split : assignmentLine name content ++ '\n' :: rest =
      name ++ ' ' :: '=' :: ([' '] ++ (content ++ '\n' :: rest)) := by
    simp [assignmentLine]
  have pair : Reads (keyValue Toml.value)
      (name ++ ' ' :: '=' :: ([' '] ++ (content ++ '\n' :: rest)))
      ([name], value) ('\n' :: rest) := by
    have spaces : ∀ char ∈ [' '], isBlank char = true := by simp [isBlank]
    have solid : Ends isBlank (content ++ '\n' :: rest) := by
      obtain ⟨first, others, rfl, solid, _⟩ := writes.opens
      exact ends_cons solid _
    apply (bare.reads_key_spaced _).bind
    apply (reads_expect '=' _).bind
    apply (reads_skipWhile spaces solid).bind
    exact (writes.reads_value rest).bind (.pure _ _)
  rw [split]
  exact (bare.reads_unbracketed _).bind (pair.bind (.pure _ _))

theorem reads_header {name : List Char} (bare : Bare name) (rest : List Char) :
    Reads statement (headerLine name ++ '\n' :: rest) (.table [name])
      ('\n' :: rest) := by
  have split : headerLine name ++ '\n' :: rest =
      '[' :: (name ++ ']' :: '\n' :: rest) := by
    simp [headerLine]
  rw [split]
  apply (reads_accept '[' _).bind
  apply (bare.reads_unbracketed _).bind
  apply (bare.reads_key_closed ('\n' :: rest)).bind
  exact (reads_expect ']' _).bind (.pure _ _)

/-! ## Documents -/

/-- Reads one more line of a document, or the end of the document. -/
def lineStep (found : List Statement) :
    Reader (Sum (List Statement) (List Statement)) := do
  blanks
  match ← peek with
  | none => return .inr found.reverse
  | some '#' | some '\n' | some '\r' =>
    lineRest
    return .inl found
  | _ =>
    let next ← statement
    lineRest
    return .inl (next :: found)

theorem reads_lineRest (rest : List Char) :
    Reads lineRest ('\n' :: rest) () rest := by
  apply (reads_skipWhile_none (ends_cons rfl rest)).bind
  have noComment : Reads comment ('\n' :: rest) () ('\n' :: rest) :=
    (reads_accept_other (by decide) rest).bind (.pure () _)
  exact noComment.bind rfl

/-- A line that starts like a statement is read as one. -/
theorem reads_lineStep {first : Char} {others rest : List Char}
    {next : Statement} (opens : isKeyChar first = true ∨ first = '[')
    (reads : Reads statement (first :: others) next ('\n' :: rest))
    (found : List Statement) :
    Reads (lineStep found) (first :: others) (.inl (next :: found)) rest := by
  have other {char : Char} (noKey : isKeyChar char = false)
      (noBracket : char ≠ '[') : first ≠ char := by
    obtain isKey | rfl := opens
    · exact ne_of_condition isKey noKey
    · exact noBracket.symm
  have solid : isBlank first = false :=
    isBlank_eq_false (other rfl (by decide)) (other rfl (by decide))
  apply (reads_skipWhile_none (ends_cons solid others)).bind
  apply (reads_peek first others).bind
  split
  · rename_i same
    cases same
  · rename_i same
    exact absurd (Option.some.inj same) (other rfl (by decide))
  · rename_i same
    exact absurd (Option.some.inj same) (other rfl (by decide))
  · rename_i same
    exact absurd (Option.some.inj same) (other rfl (by decide))
  · apply reads.bind
    exact (reads_lineRest rest).bind (.pure _ _)

theorem Line.reads {line : List Char} {next : Option Statement}
    (written : Line line next) (found : List Statement) (rest : List Char) :
    Reads (lineStep found) (line ++ '\n' :: rest)
      (.inl (next.toList.reverse ++ found)) rest := by
  cases written with
  | empty =>
      apply (reads_skipWhile_none (ends_cons rfl rest)).bind
      apply (reads_peek '\n' rest).bind
      exact (reads_lineRest rest).bind (.pure _ _)
  | assignment bare writes =>
      have reads := reads_assignment bare writes rest
      obtain ⟨first, others, rfl, isKey⟩ := bare.exists_eq_cons
      exact reads_lineStep (.inl isKey) reads found
  | header bare =>
      exact reads_lineStep (.inr rfl) (reads_header bare rest) found

/-- The lines of a document, each of which ends with a mark. -/
inductive Lines : List Char → List Statement → Prop where
  | nil : Lines [] []
  | cons {line rest : List Char} {next : Option Statement}
      {others : List Statement} :
      Line line next → Lines rest others →
      Lines (line ++ '\n' :: rest) (next.toList ++ others)

theorem Lines.loops {chars : List Char} {others : List Statement}
    (lines : Lines chars others) (found : List Statement) :
    Loops lineStep found chars (found.reverse ++ others) [] := by
  induction lines generalizing found with
  | nil =>
      rw [List.append_nil]
      exact .last rfl
  | @cons line rest next others written _ induction =>
      have later := induction (next.toList.reverse ++ found)
      rw [List.reverse_append, List.reverse_reverse, List.append_assoc] at later
      -- Even an empty line has its mark, so each step takes something off.
      refine .next (written.reads found rest) ?_ later
      simp only [List.length_append, List.length_cons]
      omega

/-- A document is read as the statements of its lines. -/
theorem Lines.reads {chars : List Char} {found : List Statement}
    (lines : Lines chars found) : statements.all chars = some found :=
  all_eq_some.mpr (lines.loops []).loop

end SlotStorage.Toml
