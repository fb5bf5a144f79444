import SlotStorage.Store.Error

/-!
# Storage programs

A program is the tree of the store calls that an operation may make: each call
carries what to do with the store's answer, an error included.  A program says
nothing about the store; a backend answers its calls.
-/

namespace SlotStorage

/-- A computation that reads and writes cells.  The answer to a read is the
cell's word, the answer to a write is the word that the cell held before. -/
inductive Program (α : Type) : Type where
  | done (result : α)
  | read (cell : Cell) (resume : Except StoreError Word → Program α)
  | write (cell : Cell) (value : Word)
      (resume : Except StoreError Word → Program α)

namespace Program

variable {α β : Type}

protected def bind : Program α → (α → Program β) → Program β
  | .done result, next => next result
  | .read cell resume, next =>
    .read cell fun answer => (resume answer).bind next
  | .write cell value resume, next =>
    .write cell value fun answer => (resume answer).bind next

instance : Monad Program where
  pure := .done
  bind := Program.bind

theorem bind_done (program : Program α) : program.bind .done = program := by
  induction program with
  | done result => rfl
  | read cell resume induction => simp only [Program.bind, induction]
  | write cell value resume induction => simp only [Program.bind, induction]

theorem bind_assoc {γ : Type} (program : Program α) (first : α → Program β)
    (second : β → Program γ) :
    (program.bind first).bind second =
      program.bind fun result => (first result).bind second := by
  induction program with
  | done result => rfl
  | read cell resume induction => simp only [Program.bind, induction]
  | write cell value resume induction => simp only [Program.bind, induction]

instance : LawfulMonad Program :=
  LawfulMonad.mk' Program (fun program => bind_done program) (fun _ _ => rfl)
    (fun program first second => bind_assoc program first second)

end Program

/-- A program that may fail. -/
abbrev Action (ε α : Type) := ExceptT ε Program α

namespace Action

def read (cell : Cell) : Action StoreError Word :=
  ExceptT.mk (.read cell .done)

/-- Writes a cell; the answer is the word that it held before. -/
def write (cell : Cell) (value : Word) : Action StoreError Word :=
  ExceptT.mk (.write cell value .done)

/-- Empties a cell; the answer is the word that it held before. -/
def clear (cell : Cell) : Action StoreError Word :=
  write cell 0

def isEmptyCell (cell : Cell) : Action StoreError Bool := do
  let word ← read cell
  return word = 0

end Action

end SlotStorage
