import SlotStorage.Store.Program

/-!
# Backends

A backend answers store calls and keeps the state that the answers come from.
Running a program on a backend makes its calls one after the other.  The
plainest backend is a total function from cells to words; it never fails.
-/

namespace SlotStorage

/-- How the calls of a program are answered over states of type `σ`. -/
structure Backend (σ : Type) where
  read : Cell → σ → Except StoreError Word × σ
  write : Cell → Word → σ → Except StoreError Word × σ

/-- Makes the calls of a program on a backend, from the given state. -/
def Program.run {σ α : Type} (backend : Backend σ) : Program α → σ → α × σ
  | .done result, state => (result, state)
  | .read cell resume, state =>
    let (answer, state) := backend.read cell state
    (resume answer).run backend state
  | .write cell value resume, state =>
    let (answer, state) := backend.write cell value state
    (resume answer).run backend state

theorem Program.run_bind {σ α β : Type} (backend : Backend σ)
    (program : Program α) (next : α → Program β) (state : σ) :
    (program >>= next).run backend state =
      (next (program.run backend state).1).run backend
        (program.run backend state).2 := by
  change (program.bind next).run backend state = _
  induction program generalizing state with
  | done result => rfl
  | read cell resume induction => exact induction _ _
  | write cell value resume induction => exact induction _ _

/-- Makes the calls of a program that may fail on a backend. -/
def Action.runOn {σ ε α : Type} (backend : Backend σ) (action : Action ε α)
    (state : σ) : Except ε α × σ :=
  Program.run backend (ExceptT.run action) state

namespace Action

variable {σ ε α β : Type}

@[simp] theorem runOn_pure (backend : Backend σ) (result : α) (state : σ) :
    (pure result : Action ε α).runOn backend state = (.ok result, state) :=
  rfl

@[simp] theorem runOn_throw (backend : Backend σ) (error : ε) (state : σ) :
    (throw error : Action ε α).runOn backend state = (.error error, state) :=
  rfl

/-- A second action runs on the state that a first one leaves, unless the first
one fails. -/
theorem runOn_bind (backend : Backend σ) (action : Action ε α)
    (next : α → Action ε β) (state : σ) :
    (action >>= next).runOn backend state =
      match action.runOn backend state with
      | (.ok result, later) => (next result).runOn backend later
      | (.error error, later) => (.error error, later) := by
  have both : (action >>= next).runOn backend state =
      (ExceptT.run action >>= ExceptT.bindCont next).run backend state :=
    rfl
  rw [both, Program.run_bind]
  rcases first : action.runOn backend state with ⟨answer, later⟩
  have run : (ExceptT.run action).run backend state = (answer, later) := first
  rw [run]
  cases answer with
  | ok result => rfl
  | error error => rfl

end Action

/-- What all the cells hold. -/
abbrev Contents := Cell → Word

namespace Contents

def empty : Contents := fun _ => 0

def set (contents : Contents) (cell : Cell) (value : Word) : Contents :=
  fun other => if other = cell then value else contents other

@[simp] theorem set_same (contents : Contents) (cell : Cell) (value : Word) :
    contents.set cell value cell = value := by
  simp [set]

@[simp] theorem set_other {cell other : Cell} (different : other ≠ cell)
    (contents : Contents) (value : Word) :
    contents.set cell value other = contents other := by
  simp [set, different]

/-- Of two writes to a cell the later one counts. -/
@[simp] theorem set_set (contents : Contents) (cell : Cell)
    (first second : Word) :
    (contents.set cell first).set cell second = contents.set cell second := by
  funext other
  by_cases same : other = cell
  · simp [set, same]
  · simp [set, same]

/-- Writing what a cell holds changes nothing. -/
theorem set_eq_self {contents : Contents} {cell : Cell} {value : Word}
    (held : contents cell = value) : contents.set cell value = contents := by
  funext other
  by_cases same : other = cell
  · rw [same, set_same, held]
  · rw [set_other same]

def backend : Backend Contents where
  read cell contents := (.ok (contents cell), contents)
  write cell value contents := (.ok (contents cell), contents.set cell value)

end Contents

end SlotStorage
