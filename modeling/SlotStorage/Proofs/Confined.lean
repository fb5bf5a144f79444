import SlotStorage.Proofs.Runs

/-!
# Programs that keep to namespaces

A program is confined to some namespaces if all its calls are for cells of
them, whatever is answered.  Then nothing else influences its result, and it
changes nothing else.
-/

namespace SlotStorage

/-- Two contents do not differ in the namespaces. -/
def Contents.AgreeOn (spaces : Set Namespace) (left right : Contents) :
    Prop :=
  ∀ cell, cell.space ∈ spaces → left cell = right cell

theorem Contents.AgreeOn.set {spaces : Set Namespace}
    {left right : Contents} (agree : left.AgreeOn spaces right) (cell : Cell)
    (value : Word) :
    (left.set cell value).AgreeOn spaces (right.set cell value) := by
  intro other inside
  by_cases same : other = cell
  · rw [same, Contents.set_same, Contents.set_same]
  · rw [Contents.set_other same, Contents.set_other same, agree other inside]

namespace Program

variable {α β : Type} {spaces : Set Namespace}

/-- Whatever is answered, all calls are for cells of the namespaces, and the
result is as it should be. -/
def Yields (spaces : Set Namespace) (expected : α → Prop) :
    Program α → Prop
  | .done result => expected result
  | .read cell resume =>
    cell.space ∈ spaces ∧ ∀ answer, (resume answer).Yields spaces expected
  | .write cell _ resume =>
    cell.space ∈ spaces ∧ ∀ answer, (resume answer).Yields spaces expected

/-- Whatever is answered, all calls are for cells of the namespaces. -/
def Confined (spaces : Set Namespace) (program : Program α) : Prop :=
  program.Yields spaces fun _ => True

theorem Yields.bind {middle : α → Prop} {expected : β → Prop}
    {program : Program α} {next : α → Program β}
    (first : program.Yields spaces middle)
    (second : ∀ result, middle result →
      (next result).Yields spaces expected) :
    (program >>= next).Yields spaces expected := by
  change (program.bind next).Yields spaces expected
  induction program with
  | done result => exact second result first
  | read cell resume induction =>
      exact ⟨first.1, fun answer => induction answer (first.2 answer)⟩
  | write cell value resume induction =>
      exact ⟨first.1, fun answer => induction answer (first.2 answer)⟩

theorem Yields.mono {larger : Set Namespace} {expected weaker : α → Prop}
    {program : Program α} (yields : program.Yields spaces expected)
    (within : spaces ⊆ larger)
    (implies : ∀ result, expected result → weaker result) :
    program.Yields larger weaker := by
  induction program with
  | done result => exact implies result yields
  | read cell resume induction =>
      exact ⟨within yields.1,
        fun answer => induction answer (yields.2 answer)⟩
  | write cell value resume induction =>
      exact ⟨within yields.1,
        fun answer => induction answer (yields.2 answer)⟩

/-- What follows on a program matters on the results it may give only. -/
theorem Yields.bind_congr {expected : α → Prop} {program : Program α}
    {next other : α → Program β} (yields : program.Yields spaces expected)
    (same : ∀ result, expected result → next result = other result) :
    program >>= next = program >>= other := by
  change program.bind next = program.bind other
  induction program with
  | done result => exact same result yields
  | read cell resume induction =>
      have resumes := funext fun answer => induction answer (yields.2 answer)
      exact congrArg (Program.read cell) resumes
  | write cell value resume induction =>
      have resumes := funext fun answer => induction answer (yields.2 answer)
      exact congrArg (Program.write cell value) resumes

theorem Confined.mono {larger : Set Namespace} {program : Program α}
    (confined : program.Confined spaces) (within : spaces ⊆ larger) :
    program.Confined larger :=
  Yields.mono confined within fun _ _ => trivial

/-- The result and the cells of the namespaces do not depend on any other
cell. -/
theorem Confined.run_agree {program : Program α}
    (confined : program.Confined spaces) {left right : Contents}
    (agree : left.AgreeOn spaces right) :
    (program.run Contents.backend left).1 =
        (program.run Contents.backend right).1 ∧
      (program.run Contents.backend left).2.AgreeOn spaces
        (program.run Contents.backend right).2 := by
  induction program generalizing left right with
  | done result => exact ⟨rfl, agree⟩
  | read cell resume induction =>
      have answers : left cell = right cell := agree cell confined.1
      have later := induction (.ok (left cell)) (confined.2 _) agree
      simp only [run, Contents.backend] at later ⊢
      rwa [← answers]
  | write cell value resume induction =>
      have answers : left cell = right cell := agree cell confined.1
      have later := induction (.ok (left cell)) (confined.2 _)
        (agree.set cell value)
      simp only [run, Contents.backend] at later ⊢
      rwa [← answers]

/-- No cell of another namespace changes. -/
theorem Confined.run_outside {program : Program α}
    (confined : program.Confined spaces) (before : Contents) {cell : Cell}
    (outside : cell.space ∉ spaces) :
    (program.run Contents.backend before).2 cell = before cell := by
  induction program generalizing before with
  | done result => rfl
  | read other resume induction =>
      exact induction _ (confined.2 _) before
  | write other value resume induction =>
      have different : cell ≠ other := by
        rintro rfl
        exact outside confined.1
      exact (induction _ (confined.2 _) (before.set other value)).trans
        (Contents.set_other different before value)

end Program

/-- The same for a program that goes before an action. -/
theorem Action.lift_bind_congr {ε α β : Type} {spaces : Set Namespace}
    {expected : α → Prop} {program : Program α} {next other : α → Action ε β}
    (yields : program.Yields spaces expected)
    (same : ∀ result, expected result → next result = other result) :
    ExceptT.lift program >>= next = ExceptT.lift program >>= other := by
  have lifted : (ExceptT.lift program : Action ε α).run.Yields spaces
      (fun answer => ∃ result, answer = .ok result ∧ expected result) :=
    yields.bind fun result reached => ⟨result, rfl, reached⟩
  apply lifted.bind_congr
  rintro _ ⟨result, rfl, reached⟩
  exact same result reached

end SlotStorage
