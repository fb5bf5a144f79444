import SlotStorage.Proofs.Faults

/-!
# Failures that end a program

A program reports failures if a call that fails is its last one and the result
tells of that failure.  Then a run on which some call fails is a beginning of
the run on which none does: the calls up to the failing one are the same, and
the contents are those that the calls before it have left.
-/

namespace SlotStorage

namespace Program

variable {σ α β : Type} {told : StoreError → α}

/-- The calls that a run makes, in order; one that fails is among them. -/
def calls (backend : Backend σ) : Program α → σ → List Access
  | .done _, _ => []
  | .read cell resume, state =>
    .read cell :: calls backend (resume (backend.read cell state).1)
      (backend.read cell state).2
  | .write cell value resume, state =>
    .write cell value :: calls backend
      (resume (backend.write cell value state).1)
      (backend.write cell value state).2

/-- Whatever is answered before, a call that fails is the last one, and its
failure makes the result. -/
def Reports (told : StoreError → α) : Program α → Prop
  | .done _ => True
  | .read _ resume =>
    (∀ cause, resume (.error cause) = .done (told cause)) ∧
      ∀ word, (resume (.ok word)).Reports told
  | .write _ _ resume =>
    (∀ cause, resume (.error cause) = .done (told cause)) ∧
      ∀ word, (resume (.ok word)).Reports told

/-- The plan that fails the call after `left` more calls, from the counts of
the calls made so far. -/
abbrev failing (counted : Counted Contents) (left : Nat) (cause : StoreError) :
    Backend (Counted Contents) :=
  Contents.backend.withFaults
    (.afterCalls (counted.reads + counted.writes + left) cause)

section Steps

variable (counted : Counted Contents) (left : Nat) (cause : StoreError)
  (cell : Cell) (value : Word)

theorem failing_read_now :
    (failing counted 0 cause).read cell counted =
      (.error cause, { counted with reads := counted.reads + 1 }) := by
  simp [failing, Backend.withFaults, FaultPlan.afterCalls]

theorem failing_write_now :
    (failing counted 0 cause).write cell value counted =
      (.error cause, { counted with writes := counted.writes + 1 }) := by
  simp [failing, Backend.withFaults, FaultPlan.afterCalls]

theorem failing_read_later :
    (failing counted (left + 1) cause).read cell counted =
      (.ok (counted.state cell),
        { counted with reads := counted.reads + 1 }) := by
  simp [failing, Backend.withFaults, FaultPlan.afterCalls, Contents.backend]

theorem failing_write_later :
    (failing counted (left + 1) cause).write cell value counted =
      (.ok (counted.state cell),
        { counted with
          state := counted.state.set cell value
          writes := counted.writes + 1 }) := by
  simp [failing, Backend.withFaults, FaultPlan.afterCalls, Contents.backend]

/-- After a call that was spared, the plan is one call closer. -/
theorem failing_next {later : Counted Contents}
    (counts : later.reads + later.writes =
      counted.reads + counted.writes + 1) :
    failing counted (left + 1) cause = failing later left cause := by
  have same : counted.reads + counted.writes + (left + 1) =
      later.reads + later.writes + left := by omega
  unfold failing
  rw [same]

end Steps

variable {program : Program α}

/-- If the run makes more calls than are spared, the next one is the last: it
makes the result, and the contents are those before it. -/
theorem Reports.run_failing (reports : program.Reports told)
    (counted : Counted Contents) {left : Nat} (cause : StoreError)
    (reached : left < (program.calls Contents.backend counted.state).length) :
    (program.run (failing counted left cause) counted).1 = told cause ∧
    program.calls (failing counted left cause) counted =
      (program.calls Contents.backend counted.state).take (left + 1) ∧
    (program.trace Contents.backend counted.state)[left]? =
      some (program.run (failing counted left cause) counted).2.state := by
  -- The plan counts from the start of the run, and `failing` from the calls
  -- made so far: a call that is spared leaves the plan and lowers the rest.
  induction program generalizing counted left with
  | done result => exact absurd reached (Nat.not_lt_zero left)
  | read cell resume induction =>
      cases left with
      | zero =>
          simp only [run, calls, failing_read_now, reports.1 cause, true_and]
          exact ⟨rfl, rfl⟩
      | succ left =>
          obtain ⟨answer, made, state⟩ := induction _
            (reports.2 (counted.state cell))
            { counted with reads := counted.reads + 1 }
            (Nat.lt_of_succ_lt_succ reached)
          rw [← failing_next counted left cause (by simp only; omega)]
            at answer made state
          simp only [run, calls, failing_read_later]
          exact ⟨answer, congrArg (List.cons _) made, state⟩
  | write cell value resume induction =>
      cases left with
      | zero =>
          simp only [run, calls, failing_write_now, reports.1 cause, true_and]
          exact ⟨rfl, rfl⟩
      | succ left =>
          obtain ⟨answer, made, state⟩ := induction _
            (reports.2 (counted.state cell))
            ⟨counted.state.set cell value, counted.reads, counted.writes + 1⟩
            (Nat.lt_of_succ_lt_succ reached)
          rw [← failing_next counted left cause (by simp only; omega)]
            at answer made state
          simp only [run, calls, failing_write_later]
          exact ⟨answer, congrArg (List.cons _) made, state⟩

/-- If the run ends before, no failure shows. -/
theorem run_spared (counted : Counted Contents) {left : Nat}
    (cause : StoreError)
    (ended : (program.calls Contents.backend counted.state).length ≤ left) :
    (program.run (failing counted left cause) counted).1 =
      (program.run Contents.backend counted.state).1 ∧
    (program.run (failing counted left cause) counted).2.state =
      (program.run Contents.backend counted.state).2 ∧
    program.calls (failing counted left cause) counted =
      program.calls Contents.backend counted.state := by
  induction program generalizing counted left with
  | done result => exact ⟨rfl, rfl, rfl⟩
  | read cell resume induction =>
      cases left with
      | zero => exact absurd ended (Nat.not_succ_le_zero _)
      | succ left =>
          obtain ⟨answer, state, made⟩ := induction _
            { counted with reads := counted.reads + 1 }
            (Nat.le_of_succ_le_succ ended)
          rw [← failing_next counted left cause (by simp only; omega)]
            at answer state made
          simp only [run, calls, failing_read_later]
          exact ⟨answer, state, congrArg (List.cons _) made⟩
  | write cell value resume induction =>
      cases left with
      | zero => exact absurd ended (Nat.not_succ_le_zero _)
      | succ left =>
          obtain ⟨answer, state, made⟩ := induction _
            ⟨counted.state.set cell value, counted.reads, counted.writes + 1⟩
            (Nat.le_of_succ_le_succ ended)
          rw [← failing_next counted left cause (by simp only; omega)]
            at answer state made
          simp only [run, calls, failing_write_later]
          exact ⟨answer, state, congrArg (List.cons _) made⟩

end Program

end SlotStorage
