import SlotStorage.Proofs.Operations

/-!
# The first failure ends an operation

An operation on which a store call fails answers with that failure.  It has
made the calls of an undisturbed run up to the failing one and makes no more,
so the store is left as it was before that call.  A failure planned for later
than the last call does not show.
-/

namespace SlotStorage

namespace Operation

variable [Compression]

/-- The call after `count` others fails, if the operation makes so many.  An
append at the largest length makes two calls and then answers `outOfRange`,
which stands for the overflow at which its run stops. -/
theorem failure_reported (operation : Operation) (before : Contents)
    (count : Nat) (cause : StoreError) :
    let failing := Contents.backend.withFaults (.afterCalls count cause)
    let start : Counted Contents := { state := before }
    let calls := operation.program.calls Contents.backend before
    let states := operation.program.trace Contents.backend before
    let outcome := operation.program.run failing start
    if count < calls.length then
      outcome.1 = operation.failure cause ∧
      operation.program.calls failing start = calls.take (count + 1) ∧
      states[count]? = some outcome.2.state
    else
      (outcome.1, outcome.2.state) =
        operation.program.run Contents.backend before ∧
      operation.program.calls failing start = calls := by
  intro failing start calls states outcome
  have plan : failing = Program.failing start count cause := by
    simp only [failing, start, Program.failing, Nat.zero_add]
  split
  · have ends := operation.orderly.reports.run_failing start cause ‹_›
    rwa [← plan] at ends
  · have ended : calls.length ≤ count := Nat.le_of_not_lt ‹_›
    have ends := Program.run_spared start cause ended
    rw [← plan] at ends
    exact ⟨Prod.ext ends.1 ends.2.1, ends.2.2⟩

end Operation

/-- Appending reads the length, writes the element and writes the length.  If
the last of these fails, the element stands beyond the array. -/
example :
    letI := Compression.plain
    let array : DynamicArray := ⟨⟨1⟩, ⟨5⟩⟩
    let append : Operation := .onArray array (.append 7)
    let failing := Contents.backend.withFaults
      (.afterCalls 2 (.backend "full"))
    let outcome := append.program.run failing { state := .empty }
    outcome.1 = .error (.store (.backend "full")) ∧
      outcome.2.state array.lengthCell = 0 ∧
      outcome.2.state ⟨⟨1⟩, ⟨6⟩⟩ = 7 :=
  ⟨rfl, by decide +kernel, by decide +kernel⟩

end SlotStorage
