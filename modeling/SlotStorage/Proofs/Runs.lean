import SlotStorage.Layout.Action
import SlotStorage.Proofs.Cells
import SlotStorage.Store.Backend

/-!
# Runs on a store that does not fail

`Runs` says that an action gives a result and leaves certain contents.
`Achieves` says less and composes better: the action gives a result, changes
cells of an area only, and reaches contents with a property.  Both follow the
steps of an action one after the other.
-/

namespace SlotStorage

namespace Contents

variable {area larger : Set Cell} {before between after : Contents}

/-- Two contents that differ at most on an area. -/
def SameOff (area : Set Cell) (before after : Contents) : Prop :=
  ∀ cell, cell ∉ area → after cell = before cell

theorem SameOff.refl (area : Set Cell) (contents : Contents) :
    SameOff area contents contents :=
  fun _ _ => rfl

theorem SameOff.trans (first : SameOff area before between)
    (second : SameOff area between after) : SameOff area before after := by
  intro cell outside
  rw [second cell outside, first cell outside]

theorem SameOff.mono (same : SameOff area before after)
    (within : area ⊆ larger) : SameOff larger before after :=
  fun cell outside => same cell fun member => outside (within member)

/-- A write inside an area does not show outside it. -/
theorem set_outside {cell other : Cell} (inside : cell ∈ area)
    (outside : other ∉ area) (contents : Contents) (value : Word) :
    contents.set cell value other = contents other := by
  apply Contents.set_other
  rintro rfl
  exact outside inside

theorem SameOff.set (same : SameOff area before after) {cell : Cell}
    (inside : cell ∈ area) (value : Word) :
    SameOff area before (after.set cell value) := by
  intro other outside
  rw [Contents.set_outside inside outside, same other outside]

end Contents

namespace Action

variable {ε α β : Type}

/-- The action gives the result and leaves the later contents. -/
def Runs (action : Action ε α) (before : Contents) (result : α)
    (after : Contents) : Prop :=
  action.runOn Contents.backend before = (.ok result, after)

/-- The action fails and leaves the later contents. -/
def Fails (action : Action ε α) (before : Contents) (error : ε)
    (after : Contents) : Prop :=
  action.runOn Contents.backend before = (.error error, after)

/-- The action gives the result, keeps to the area and reaches the goal. -/
def Achieves (action : Action ε α) (area : Set Cell) (before : Contents)
    (result : α) (goal : Contents → Prop) : Prop :=
  ∃ after, action.Runs before result after ∧
    before.SameOff area after ∧ goal after

/-- Makes calls one after the other.  A call that fails ends that call only,
and the answers tell how each one went. -/
def attempts {γ : Type} (perform : γ → Action ε α) :
    List γ → Program (List (Except ε α))
  | [] => pure []
  | call :: calls => do
    let answer ← (perform call).run
    let answers ← attempts perform calls
    return answer :: answers

variable {action : Action ε α} {next : α → Action ε β} {area larger : Set Cell}
  {before between after : Contents} {result : α} {answer : β}
  {middle goal : Contents → Prop}

theorem Runs.result_eq (first : action.Runs before result between)
    {other : α} (second : action.Runs before other after) : result = other := by
  have same : (Except.ok result, between) = (Except.ok other, after) :=
    first.symm.trans second
  exact Except.ok.inj (congrArg Prod.fst same)

theorem Runs.pure (result : α) (contents : Contents) :
    (Pure.pure result : Action ε α).Runs contents result contents :=
  rfl

theorem Runs.bind (first : action.Runs before result between)
    (second : (next result).Runs between answer after) :
    (action >>= next).Runs before answer after := by
  unfold Runs at first second ⊢
  rw [runOn_bind, first]
  exact second

/-- The first failure is the failure of both actions. -/
theorem Fails.bind {error : ε} (first : action.Fails before error after) :
    (action >>= next).Fails before error after := by
  unfold Fails at first ⊢
  rw [runOn_bind, first]

theorem Runs.bind_fails {error : ε} (first : action.Runs before result between)
    (second : (next result).Fails between error after) :
    (action >>= next).Fails before error after := by
  unfold Runs at first
  unfold Fails at second ⊢
  rw [runOn_bind, first]
  exact second

theorem Runs.bind_achieves (first : action.Runs before result before)
    (second : (next result).Achieves area before answer goal) :
    (action >>= next).Achieves area before answer goal := by
  obtain ⟨last, runs, same, reached⟩ := second
  exact ⟨last, first.bind runs, same, reached⟩

theorem Runs.achieves (runs : action.Runs before result after)
    (same : before.SameOff area after) (reached : goal after) :
    action.Achieves area before result goal :=
  ⟨after, runs, same, reached⟩

theorem Achieves.pure (area : Set Cell) (result : α) {contents : Contents}
    (reached : goal contents) :
    (Pure.pure result : Action ε α).Achieves area contents result goal :=
  ⟨contents, rfl, .refl area contents, reached⟩

theorem Achieves.bind (first : action.Achieves area before result middle)
    (within : area ⊆ larger)
    (second : ∀ between, before.SameOff area between → middle between →
      (next result).Achieves larger between answer goal) :
    (action >>= next).Achieves larger before answer goal := by
  obtain ⟨between, firstRuns, firstSame, reached⟩ := first
  obtain ⟨after, secondRuns, secondSame, goalReached⟩ :=
    second between firstSame reached
  exact ⟨after, firstRuns.bind secondRuns,
    (firstSame.mono within).trans secondSame, goalReached⟩

theorem Achieves.mono (achieves : action.Achieves area before result middle)
    (within : area ⊆ larger)
    (implies : ∀ after, before.SameOff area after → middle after →
      goal after) :
    action.Achieves larger before result goal := by
  obtain ⟨after, runs, same, reached⟩ := achieves
  exact ⟨after, runs, same.mono within, implies after same reached⟩

theorem run_attempts_cons {γ : Type} {perform : γ → Action ε α} {call : γ}
    {calls : List γ} {outcome : Except ε α} {outcomes : List (Except ε α)}
    (first : (perform call).runOn Contents.backend before =
      (outcome, between))
    (others : (attempts perform calls).run Contents.backend between =
      (outcomes, after)) :
    (attempts perform (call :: calls)).run Contents.backend before =
      (outcome :: outcomes, after) := by
  have head : Program.run Contents.backend (ExceptT.run (perform call))
      before = (outcome, between) := first
  rw [attempts, Program.run_bind, head, Program.run_bind, others]
  rfl

end Action

namespace Layout

variable {α : Type}

theorem runs_read (cell : Cell) (contents : Contents) :
    (Layout.read cell).Runs contents (contents cell) contents :=
  rfl

theorem runs_write (cell : Cell) (value : Word) (contents : Contents) :
    (Layout.write cell value).Runs contents (contents cell)
      (contents.set cell value) :=
  rfl

/-- A write changes its own cell only. -/
theorem achieves_write (cell : Cell) (value : Word) (contents : Contents) :
    (Layout.write cell value).Achieves {cell} contents (contents cell)
      (fun after => after = contents.set cell value) :=
  (runs_write cell value contents).achieves
    ((Contents.SameOff.refl {cell} contents).set (Set.mem_singleton cell)
      value) rfl

theorem require_some (error : LayoutError) (value : α) :
    Layout.require error (some value) = pure value :=
  rfl

theorem sum_eq {left right : Nat} (fits : left + right < Word.countBound) :
    Layout.sum left right = pure (left + right) := by
  rw [Layout.sum, if_pos fits]

theorem difference_eq {left right : Nat} (ordered : right ≤ left) :
    Layout.difference left right = pure (left - right) := by
  rw [Layout.difference, if_pos ordered]

theorem firstBytes_eq {count : Nat} {bytes : Bytes}
    (enough : count ≤ bytes.length) :
    Layout.firstBytes count bytes = pure (bytes.take count) := by
  rw [Layout.firstBytes, if_pos enough]

end Layout

end SlotStorage
