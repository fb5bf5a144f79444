import SlotStorage.Proofs.Runs
import SlotStorage.Store.Fault

/-!
# Runs on a store that may fail

Any store call may fail, and what happens then is part of a program.  `Safe`
follows a program along every choice of failures at once: all contents on the
way have a property, and the end meets a condition.  A run under a fault plan
takes one of these ways, so its whole trace is covered.
-/

namespace SlotStorage

/-- The plan lets some call fail for the cause. -/
def FaultPlan.Causes (plan : FaultPlan) (cause : StoreError) : Prop :=
  ∃ reads writes access, plan.failure? reads writes access = some cause

namespace Program

variable {σ α β : Type}

/-- The states that a run passes through: the first one and the one after
every call. -/
def trace (backend : Backend σ) : Program α → σ → List σ
  | .done _, state => [state]
  | .read cell resume, state =>
    state :: trace backend (resume (backend.read cell state).1)
      (backend.read cell state).2
  | .write cell value resume, state =>
    state :: trace backend (resume (backend.write cell value state).1)
      (backend.write cell value state).2

/-- The last state of a run is among those it passes through. -/
theorem run_mem_trace (backend : Backend σ) (program : Program α)
    (state : σ) :
    (program.run backend state).2 ∈ program.trace backend state := by
  induction program generalizing state with
  | done result => exact List.mem_singleton_self _
  | read cell resume induction =>
      exact List.mem_cons_of_mem _ (induction _ _)
  | write cell value resume induction =>
      exact List.mem_cons_of_mem _ (induction _ _)

/-- Whichever calls fail for one of the causes, all contents are kept and the
end is reached as it should be. -/
def Safe (causes : StoreError → Prop) (keeps : Contents → Prop)
    (reaches : α → Contents → Prop) : Program α → Contents → Prop
  | .done result, contents => keeps contents ∧ reaches result contents
  | .read cell resume, contents =>
    keeps contents ∧
      Safe causes keeps reaches (resume (.ok (contents cell))) contents ∧
      ∀ cause, causes cause →
        Safe causes keeps reaches (resume (.error cause)) contents
  | .write cell value resume, contents =>
    keeps contents ∧
      Safe causes keeps reaches (resume (.ok (contents cell)))
        (contents.set cell value) ∧
      ∀ cause, causes cause →
        Safe causes keeps reaches (resume (.error cause)) contents

variable {causes : StoreError → Prop} {keeps : Contents → Prop}
  {contents : Contents}

theorem Safe.bind {middle : α → Contents → Prop}
    {reaches : β → Contents → Prop} {program : Program α}
    {next : α → Program β}
    (first : program.Safe causes keeps middle contents)
    (second : ∀ result between, keeps between → middle result between →
      (next result).Safe causes keeps reaches between) :
    (program >>= next).Safe causes keeps reaches contents := by
  change (program.bind next).Safe causes keeps reaches contents
  induction program generalizing contents with
  | done result => exact second result contents first.1 first.2
  | read cell resume induction =>
      refine ⟨first.1, induction _ first.2.1, ?_⟩
      intro cause picked
      exact induction _ (first.2.2 cause picked)
  | write cell value resume induction =>
      refine ⟨first.1, induction _ first.2.1, ?_⟩
      intro cause picked
      exact induction _ (first.2.2 cause picked)

theorem Safe.mono {weaker : Contents → Prop}
    {reaches goal : α → Contents → Prop} {program : Program α}
    (safe : program.Safe causes keeps reaches contents)
    (keepsImplies : ∀ between, keeps between → weaker between)
    (reachesImplies : ∀ result after, keeps after → reaches result after →
      goal result after) :
    program.Safe causes weaker goal contents := by
  induction program generalizing contents with
  | done result =>
      exact ⟨keepsImplies _ safe.1, reachesImplies _ _ safe.1 safe.2⟩
  | read cell resume induction =>
      refine ⟨keepsImplies _ safe.1, induction _ safe.2.1, ?_⟩
      intro cause picked
      exact induction _ (safe.2.2 cause picked)
  | write cell value resume induction =>
      refine ⟨keepsImplies _ safe.1, induction _ safe.2.1, ?_⟩
      intro cause picked
      exact induction _ (safe.2.2 cause picked)

/-- A fault plan picks one of the ways that are safe together. -/
theorem Safe.trace_run {reaches : α → Contents → Prop} {program : Program α}
    {plan : FaultPlan} (counted : Counted Contents)
    (safe : program.Safe plan.Causes keeps reaches counted.state) :
    (∀ state ∈ program.trace (Contents.backend.withFaults plan) counted,
      keeps state.state) ∧
    reaches (program.run (Contents.backend.withFaults plan) counted).1
      (program.run (Contents.backend.withFaults plan) counted).2.state := by
  induction program generalizing counted with
  | done result =>
      refine ⟨?_, safe.2⟩
      intro state member
      rw [List.mem_singleton.mp member]
      exact safe.1
  | read cell resume induction =>
      have later : (resume ((Contents.backend.withFaults plan).read cell
          counted).1).Safe plan.Causes keeps reaches
            ((Contents.backend.withFaults plan).read cell counted).2.state := by
        simp only [Backend.withFaults]
        cases picked : plan.failure? counted.reads counted.writes
            (.read cell) with
        | none => exact safe.2.1
        | some cause => exact safe.2.2 cause ⟨_, _, _, picked⟩
      obtain ⟨kept, reached⟩ := induction _ _ later
      refine ⟨?_, reached⟩
      intro state member
      rcases List.mem_cons.mp member with rfl | member
      · exact safe.1
      · exact kept state member
  | write cell value resume induction =>
      have later : (resume ((Contents.backend.withFaults plan).write cell value
          counted).1).Safe plan.Causes keeps reaches
            ((Contents.backend.withFaults plan).write cell value
              counted).2.state := by
        simp only [Backend.withFaults]
        cases picked : plan.failure? counted.reads counted.writes
            (.write cell value) with
        | none => exact safe.2.1
        | some cause => exact safe.2.2 cause ⟨_, _, _, picked⟩
      obtain ⟨kept, reached⟩ := induction _ _ later
      refine ⟨?_, reached⟩
      intro state member
      rcases List.mem_cons.mp member with rfl | member
      · exact safe.1
      · exact kept state member

/-- Wherever the run ends, the contents are kept. -/
theorem Safe.kept_run {reaches : α → Contents → Prop} {program : Program α}
    {plan : FaultPlan} (counted : Counted Contents)
    (safe : program.Safe plan.Causes keeps reaches counted.state) :
    keeps (program.run (Contents.backend.withFaults plan)
      counted).2.state := by
  have ends := safe.mono (fun _ kept => kept) (fun _ _ kept _ => kept)
  exact (ends.trace_run counted).2

/-- Calls in a row are safe if each of them is safe wherever the ones before
it may end. -/
theorem Safe.attempts {γ ε : Type} {perform : γ → Action ε α}
    {allowed : Except ε α → Prop} (stage : List γ → Contents → Prop)
    (kept : ∀ calls contents, stage calls contents → keeps contents)
    (step : ∀ call calls contents, stage (call :: calls) contents →
      (perform call).run.Safe causes (stage calls)
        (fun answer _ => allowed answer) contents)
    {calls : List γ} {contents : Contents} (start : stage calls contents) :
    (Action.attempts perform calls).Safe causes keeps
      (fun answers _ => ∀ answer ∈ answers, allowed answer) contents := by
  induction calls generalizing contents with
  | nil =>
      refine ⟨kept [] contents start, ?_⟩
      exact fun answer member => absurd member List.not_mem_nil
  | cons call calls induction =>
      have first := Safe.mono (step call calls contents start) (kept calls)
        (fun answer after staged accepted => And.intro accepted staged)
      apply first.bind
      rintro answer between _ ⟨accepted, staged⟩
      apply (induction staged).bind
      intro answers after keptAfter others
      refine ⟨keptAfter, ?_⟩
      intro other member
      rcases List.mem_cons.mp member with rfl | member
      · exact accepted
      · exact others other member

/-- Without causes to fail, the safe way is the run on total contents. -/
theorem Safe.run {reaches : α → Contents → Prop} {program : Program α}
    (safe : program.Safe (fun _ => False) keeps reaches contents) :
    reaches (program.run Contents.backend contents).1
      (program.run Contents.backend contents).2 := by
  induction program generalizing contents with
  | done result => exact safe.2
  | read cell resume induction => exact induction _ safe.2.1
  | write cell value resume induction => exact induction _ safe.2.1

end Program

namespace Layout

variable {α β : Type}

/-- How an operation may end: with a goal, or with a cause of the store. -/
def Ends (causes : StoreError → Prop) (goal : α → Contents → Prop)
    (answer : Except LayoutError α) (after : Contents) : Prop :=
  match answer with
  | .ok result => goal result after
  | .error error => ∃ cause, causes cause ∧ error = .store cause

/-- Whichever calls fail, all contents are kept, and the operation reaches the
goal unless it reports the failure of a call. -/
def Safe (causes : StoreError → Prop) (keeps : Contents → Prop)
    (action : Layout α) (before : Contents) (goal : α → Contents → Prop) :
    Prop :=
  action.run.Safe causes keeps (Ends causes goal) before

/-- The operation changes nothing and has one result, unless a call fails. -/
def Reads (causes : StoreError → Prop) (keeps : Contents → Prop)
    (action : Layout α) (contents : Contents) (result : α) : Prop :=
  Layout.Safe causes keeps action contents
    (fun answer after => answer = result ∧ after = contents)

variable {causes : StoreError → Prop} {keeps : Contents → Prop}
  {action : Layout α} {next : α → Layout β} {before : Contents}
  {goal middle : α → Contents → Prop} {last : β → Contents → Prop}
  {result : α}

theorem Safe.pure (kept : keeps before) (reached : goal result before) :
    Layout.Safe causes keeps (Pure.pure result) before goal :=
  ⟨kept, reached⟩

theorem Safe.throw {cause : StoreError} (kept : keeps before)
    (picked : causes cause) :
    Layout.Safe causes keeps (MonadExcept.throw (.store cause)) before goal :=
  ⟨kept, cause, picked, rfl⟩

theorem Safe.bind (first : Layout.Safe causes keeps action before middle)
    (second : ∀ result between, keeps between → middle result between →
      Layout.Safe causes keeps (next result) between last) :
    Layout.Safe causes keeps (action >>= next) before last := by
  change (action.run >>= ExceptT.bindCont next).Safe causes keeps
    (Ends causes last) before
  apply Program.Safe.bind first
  intro answer between kept ends
  cases answer with
  | ok result => exact second result between kept ends
  | error error => exact ⟨kept, ends⟩

/-- A program that cannot fail by itself goes on with its result. -/
theorem Safe.lift_bind {program : Program α}
    (first : program.Safe causes keeps middle before)
    (second : ∀ result between, keeps between → middle result between →
      Layout.Safe causes keeps (next result) between last) :
    Layout.Safe causes keeps (ExceptT.lift program >>= next) before last := by
  have lifted : (ExceptT.lift program : Layout α).run.Safe causes keeps
      (Ends causes middle) before := by
    apply Program.Safe.bind first
    exact fun result between kept reached => ⟨kept, reached⟩
  exact Safe.bind lifted second

/-- On a store that does not fail, a safe operation gives a result. -/
theorem Safe.runs
    (safe : Layout.Safe (fun _ => False) keeps action before goal) :
    ∃ result after, action.Runs before result after ∧ goal result after := by
  have ends := Program.Safe.run safe
  change Ends _ goal (action.runOn Contents.backend before).1
    (action.runOn Contents.backend before).2 at ends
  rcases run : action.runOn Contents.backend before with ⟨answer, after⟩
  rw [run] at ends
  cases answer with
  | ok result => exact ⟨result, after, run, ends⟩
  | error error =>
      obtain ⟨cause, impossible, _⟩ := ends
      exact impossible.elim

theorem Reads.pure (kept : keeps before) :
    Layout.Reads causes keeps (Pure.pure result) before result :=
  Safe.pure kept ⟨rfl, rfl⟩

theorem Reads.bind (first : Layout.Reads causes keeps action before result)
    (second : Layout.Safe causes keeps (next result) before last) :
    Layout.Safe causes keeps (action >>= next) before last := by
  apply Safe.bind first
  rintro answer between _ ⟨rfl, rfl⟩
  exact second

theorem Reads.runs
    (reads : Layout.Reads (fun _ => False) (fun _ => True) action before
      result) :
    action.Runs before result before := by
  obtain ⟨answer, after, runs, rfl, rfl⟩ := Safe.runs reads
  exact runs

theorem reads_read (cell : Cell) (kept : keeps before) :
    Layout.Reads causes keeps (Layout.read cell) before (before cell) := by
  refine ⟨kept, ⟨kept, rfl, rfl⟩, ?_⟩
  intro cause picked
  exact ⟨kept, cause, picked, rfl⟩

theorem safe_write (cell : Cell) (value : Word) (kept : keeps before)
    (keptAfter : keeps (before.set cell value)) :
    Layout.Safe causes keeps (Layout.write cell value) before
      (fun answer after => answer = before cell ∧
        after = before.set cell value) := by
  refine ⟨kept, ⟨keptAfter, rfl, rfl⟩, ?_⟩
  intro cause picked
  exact ⟨kept, cause, picked, rfl⟩

theorem Safe.mono (safe : Layout.Safe causes keeps action before middle)
    (implies : ∀ result after, keeps after → middle result after →
      goal result after) :
    Layout.Safe causes keeps action before goal := by
  apply Program.Safe.mono safe (fun _ kept => kept)
  intro answer after kept ends
  cases answer with
  | ok result => exact implies result after kept ends
  | error error => exact ends

theorem Safe.weaken {weaker : Contents → Prop}
    (safe : Layout.Safe causes keeps action before goal)
    (implies : ∀ between, keeps between → weaker between) :
    Layout.Safe causes weaker action before goal :=
  Program.Safe.mono safe implies (fun _ _ _ ends => ends)

theorem Safe.runs_eq {later : Contents}
    (safe : Layout.Safe (fun _ => False) (fun _ => True) action before
      (fun answer after => answer = result ∧ after = later)) :
    action.Runs before result later := by
  obtain ⟨answer, after, runs, rfl, rfl⟩ := safe.runs
  exact runs

/-- On a store that does not fail, a safe operation that keeps to an area
achieves its goal. -/
theorem Safe.achieves {area : Set Cell} {reached : Contents → Prop}
    (safe : Layout.Safe (fun _ => False) (fun _ => True) action before
      (fun answer after => answer = result ∧ before.SameOff area after ∧
        reached after)) :
    action.Achieves area before result reached := by
  obtain ⟨answer, after, runs, rfl, same, goalReached⟩ := safe.runs
  exact ⟨after, runs, same, goalReached⟩

/-- Calls in a row are safe if each of them is safe wherever the ones before
it may end. -/
theorem Safe.attempts {γ : Type} {perform : γ → Layout α}
    (stage : List γ → Contents → Prop)
    (kept : ∀ calls contents, stage calls contents → keeps contents)
    (step : ∀ call calls contents, stage (call :: calls) contents →
      Layout.Safe causes (stage calls) (perform call) contents
        (fun _ _ => True))
    {calls : List γ} {contents : Contents}
    (start : stage calls contents) :
    (Action.attempts perform calls).Safe causes keeps
      (fun answers _ => ∀ answer ∈ answers, ∀ error,
        answer = .error error → ∃ cause, causes cause ∧ error = .store cause)
      contents := by
  apply Program.Safe.attempts stage kept _ start
  intro call calls contents staged
  apply Program.Safe.mono (step call calls contents staged)
    (fun _ stillStaged => stillStaged)
  intro answer after _ ends error failed
  rw [failed] at ends
  exact ends

/-! ## Where a failure stops an operation -/

/-- How an operation may end: with a goal, on a failed call where it may be
stopped, or for a cause of its own. -/
def Halts (stopped : Contents → Prop) (goal : α → Contents → Prop)
    (answer : Except LayoutError α) (after : Contents) : Prop :=
  match answer with
  | .ok result => goal result after
  | .error (.store _) => stopped after
  | .error _ => True

/-- If a call fails, the operation stops in contents as they may be there, and
otherwise it reaches the goal. -/
def Stops (causes : StoreError → Prop) (stopped : Contents → Prop)
    (action : Layout α) (before : Contents) (goal : α → Contents → Prop) :
    Prop :=
  action.run.Safe causes (fun _ => True) (Halts stopped goal) before

/-- A store call of the operation fails and leaves the later contents. -/
def Breaks (plan : FaultPlan) (action : Layout α) (start : Counted Contents)
    (after : Contents) : Prop :=
  ∃ cause counted, action.runOn (Contents.backend.withFaults plan) start =
    (.error (.store cause), counted) ∧ counted.state = after

section Stops

variable {stopped : Contents → Prop}

theorem Stops.pure (reached : goal result before) :
    Layout.Stops causes stopped (Pure.pure result) before goal :=
  ⟨trivial, reached⟩

theorem Stops.throw (error : LayoutError) (stops : stopped before) :
    Layout.Stops causes stopped (MonadExcept.throw error) before goal := by
  refine ⟨trivial, ?_⟩
  cases error with
  | store cause => exact stops
  | indexOutOfRange index size => trivial
  | emptyArray => trivial
  | corruptLength slot => trivial
  | slotOverflow base => trivial
  | outOfRange => trivial

theorem Stops.bind
    (first : Layout.Stops causes stopped action before middle)
    (second : ∀ result between, middle result between →
      Layout.Stops causes stopped (next result) between last) :
    Layout.Stops causes stopped (action >>= next) before last := by
  change (action.run >>= ExceptT.bindCont next).Safe causes _
    (Halts stopped last) before
  apply Program.Safe.bind first
  intro answer between _ halts
  cases answer with
  | ok result => exact second result between halts
  | error error => exact ⟨trivial, by cases error <;> exact halts⟩

theorem Stops.weaken
    (stops : Layout.Stops causes stopped action before goal) :
    Layout.Stops causes stopped action before (fun _ _ => True) := by
  apply Program.Safe.mono stops (fun _ _ => trivial)
  intro answer after _ halts
  cases answer with
  | ok result => trivial
  | error error => cases error <;> exact halts

/-- An operation that keeps contents stops in kept ones. -/
theorem Safe.stops (safe : Layout.Safe causes stopped action before goal) :
    Layout.Stops causes stopped action before goal := by
  apply Program.Safe.mono safe (fun _ _ => trivial)
  intro answer after kept ends
  cases answer with
  | ok result => exact ends
  | error error =>
      obtain ⟨cause, _, rfl⟩ := ends
      exact kept

/-- An operation that only reads stops where it is. -/
theorem Reads.stops_bind
    (first : Layout.Reads causes stopped action before result)
    (second : Layout.Stops causes stopped (next result) before last) :
    Layout.Stops causes stopped (action >>= next) before last := by
  apply (Safe.stops first).bind
  rintro answer between ⟨rfl, rfl⟩
  exact second

theorem stops_write (cell : Cell) (value : Word) (stops : stopped before) :
    Layout.Stops causes stopped (Layout.write cell value) before
      (fun answer after => answer = before cell ∧
        after = before.set cell value) := by
  refine ⟨trivial, ⟨trivial, rfl, rfl⟩, ?_⟩
  intro cause _
  exact ⟨trivial, stops⟩

/-- Whichever calls a plan lets fail, the operation is stopped where it may
be. -/
theorem Stops.stopped_of_breaks {plan : FaultPlan} {start : Counted Contents}
    {after : Contents}
    (stops : Layout.Stops plan.Causes stopped action start.state goal)
    (breaks : action.Breaks plan start after) : stopped after := by
  obtain ⟨cause, counted, broken, rfl⟩ := breaks
  have halts := (Program.Safe.trace_run start stops).2
  change Halts stopped goal
    (action.runOn (Contents.backend.withFaults plan) start).1
    (action.runOn (Contents.backend.withFaults plan) start).2.state at halts
  rw [broken] at halts
  exact halts

end Stops

/-! ## Errors of every cause -/

/-- How an operation may end: with a goal, or with an error that is allowed
where it ends. -/
def Outcome (allowed : LayoutError → Contents → Prop)
    (goal : α → Contents → Prop) (answer : Except LayoutError α)
    (after : Contents) : Prop :=
  match answer with
  | .ok result => goal result after
  | .error error => allowed error after

/-- Whichever calls fail, the operation reaches the goal unless it ends with an
error that is allowed. -/
def Concludes (causes : StoreError → Prop)
    (allowed : LayoutError → Contents → Prop) (action : Layout α)
    (before : Contents) (goal : α → Contents → Prop) : Prop :=
  action.run.Safe causes (fun _ => True) (Outcome allowed goal) before

section Concludes

variable {allowed : LayoutError → Contents → Prop}

theorem Concludes.pure (reached : goal result before) :
    Layout.Concludes causes allowed (Pure.pure result) before goal :=
  ⟨trivial, reached⟩

theorem Concludes.throw {error : LayoutError} (spared : allowed error before) :
    Layout.Concludes causes allowed (MonadExcept.throw error) before goal :=
  ⟨trivial, spared⟩

theorem Concludes.bind
    (first : Layout.Concludes causes allowed action before middle)
    (second : ∀ result between, middle result between →
      Layout.Concludes causes allowed (next result) between last) :
    Layout.Concludes causes allowed (action >>= next) before last := by
  change (action.run >>= ExceptT.bindCont next).Safe causes _
    (Outcome allowed last) before
  apply Program.Safe.bind first
  intro answer between _ outcome
  cases answer with
  | ok result => exact second result between outcome
  | error error => exact ⟨trivial, outcome⟩

/-- A program that cannot fail by itself goes on with its result. -/
theorem Concludes.lift_bind {program : Program α}
    (first : program.Safe causes (fun _ => True) middle before)
    (second : ∀ result between, middle result between →
      Layout.Concludes causes allowed (next result) between last) :
    Layout.Concludes causes allowed (ExceptT.lift program >>= next) before
      last := by
  have lifted : Layout.Concludes causes allowed (ExceptT.lift program) before
      middle :=
    Program.Safe.bind first fun _ _ _ reached => ⟨trivial, reached⟩
  exact lifted.bind second

theorem Concludes.mono
    (concludes : Layout.Concludes causes allowed action before middle)
    (implies : ∀ result after, middle result after → goal result after) :
    Layout.Concludes causes allowed action before goal := by
  apply Program.Safe.mono concludes (fun _ _ => trivial)
  intro answer after _ outcome
  cases answer with
  | ok result => exact implies result after outcome
  | error error => exact outcome

theorem concludes_read (cell : Cell)
    (spared : ∀ cause, causes cause → allowed (.store cause) before) :
    Layout.Concludes causes allowed (Layout.read cell) before
      (fun answer after => answer = before cell ∧ after = before) := by
  refine ⟨trivial, ⟨trivial, rfl, rfl⟩, ?_⟩
  exact fun cause picked => ⟨trivial, spared cause picked⟩

theorem concludes_write (cell : Cell) (value : Word)
    (spared : ∀ cause, causes cause → allowed (.store cause) before) :
    Layout.Concludes causes allowed (Layout.write cell value) before
      (fun answer after => answer = before cell ∧
        after = before.set cell value) := by
  refine ⟨trivial, ⟨trivial, rfl, rfl⟩, ?_⟩
  exact fun cause picked => ⟨trivial, spared cause picked⟩

theorem concludes_require {error : LayoutError} {value : Option α}
    (spared : value = none → allowed error before) :
    Layout.Concludes causes allowed (Layout.require error value) before
      (fun result after => value = some result ∧ after = before) := by
  cases value with
  | none => exact Concludes.throw (spared rfl)
  | some result => exact Concludes.pure ⟨rfl, rfl⟩

theorem Concludes.weaken
    (concludes : Layout.Concludes causes allowed action before goal) :
    Layout.Concludes causes allowed action before (fun _ _ => True) :=
  concludes.mono fun _ _ _ => trivial

/-- Whichever calls a plan lets fail, the operation ends as it may. -/
theorem Concludes.outcome {plan : FaultPlan} {start : Counted Contents}
    (concludes : Layout.Concludes plan.Causes allowed action start.state
      goal) :
    Outcome allowed goal
      (action.runOn (Contents.backend.withFaults plan) start).1
      (action.runOn (Contents.backend.withFaults plan) start).2.state :=
  (Program.Safe.trace_run start concludes).2

/-- Whichever calls a plan lets fail, an error of the operation is an allowed
one. -/
theorem Concludes.allowed_of_error {plan : FaultPlan}
    {start : Counted Contents} {error : LayoutError}
    (concludes : Layout.Concludes plan.Causes allowed action start.state goal)
    (failed : (action.runOn (Contents.backend.withFaults plan) start).1 =
      .error error) :
    allowed error
      (action.runOn (Contents.backend.withFaults plan) start).2.state := by
  have outcome := concludes.outcome
  rw [failed] at outcome
  exact outcome

/-- On a store that does not fail, the operation ends as it may. -/
theorem Concludes.outcome_run
    (concludes : Layout.Concludes (fun _ => False) allowed action before
      goal) :
    Outcome allowed goal (action.runOn Contents.backend before).1
      (action.runOn Contents.backend before).2 :=
  Program.Safe.run concludes

/-- On a store that does not fail, an error of the operation is an allowed
one. -/
theorem Concludes.allowed_of_fails {error : LayoutError} {after : Contents}
    (concludes : Layout.Concludes (fun _ => False) allowed action before goal)
    (fails : action.Fails before error after) : allowed error after := by
  have outcome := concludes.outcome_run
  rw [fails] at outcome
  exact outcome

/-- On a store that does not fail, a result is a goal. -/
theorem Concludes.reached_of_runs {after : Contents}
    (concludes : Layout.Concludes (fun _ => False) allowed action before goal)
    (runs : action.Runs before result after) : goal result after := by
  have outcome := concludes.outcome_run
  rw [runs] at outcome
  exact outcome

/-- On a store that does not fail, an operation ends with an allowed error or
with a result that is a goal. -/
theorem Concludes.fails_or_runs
    (concludes : Layout.Concludes (fun _ => False) allowed action before
      goal) :
    (∃ error after, action.Fails before error after ∧ allowed error after) ∨
      ∃ result after, action.Runs before result after ∧ goal result after := by
  have outcome := concludes.outcome_run
  rcases run : action.runOn Contents.backend before with ⟨answer, after⟩
  rw [run] at outcome
  cases answer with
  | ok result => exact .inr ⟨result, after, run, outcome⟩
  | error error => exact .inl ⟨error, after, run, outcome⟩

/-- On a store that does not fail, an operation whose goal is out of reach ends
with an allowed error. -/
theorem Concludes.exists_fails
    (concludes : Layout.Concludes (fun _ => False) allowed action before goal)
    (missed : ∀ result after, ¬ goal result after) :
    ∃ error after, action.Fails before error after ∧ allowed error after := by
  rcases concludes.fails_or_runs with fails | ⟨result, after, _, reached⟩
  · exact fails
  · exact absurd reached (missed result after)

/-- On a store that does not fail, an operation gives a result if no error is
allowed. -/
theorem Concludes.exists_runs
    (concludes : Layout.Concludes (fun _ => False) (fun _ _ => False) action
      before goal) :
    ∃ result after, action.Runs before result after ∧ goal result after := by
  rcases concludes.fails_or_runs with ⟨_, _, _, impossible⟩ | runs
  · exact impossible.elim
  · exact runs

end Concludes

end Layout

end SlotStorage
