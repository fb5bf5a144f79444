import SlotStorage.Proofs.Layout.Outcomes

/-!
# Clearing a set on any contents

The positions that a clearing empties may lie anywhere: the hash function may
lead to the length of the set itself or to members that are still to be
visited.  But only zeros are written, so the length that a visit reads anew at
every step never grows.  The visit comes to its end within as many members as
there were at first, and the set is empty afterwards.
-/

namespace SlotStorage

/-- Every cell is as it was before, or empty. -/
def Contents.Fades (before after : Contents) : Prop :=
  ∀ cell, after cell = before cell ∨ after cell = 0

namespace Contents.Fades

variable {before between after : Contents}

theorem refl (contents : Contents) : contents.Fades contents :=
  fun _ => .inl rfl

theorem trans (first : before.Fades between) (second : between.Fades after) :
    before.Fades after := by
  intro cell
  rcases second cell with same | empty
  · rw [same]
    exact first cell
  · exact .inr empty

theorem set_zero (contents : Contents) (cell : Cell) :
    contents.Fades (contents.set cell 0) := by
  intro other
  by_cases same : other = cell
  · rw [same]
    exact .inr (Contents.set_same _ _ _)
  · exact .inl (Contents.set_other same _ _)

theorem claimed_le (fades : before.Fades after) (array : DynamicArray) :
    array.claimed after ≤ array.claimed before := by
  unfold DynamicArray.claimed
  rcases fades array.lengthCell with same | empty
  · rw [same]
  · rw [empty]
    exact Nat.zero_le _

end Contents.Fades

/-! ## Programs that write zeros only -/

namespace Program

variable {α β : Type}

/-- Whatever is answered, only zeros are written. -/
def Erases : Program α → Prop
  | .done _ => True
  | .read _ resume => ∀ answer, (resume answer).Erases
  | .write _ value resume => value = 0 ∧ ∀ answer, (resume answer).Erases

theorem Erases.bind {program : Program α} {next : α → Program β}
    (first : program.Erases) (second : ∀ result, (next result).Erases) :
    (program >>= next).Erases := by
  change (program.bind next).Erases
  induction program with
  | done result => exact second result
  | read cell resume induction =>
      exact fun answer => induction answer (first answer)
  | write cell value resume induction =>
      exact ⟨first.1, fun answer => induction answer (first.2 answer)⟩

/-- At every moment of the run all cells are as before or empty. -/
theorem Erases.fades_of_mem_trace {program : Program α}
    (erases : program.Erases) {before between : Contents}
    (passed : between ∈ program.trace Contents.backend before) :
    before.Fades between := by
  induction program generalizing before with
  | done result =>
      rw [List.mem_singleton.mp passed]
      exact .refl before
  | read cell resume induction =>
      rcases List.mem_cons.mp passed with rfl | later
      · exact .refl between
      · exact induction _ (erases _) later
  | write cell value resume induction =>
      obtain ⟨rfl, others⟩ := erases
      rcases List.mem_cons.mp passed with rfl | later
      · exact .refl between
      · exact (Contents.Fades.set_zero before cell).trans
          (induction _ (others _) later)

end Program

namespace Action

variable {ε α β : Type}

/-- Whatever is answered, the action writes zeros only. -/
def Erases (action : Action ε α) : Prop :=
  action.run.Erases

theorem Erases.pure (result : α) :
    Action.Erases (Pure.pure result : Action ε α) :=
  trivial

theorem Erases.throw (error : ε) :
    Action.Erases (MonadExcept.throw error : Action ε α) :=
  trivial

theorem Erases.bind {action : Action ε α} {next : α → Action ε β}
    (first : action.Erases) (second : ∀ result, (next result).Erases) :
    Action.Erases (action >>= next) := by
  change (action.run >>= ExceptT.bindCont next).Erases
  apply Program.Erases.bind first
  intro answer
  cases answer with
  | ok result => exact second result
  | error error => trivial

theorem Erases.lift_bind {program : Program α} {next : α → Action ε β}
    (first : program.Erases) (second : ∀ result, (next result).Erases) :
    Action.Erases (ExceptT.lift program >>= next) := by
  have lifted : Action.Erases (ExceptT.lift program : Action ε α) :=
    Program.Erases.bind first fun _ => trivial
  exact lifted.bind second

end Action

namespace Action

variable {σ ε α β : Type} {backend : Backend σ} {state : σ} {error : ε}
  {action : Action ε α} {next : α → Action ε β}

/-- An error that does not end both actions does not end the first one. -/
theorem ne_error_of_bind
    (spared : ((action >>= next).runOn backend state).1 ≠ .error error) :
    (action.runOn backend state).1 ≠ .error error := by
  rw [runOn_bind] at spared
  intro failed
  generalize action.runOn backend state = outcome at spared failed
  obtain ⟨answer, later⟩ := outcome
  obtain rfl : answer = .error error := failed
  exact spared rfl

/-- To go on in another way that only differs by the error makes no difference
where the error does not occur. -/
theorem runOn_bind_congr {other : α → Action ε β}
    (spared : ((action >>= next).runOn backend state).1 ≠ .error error)
    (same : ∀ result later,
      ((next result).runOn backend later).1 ≠ .error error →
        (other result).runOn backend later =
          (next result).runOn backend later) :
    (action >>= other).runOn backend state =
      (action >>= next).runOn backend state := by
  rw [runOn_bind] at spared ⊢
  rw [runOn_bind]
  generalize action.runOn backend state = outcome at spared ⊢
  obtain ⟨answer, later⟩ := outcome
  cases answer with
  | ok result => exact same result later spared
  | error error => rfl

end Action

namespace Layout

theorem erases_read (cell : Cell) : (Layout.read cell).Erases :=
  fun _ => trivial

theorem erases_write_zero (cell : Cell) : (Layout.write cell 0).Erases :=
  ⟨rfl, fun _ => trivial⟩

theorem erases_require {α : Type} (error : LayoutError) (value : Option α) :
    (Layout.require error value).Erases := by
  cases value <;> trivial

theorem erases_sum (left right : Nat) : (Layout.sum left right).Erases := by
  unfold Layout.sum
  split <;> trivial

end Layout

namespace DynamicArray

variable (array : DynamicArray)

theorem erases_elementCell (index : Nat) : (array.elementCell index).Erases :=
  (Layout.erases_require _ _).bind fun _ => .pure _

theorem erases_size : array.size.Erases :=
  (Layout.erases_read _).bind fun _ => Layout.erases_require _ _

theorem erases_readElement (index : Nat) : (array.readElement index).Erases :=
  (array.erases_elementCell index).bind Layout.erases_read

theorem erases_eraseFrom (index count : Nat) :
    (array.eraseFrom index count).Erases := by
  induction count generalizing index with
  | zero => exact .pure ()
  | succ count induction =>
      have erased : (array.writeElement index 0).Erases :=
        (array.erases_elementCell index).bind Layout.erases_write_zero
      exact erased.bind fun _ => induction (index + 1)

theorem erases_clear : array.clear.Erases := by
  apply array.erases_size.bind
  intro size
  apply (array.erases_eraseFrom 0 size).bind
  exact fun _ => (Layout.erases_write_zero _).bind fun _ => .pure ()

end DynamicArray

namespace Cursor

variable {α σ : Type} {action : Word → Layout α}

theorem erases_step (cursor : Cursor) : cursor.step.Erases := by
  have fetched : cursor.fetch.Erases := by
    apply cursor.array.erases_size.bind
    intro size
    split
    · exact .pure none
    · apply (cursor.array.erases_readElement cursor.index).bind
      exact fun value => (Layout.erases_sum _ _).bind fun _ => .pure _
  unfold step
  split
  · trivial
  · apply Program.Erases.bind fetched
    rintro (error | _ | ⟨value, index⟩) <;> trivial

theorem erases_visit (erases : ∀ value, (action value).Erases)
    (cursor : Cursor) (steps : Nat) : (cursor.visit action steps).Erases := by
  induction steps generalizing cursor with
  | zero => exact .throw _
  | succ steps induction =>
      apply Action.Erases.lift_bind cursor.erases_step
      rintro ⟨item, later⟩
      match item with
      | none => exact .pure []
      | some (.error error) => exact .throw error
      | some (.ok value) =>
          apply (erases value).bind
          exact fun _ => (induction later).bind fun _ => .pure _

/-- A visit that comes to its end does not depend on how many more steps it
might have taken. -/
theorem runOn_visit_of_le {backend : Backend σ} {cursor : Cursor} {state : σ}
    {steps more : Nat}
    (ended : ((cursor.visit action steps).runOn backend state).1 ≠
      .error .outOfRange)
    (fewer : steps ≤ more) :
    (cursor.visit action more).runOn backend state =
      (cursor.visit action steps).runOn backend state := by
  induction steps generalizing more cursor state with
  | zero => exact absurd rfl ended
  | succ steps induction =>
      obtain ⟨more, rfl⟩ : ∃ others, more = others + 1 :=
        ⟨more - 1, by omega⟩
      apply Action.runOn_bind_congr ended
      rintro ⟨item, later⟩ between ended
      match item with
      | none => rfl
      | some (.error error) => rfl
      | some (.ok value) =>
          apply Action.runOn_bind_congr ended
          intro result after ended
          have others := induction (Action.ne_error_of_bind ended)
            (Nat.le_of_succ_le_succ fewer)
          rw [Action.runOn_bind, Action.runOn_bind, others]

end Cursor

namespace EnumerableSet

variable {set : EnumerableSet} {before : Contents}

/-- Empties the position of a member. -/
def forget (set : EnumerableSet) (member : Word) : Layout Word :=
  set.positions.set member 0

theorem clear_eq (set : EnumerableSet) :
    set.clear =
      (set.cursor.forEach set.forget >>= fun _ => set.members.clear) :=
  rfl

theorem erases_clear (set : EnumerableSet) : set.clear.Erases := by
  rw [clear_eq]
  have forgotten : (set.cursor.forEach set.forget).Erases :=
    Cursor.erases_visit (fun _ => Layout.erases_write_zero _) _ _
  exact forgotten.bind fun _ => set.members.erases_clear

section Outcomes

variable {allowed : LayoutError → Contents → Prop}
  (corrupt : ¬ set.members.claimed before < Word.countBound →
    ∀ between, allowed (.corruptLength set.members.base) between)
  (unreached : ¬ set.members.base.Reaches (set.members.claimed before) →
    ∀ between, allowed (.slotOverflow set.members.base) between)

include corrupt unreached

/-- Wherever the positions lie, the visit finds no length above the first
one. -/
theorem concludes_forget {steps : Nat}
    (enough : min (set.members.claimed before) (Word.countBound - 1) <
      steps) :
    Layout.Concludes (fun _ => False) allowed
      (set.cursor.visit set.forget steps) before
      (fun results after => before.Fades after ∧
        results.length ≤ set.members.claimed before) := by
  have visited : Layout.Concludes (fun _ => False) allowed
      (set.cursor.visit set.forget steps) before
      (fun results after => before.Fades after ∧ 0 + results.length ≤
        min (set.members.claimed before) (Word.countBound - 1)) := by
    apply Cursor.concludes_visit _ _ (by omega) (Nat.zero_le _) (.refl before)
    · intro index between fades
      have fewer := fades.claimed_le set.members
      have corruptNow (large : ¬ set.members.claimed between <
          Word.countBound) := corrupt (by omega) between
      have unreachedNow (within : index < set.members.claimed between)
          (outer : ¬ set.members.base.Reaches (index + 1)) :=
        unreached (fun reaches => outer (reaches.mono (by omega))) between
      apply (Cursor.concludes_fetch (fun _ => False.elim) corruptNow
        unreachedNow).mono
      rintro item after ⟨same, moved⟩
      refine ⟨same, ?_⟩
      intro value next found
      obtain ⟨follows, within, small⟩ := moved value next found
      exact ⟨follows, by omega⟩
    · intro member between fades
      apply (Layout.concludes_write (set.positionCell member) 0
        fun _ => False.elim).mono
      rintro _ _ ⟨_, rfl⟩
      exact fades.trans (.set_zero between _)
  apply visited.mono
  rintro results after ⟨fades, few⟩
  exact ⟨fades, by omega⟩

theorem concludes_clear :
    Layout.Concludes (fun _ => False) allowed set.clear before
      (fun _ after => set.members.claimed after = 0) := by
  have small : 0 < Word.countBound := by decide
  have forgotten : Layout.Concludes (fun _ => False) allowed
      (set.cursor.forEach set.forget) before
      (fun _ after => before.Fades after) :=
    (concludes_forget corrupt unreached (by omega)).mono
      fun _ _ visited => visited.1
  rw [clear_eq]
  apply forgotten.bind
  intro results between fades
  have fewer := fades.claimed_le set.members
  exact DynamicArray.concludes_clear (fun _ _ => False.elim)
    (fun large => corrupt (by omega) between)
    fun outer => unreached fun reaches => outer (reaches.mono fewer)

end Outcomes

/-- The visit is over before the steps run out. -/
theorem forget_ends {steps : Nat}
    (enough : min (set.members.claimed before) (Word.countBound - 1) <
      steps) :
    ((set.cursor.visit set.forget steps).runOn Contents.backend before).1 ≠
      .error .outOfRange := by
  have visited : Layout.Concludes (fun _ => False)
      (fun error _ => error ≠ .outOfRange)
      (set.cursor.visit set.forget steps) before (fun _ _ => True) :=
    (concludes_forget (fun _ _ => nofun) (fun _ _ => nofun) enough).mono
      fun _ _ _ => trivial
  intro failed
  have outcome := visited.outcome_run
  rw [failed] at outcome
  exact outcome rfl

theorem whole_visit (set : EnumerableSet) (before : Contents) :
    min (set.members.claimed before) (Word.countBound - 1) <
      Word.countBound :=
  Nat.lt_of_le_of_lt (Nat.min_le_right _ _) (by decide)

/-- More steps than there are members make no difference. -/
theorem forEach_eq_visit {steps : Nat}
    (enough : min (set.members.claimed before) (Word.countBound - 1) <
      steps) :
    (set.cursor.forEach set.forget).runOn Contents.backend before =
      (set.cursor.visit set.forget steps).runOn Contents.backend before := by
  have ends := forget_ends (whole_visit set before)
  rcases Nat.le_total steps Word.countBound with fewer | more
  · exact Cursor.runOn_visit_of_le (forget_ends enough) fewer
  · exact (Cursor.runOn_visit_of_le ends more).symm

/-- Whatever the cells hold and wherever the positions lie, the visit of the
members is over after as many steps as there were members at first, and one
more to find the end: more steps make no difference.  Only zeros are written,
so at no moment is the set larger than it was.  A clearing that succeeds leaves
it empty, and it does succeed if the length is a count and the members lie
within the slots. -/
theorem clear_ends_empty (set : EnumerableSet) (before : Contents) :
    (∀ steps, set.members.claimed before < steps →
      ((set.cursor.visit set.forget steps).runOn Contents.backend before).1 ≠
        .error .outOfRange ∧
      (set.cursor.forEach set.forget).runOn Contents.backend before =
        (set.cursor.visit set.forget steps).runOn Contents.backend before) ∧
    (∀ results after,
      (set.cursor.forEach set.forget).Runs before results after →
        results.length ≤ set.members.claimed before) ∧
    (∀ between ∈ set.clear.run.trace Contents.backend before,
      before.Fades between ∧
        set.members.claimed between ≤ set.members.claimed before) ∧
    before.Fades (set.clear.runOn Contents.backend before).2 ∧
    (∀ after, set.clear.Runs before () after →
      set.members.claimed after = 0) ∧
    (set.members.claimed before < Word.countBound →
      set.members.base.Reaches (set.members.claimed before) →
        ∃ after, set.clear.Runs before () after) := by
  refine ⟨?_, ?_, ?_, ?_, ?_, ?_⟩
  · intro steps larger
    have enough := Nat.lt_of_le_of_lt
      (Nat.min_le_left _ (Word.countBound - 1)) larger
    exact ⟨forget_ends enough, forEach_eq_visit enough⟩
  · intro results after runs
    have visited : Layout.Concludes (fun _ => False) (fun _ _ => True)
        (set.cursor.forEach set.forget) before (fun results after =>
          before.Fades after ∧
            results.length ≤ set.members.claimed before) :=
      concludes_forget (fun _ _ => trivial) (fun _ _ => trivial)
        (whole_visit set before)
    exact (visited.reached_of_runs runs).2
  · intro between passed
    have fades := set.erases_clear.fades_of_mem_trace passed
    exact ⟨fades, fades.claimed_le set.members⟩
  · exact set.erases_clear.fades_of_mem_trace (Program.run_mem_trace _ _ _)
  · intro after runs
    have cleared : Layout.Concludes (fun _ => False) (fun _ _ => True)
        set.clear before (fun _ after => set.members.claimed after = 0) :=
      concludes_clear (fun _ _ => trivial) (fun _ _ => trivial)
    exact cleared.reached_of_runs runs
  · intro small reaches
    obtain ⟨_, after, runs, _⟩ := Layout.Concludes.exists_runs
      (concludes_clear (fun large => absurd small large)
        fun outer => absurd reaches outer)
    exact ⟨after, runs⟩

/-- Every position lies in the cell of the length: the first member to be
forgotten takes the other one along. -/
theorem clear_ends_empty_aliased :
    let set := ofKey ⟨"constant", fun _ => 5⟩ .storageProcessor ⟨5⟩
    let contents := ((Contents.empty.set set.members.lengthCell
      (Word.ofCount 2)).set (set.members.element 0) 7).set
        (set.members.element 1) 8
    set.positionCell 7 = set.members.lengthCell ∧
    set.members.claimed contents = 2 ∧ set.members.base.Reaches 2 ∧
    (set.cursor.forEach set.forget).runOn Contents.backend contents =
      (set.cursor.visit set.forget 3).runOn Contents.backend contents ∧
    ∃ after, set.clear.Runs contents () after ∧ contents.Fades after ∧
      set.members.claimed after = 0 := by
  intro set contents
  have claimed : set.members.claimed contents = 2 := by
    rw [DynamicArray.claimed_set_element (by decide),
      DynamicArray.claimed_set_element (by decide)]
    exact DynamicArray.claimed_set_length (by decide)
  have reaches : set.members.base.Reaches 2 := by decide
  obtain ⟨bounded, _, _, fades, empty, succeeds⟩ :=
    clear_ends_empty set contents
  rw [claimed] at bounded succeeds
  obtain ⟨after, runs⟩ := succeeds (by decide) reaches
  have last : (set.clear.runOn Contents.backend contents).2 = after :=
    congrArg Prod.snd runs
  exact ⟨by decide, claimed, reaches, (bounded 3 (by decide)).2, after, runs,
    last ▸ fades, empty after runs⟩

end EnumerableSet

end SlotStorage
