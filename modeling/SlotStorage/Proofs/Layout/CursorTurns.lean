import Mathlib.Data.List.ReduceOption
import SlotStorage.Proofs.Layout.ArrayCalls
import SlotStorage.Proofs.Orderly

/-!
# A cursor on an array in use

Between the steps of a cursor the array may be called in any way.  A step then
reads the list as it is by now, at the place that counts the elements given so
far.  A list that only grows is given whole, and a cursor that has reported a
failure makes no store calls any more.
-/

namespace SlotStorage

namespace Cursor

open DynamicArray (Call)

/-- A step of a cursor, or another call on its array. -/
inductive Turn where
  | step
  | other (call : Call)
  deriving DecidableEq

namespace Turn

/-- The calls between the steps. -/
def calls : List Turn → List Call
  | [] => []
  | .step :: turns => calls turns
  | .other call :: turns => call :: calls turns

/-- How many of the turns are steps. -/
def steps (turns : List Turn) : Nat :=
  turns.count .step

theorem steps_step (turns : List Turn) :
    steps (.step :: turns) = steps turns + 1 :=
  List.count_cons_self

theorem steps_other (call : Call) (turns : List Turn) :
    steps (.other call :: turns) = steps turns :=
  List.count_cons_of_ne (by simp)

end Turn

/-- The items that the cursor gives, and the cursor after all turns. -/
def follow (cursor : Cursor) :
    List Turn → Program (List (Option (Except LayoutError Word)) × Cursor)
  | [] => pure ([], cursor)
  | .step :: turns => do
    let (item, cursor) ← cursor.step
    let (items, cursor) ← cursor.follow turns
    return (item :: items, cursor)
  | .other call :: turns => do
    let _ ← (call.perform cursor.array).run
    cursor.follow turns

/-- What a list in use shows at an index that moves on over every element. -/
def readings (base : Slot) : Nat → List Word → List Turn → List (Option Word)
  | _, _, [] => []
  | index, list, .step :: turns =>
    if within : index < list.length then
      some list[index] :: readings base (index + 1) list turns
    else
      none :: readings base index list turns
  | index, list, .other call :: turns =>
    readings base index (call.next base list) turns

variable {array : DynamicArray} {base : Slot} {tidy : Prop}
  {capacity index : Nat} {list : List Word} {contents : Contents}
  {turns : List Turn}

theorem readings_step_within (within : index < list.length) :
    readings base index list (.step :: turns) =
      some list[index] :: readings base (index + 1) list turns :=
  dif_pos within

theorem readings_step_end (reached : list.length ≤ index) :
    readings base index list (.step :: turns) =
      none :: readings base index list turns :=
  dif_neg (Nat.not_lt.mpr reached)

/-! ## Turns on a store that does not fail -/

theorem run_step {item : Option (Word × Nat)}
    (fetched : Layout.Reads (fun _ => False) (fun _ => True)
      (Cursor.mk array index false).fetch contents item) :
    (Cursor.mk array index false).step.run Contents.backend contents =
      ((item.map fun found => .ok found.1,
        ⟨array, (item.map Prod.snd).getD index, false⟩), contents) := by
  rcases (safe_step fetched).run with ⟨answered, same⟩ | ⟨_, impossible, _⟩
  · exact Prod.ext answered same
  · exact impossible.elim

section Steps

variable (carries : array.Carries tidy capacity list contents)
  (fits : array.Fits capacity)

include carries fits

theorem run_step_within (within : index < list.length) :
    (Cursor.mk array index false).step.run Contents.backend contents =
      ((some (.ok list[index]), ⟨array, index + 1, false⟩), contents) :=
  run_step (reads_fetch carries.shown fits carries.bounded trivial within)

theorem run_step_end (reached : list.length ≤ index) :
    (Cursor.mk array index false).step.run Contents.backend contents =
      ((none, ⟨array, index, false⟩), contents) :=
  run_step (reads_fetch_end carries.shown fits carries.bounded trivial reached)

end Steps

/-- At every step the cursor gives what the list shows by then, and its place
counts the elements that it has given.  The induction is on the turns. -/
theorem run_follow (fits : array.Fits capacity)
    (carries : array.Carries tidy capacity list contents)
    (room : Call.peak array.base list (Turn.calls turns) ≤ capacity) :
    ∃ after,
      (follow ⟨array, index, false⟩ turns).run Contents.backend contents =
        (((readings array.base index list turns).map (Option.map .ok),
          ⟨array, index +
            (readings array.base index list turns).reduceOption.length,
              false⟩), after) ∧
      array.Carries tidy capacity
        (Call.listAfter array.base list (Turn.calls turns)) after := by
  induction turns generalizing index list contents with
  | nil => exact ⟨contents, rfl, carries⟩
  | cons turn turns induction =>
      cases turn with
      | step =>
          by_cases within : index < list.length
          · obtain ⟨after, runs, reached⟩ := induction carries room
            refine ⟨after, ?_, reached⟩
            rw [Nat.add_right_comm index 1] at runs
            rw [follow, Program.run_bind, run_step_within carries fits within,
              Program.run_bind, runs, readings_step_within within,
              List.reduceOption_cons_of_some]
            rfl
          · have finished := Nat.le_of_not_lt within
            obtain ⟨after, runs, reached⟩ := induction carries room
            refine ⟨after, ?_, reached⟩
            rw [follow, Program.run_bind, run_step_end carries fits finished,
              Program.run_bind, runs, readings_step_end finished,
              List.reduceOption_cons_of_none]
            rfl
      | other call =>
          have laterRoom := (Call.peak_next_le array.base list call
            (Turn.calls turns)).trans room
          have nextRoom := (Call.length_le_peak array.base
            (call.next array.base list) (Turn.calls turns)).trans laterRoom
          obtain ⟨after, runs, reached⟩ :=
            induction (carries.after_perform fits nextRoom) laterRoom
          refine ⟨after, ?_, reached⟩
          rw [follow, Program.run_bind]
          exact runs

/-! ## A list that grows -/

theorem isPrefix_listAfter (base : Slot) (list : List Word)
    {calls : List Call}
    (appends : ∀ call ∈ calls, ∃ value, call = .append value) :
    list <+: Call.listAfter base list calls := by
  induction calls generalizing list with
  | nil => exact List.prefix_rfl
  | cons call calls induction =>
      rw [List.forall_mem_cons] at appends
      obtain ⟨⟨value, rfl⟩, others⟩ := appends
      have grown : list <+: Call.next base list (.append value) := by
        by_cases room : base.Reaches (list.length + 1)
        · simp [Call.next_append_of_reaches room]
        · simp [Call.next_append_of_not_reaches room]
      rw [Call.listAfter, List.foldl_cons]
      exact grown.trans (induction _ others)

/-- The elements that are given lie one after the other in the list that
comes about. -/
theorem reduceOption_readings_isPrefix
    (appends : ∀ call ∈ Turn.calls turns, ∃ value, call = .append value) :
    (readings base index list turns).reduceOption <+:
      (Call.listAfter base list (Turn.calls turns)).drop index := by
  induction turns generalizing index list with
  | nil => exact List.nil_prefix
  | cons turn turns induction =>
      cases turn with
      | step =>
          by_cases within : index < list.length
          · have grown : list <+: Call.listAfter base list
                (Turn.calls turns) := isPrefix_listAfter base list appends
            have inside := within.trans_le grown.length_le
            rw [readings_step_within within, List.reduceOption_cons_of_some,
              grown.getElem within, Turn.calls,
              List.drop_eq_getElem_cons inside, List.prefix_cons_inj]
            exact induction appends
          · rw [readings_step_end (Nat.le_of_not_lt within),
              List.reduceOption_cons_of_none]
            exact induction appends
      | other call =>
          rw [Turn.calls, List.forall_mem_cons] at appends
          exact induction appends.2

/-! ## A cursor that has failed -/

/-- A failed store call of a step makes its item and stops the cursor. -/
theorem run_step_failing (cursor : Cursor) (start : Counted Contents)
    {count : Nat} (cause : StoreError)
    (reached : count <
      (cursor.step.calls Contents.backend start.state).length) :
    (cursor.step.run (Program.failing start count cause) start).1 =
      (some (.error (.store cause)), { cursor with failed := true }) :=
  ((orderly_step (Set.mem_univ cursor.array.space)).reports.run_failing start
    cause reached).1

theorem step_failed (cursor : Cursor) (failed : cursor.failed = true) :
    cursor.step = pure (none, cursor) :=
  if_pos failed

/-- The steps make no store calls and report the end. -/
theorem follow_failed (cursor : Cursor) (failed : cursor.failed = true)
    (turns : List Turn) :
    cursor.follow turns = do
      let _ ← Action.attempts (Call.perform cursor.array) (Turn.calls turns)
      return (List.replicate (Turn.steps turns) none, cursor) := by
  induction turns with
  | nil => rfl
  | cons turn turns induction =>
      cases turn with
      | step =>
          rw [follow, step_failed cursor failed, pure_bind]
          simp only [induction, bind_assoc, pure_bind]
          rw [Turn.calls, Turn.steps_step, List.replicate_succ]
      | other call =>
          rw [follow, induction, Turn.calls, Action.attempts]
          simp only [bind_assoc, pure_bind]
          rw [Turn.steps_other]

/-- Between the steps of a cursor its array is called in any way.  A step then
gives the element of the list at the place that counts the elements given so
far, and at the end it gives nothing and the cursor stays.  A list that is
only appended to is given whole.  If a store call of a step fails, the failure
is given once, and no later step makes a store call. -/
theorem follows_live_list (array : DynamicArray) (list : List Word)
    (turns : List Turn) (before : Contents)
    (shown : array.Shows list before)
    (reaches : array.base.Reaches list.length)
    (small : Call.peak array.base list (Turn.calls turns) < Word.countBound) :
    let now := Call.listAfter array.base list (Turn.calls turns)
    let items := readings array.base 0 list turns
    let given := items.reduceOption
    let cursor : Cursor := ⟨array, given.length, false⟩
    (∃ after,
      (follow array.cursor turns).run Contents.backend before =
        ((items.map (Option.map .ok), cursor), after) ∧
      array.Shows now after ∧
      (∀ within : given.length < now.length,
        cursor.step.run Contents.backend after =
          ((some (.ok now[given.length]), ⟨array, given.length + 1, false⟩),
            after)) ∧
      (now.length ≤ given.length →
        cursor.step.run Contents.backend after = ((none, cursor), after))) ∧
    ((∀ call ∈ Turn.calls turns, ∃ value, call = .append value) →
      now.length ≤ given.length → given = now) ∧
    ∀ (reader : Cursor) (start : Counted Contents) (count : Nat)
      (cause : StoreError),
      count < (reader.step.calls Contents.backend start.state).length →
      let stopped : Cursor := { reader with failed := true }
      (reader.step.run (Program.failing start count cause) start).1 =
        (some (.error (.store cause)), stopped) ∧
      ∀ later, follow stopped later = do
        let _ ← Action.attempts (Call.perform reader.array)
          (Turn.calls later)
        return (List.replicate (Turn.steps later) none, stopped) := by
  intro now items given cursor
  have fits : array.Fits (Call.peak array.base list (Turn.calls turns)) :=
    ⟨Call.reaches_peak reaches _, small⟩
  have carries : array.Carries False
      (Call.peak array.base list (Turn.calls turns)) list before :=
    ⟨Call.length_le_peak array.base list _, shown, fun never => never.elim⟩
  refine ⟨?_, ?_, ?_⟩
  · obtain ⟨after, runs, reached⟩ := run_follow fits carries (Nat.le_refl _)
    rw [Nat.zero_add] at runs
    exact ⟨after, runs, reached.shown, run_step_within reached fits,
      run_step_end reached fits⟩
  · intro appends finished
    exact (reduceOption_readings_isPrefix appends).eq_of_length_le finished
  · intro reader start count cause reached stopped
    exact ⟨run_step_failing reader start cause reached,
      follow_failed stopped rfl⟩

/-- An array is cut down behind the cursor, and the cursor goes on where it is
as soon as the array has grown past that place again. -/
theorem follows_live_list_regrown :
    let array : DynamicArray := ⟨.storageProcessor, ⟨5⟩⟩
    let turns : List Turn := [.other (.append 1), .other (.append 2), .step,
      .step, .step, .other .clear, .step, .other (.append 3),
      .other (.append 4), .step, .other (.append 5), .step, .step]
    array.Shows [] Contents.empty ∧ array.base.Reaches 0 ∧
    Call.peak array.base [] (Turn.calls turns) < Word.countBound ∧
    ∃ after,
      (follow array.cursor turns).run Contents.backend Contents.empty =
        (([some (.ok 1), some (.ok 2), none, none, none, some (.ok 5), none],
          ⟨array, 3, false⟩), after) ∧
      array.Shows [3, 4, 5] after := by
  intro array turns
  have shown : array.Shows [] Contents.empty :=
    ⟨rfl, fun index within => absurd within (Nat.not_lt_zero index)⟩
  have highest : Call.peak array.base [] (Turn.calls turns) = 3 := by
    decide +kernel
  have small : Call.peak array.base [] (Turn.calls turns) <
      Word.countBound := by
    rw [highest]
    decide
  have last : Call.listAfter array.base [] (Turn.calls turns) = [3, 4, 5] := by
    decide +kernel
  have items : readings array.base 0 [] turns =
      [some 1, some 2, none, none, none, some 5, none] := by
    decide +kernel
  obtain ⟨⟨after, runs, reached, _⟩, _⟩ := follows_live_list array [] turns
    Contents.empty shown (by decide) small
  rw [items] at runs
  rw [last] at reached
  exact ⟨shown, by decide, small, after, runs, reached⟩

end Cursor

end SlotStorage
