import SlotStorage.Proofs.Layout.Cursor

/-!
# Runs of array calls

A run of calls on an array answers like the same calls on a list, and leaves
exactly the cells that stand for the list.  A call is refused for an index
beyond the list, for an element that is missing, or for want of slots; then it
changes nothing.  How many cells a run may touch is told by the list at its
longest.
-/

namespace SlotStorage

namespace DynamicArray

/-- A call on an array. -/
inductive Call where
  | append (value : Word)
  | set (index : Nat) (value : Word)
  | removeLast
  | clear
  | get (index : Nat)
  | last
  | size
  | isEmpty
  | toList
  deriving DecidableEq

/-- What a call answers. -/
inductive Answer where
  | done
  | word (value : Word)
  | last (value : Option Word)
  | count (value : Nat)
  | truth (value : Bool)
  | values (list : List Word)
  deriving DecidableEq

namespace Call

/-- The call on an array in storage. -/
def perform (array : DynamicArray) : Call → Layout Answer
  | .append value => do
    array.append value
    return .done
  | .set index value => do
    array.set index value
    return .done
  | .removeLast => do return .word (← array.removeLast)
  | .clear => do
    array.clear
    return .done
  | .get index => do return .word (← array.get index)
  | .last => do return .last (← array.last)
  | .size => do return .count (← array.size)
  | .isEmpty => do return .truth (← array.isEmpty)
  | .toList => do return .values (← array.toList)

/-- What a list answers that ends before the last slot after the base. -/
def answer (base : Slot) (list : List Word) : Call → Except LayoutError Answer
  | .append _ =>
    if base.Reaches (list.length + 1) then .ok .done
    else .error (.slotOverflow base)
  | .set index _ =>
    if index < list.length then .ok .done
    else .error (.indexOutOfRange index list.length)
  | .removeLast =>
    match list.getLast? with
    | some value => .ok (.word value)
    | none => .error .emptyArray
  | .clear => .ok .done
  | .get index =>
    match list[index]? with
    | some value => .ok (.word value)
    | none => .error (.indexOutOfRange index list.length)
  | .last => .ok (.last list.getLast?)
  | .size => .ok (.count list.length)
  | .isEmpty => .ok (.truth (list = []))
  | .toList => .ok (.values list)

/-- The list after the call. -/
def next (base : Slot) (list : List Word) : Call → List Word
  | .append value =>
    if base.Reaches (list.length + 1) then list ++ [value] else list
  | .set index value => list.set index value
  | .removeLast => list.dropLast
  | .clear => []
  | _ => list

/-- The answers of calls on a list. -/
def answers (base : Slot) :
    List Word → List Call → List (Except LayoutError Answer)
  | _, [] => []
  | list, call :: calls =>
    call.answer base list :: answers base (call.next base list) calls

/-- The list after calls. -/
def listAfter (base : Slot) (list : List Word) (calls : List Call) :
    List Word :=
  calls.foldl (next base) list

/-- The largest size that the list has before, between and after calls. -/
def peak (base : Slot) : List Word → List Call → Nat
  | list, [] => list.length
  | list, call :: calls =>
    max list.length (peak base (call.next base list) calls)

theorem next_append_of_reaches {base : Slot} {list : List Word}
    {value : Word} (room : base.Reaches (list.length + 1)) :
    next base list (.append value) = list ++ [value] :=
  if_pos room

theorem next_append_of_not_reaches {base : Slot} {list : List Word}
    {value : Word} (beyond : ¬ base.Reaches (list.length + 1)) :
    next base list (.append value) = list :=
  if_neg beyond

end Call

variable {array : DynamicArray} {tidy : Prop} {capacity index : Nat}
  {list : List Word} {contents : Contents} {value : Word}

theorem elementCell_of_not_reaches
    (beyond : ¬ array.base.Reaches (index + 1)) :
    array.elementCell index = throw (.slotOverflow array.base) := by
  rw [elementCell, Slot.add?_of_not_reaches beyond]
  rfl

theorem Carries.of_empty
    (empty : ∀ cell ∈ array.area capacity, contents cell = 0) :
    array.Carries True capacity [] contents := by
  refine ⟨Nat.zero_le _, ⟨empty _ (array.lengthCell_mem_area capacity), ?_⟩,
    ?_⟩
  · exact fun index within => absurd within (Nat.not_lt_zero index)
  · exact fun _ index _ within => empty _ (element_mem_area within)

/-! ## Calls that are answered -/

section Operations

variable (carries : array.Carries tidy capacity list contents)
  (fits : array.Fits capacity)

include carries fits

theorem Carries.runs_size : array.size.Runs contents list.length contents :=
  (carries.shown.reads_size fits carries.bounded trivial).runs

theorem Carries.runs_get (within : index < list.length) :
    (array.get index).Runs contents list[index] contents :=
  (carries.shown.reads_get fits carries.bounded trivial within).runs

theorem Carries.runs_last :
    array.last.Runs contents list.getLast? contents := by
  have bounded := carries.bounded
  unfold DynamicArray.last
  apply (carries.runs_size fits).bind
  by_cases empty : list.length = 0
  · rw [if_pos empty, List.eq_nil_of_length_eq_zero empty]
    exact .pure _ _
  · have read : (array.readElement (list.length - 1)).Runs contents
        list[list.length - 1] contents :=
      (carries.shown.reads_readElement fits bounded trivial (by omega)).runs
    rw [if_neg empty, Layout.difference_eq (by omega), pure_bind,
      List.getLast?_eq_getElem?, List.getElem?_eq_getElem (by omega)]
    exact read.bind (.pure _ _)

theorem Carries.set_achieves (within : index < list.length) (value : Word) :
    (array.set index value).Achieves (array.area capacity) contents ()
      (array.Carries tidy capacity (list.set index value)) := by
  have bounded := carries.bounded
  apply (carries.shown.safe_set fits bounded trivial within
    trivial).runs_eq.achieves
  · exact (Contents.SameOff.refl _ _).set (element_mem_area (by omega)) _
  · exact carries.set_element fits within value

theorem Carries.removeLast_achieves (occupied : list ≠ []) :
    array.removeLast.Achieves (array.area capacity) contents
      (list.getLast occupied)
      (array.Carries tidy capacity list.dropLast) := by
  have bounded := carries.bounded
  have positive : 0 < list.length := List.length_pos_iff.mpr occupied
  apply (carries.shown.safe_removeLast fits bounded trivial occupied trivial
    trivial).runs_eq.achieves
  · exact ((Contents.SameOff.refl _ _).set
      (array.lengthCell_mem_area capacity) _).set
        (element_mem_area (by omega)) _
  · exact carries.dropped fits occupied

theorem Carries.clear_achieves :
    array.clear.Achieves (array.area capacity) contents ()
      (array.Carries tidy capacity []) :=
  (carries.safe_clear fits (fun _ _ _ _ _ => trivial)
    (fun _ _ _ => trivial)).achieves

/-! ## Calls that are refused -/

theorem Carries.checkIndex_fails (beyond : ¬ index < list.length) :
    (array.checkIndex index).Fails contents
      (.indexOutOfRange index list.length) contents := by
  unfold checkIndex
  apply (carries.runs_size fits).bind_fails
  rw [if_neg beyond]
  rfl

theorem Carries.append_fails
    (beyond : ¬ array.base.Reaches (list.length + 1)) :
    (array.append value).Fails contents (.slotOverflow array.base)
      contents := by
  unfold append
  apply (carries.runs_size fits).bind_fails
  rw [writeElement, elementCell_of_not_reaches beyond]
  rfl

theorem Carries.removeLast_fails (empty : list = []) :
    array.removeLast.Fails contents .emptyArray contents := by
  unfold removeLast
  apply (carries.runs_size fits).bind_fails
  rw [if_pos (List.length_eq_zero_iff.mpr empty)]
  rfl

end Operations

/-! ## Steps and runs -/

/-- A call is answered like the call on the list and brings the cells to the
next list; a call that is refused leaves them alone. -/
theorem Carries.perform_step
    (carries : array.Carries tidy capacity list contents)
    (fits : array.Fits capacity) {call : Call}
    (room : (call.next array.base list).length ≤ capacity) :
    (∃ error, call.answer array.base list = .error error ∧
      call.next array.base list = list ∧
      (call.perform array).Fails contents error contents) ∨
    (∃ answer, call.answer array.base list = .ok answer ∧
      (call.perform array).Achieves (array.area capacity) contents answer
        (array.Carries tidy capacity (call.next array.base list))) := by
  have same := Set.Subset.refl (array.area capacity)
  cases call with
  | append value =>
      by_cases reaches : array.base.Reaches (list.length + 1)
      · have grown : Call.next array.base list (.append value) =
            list ++ [value] := Call.next_append_of_reaches reaches
        rw [grown, List.length_append, List.length_singleton] at room
        rw [grown]
        refine .inr ⟨_, if_pos reaches, ?_⟩
        apply (carries.append_achieves fits room value).bind same
        exact fun after _ reached => .pure _ _ reached
      · refine .inl ⟨_, if_neg reaches,
          Call.next_append_of_not_reaches reaches, ?_⟩
        exact (carries.append_fails fits reaches).bind
  | set index value =>
      by_cases within : index < list.length
      · refine .inr ⟨_, if_pos within, ?_⟩
        apply (carries.set_achieves fits within value).bind same
        exact fun after _ reached => .pure _ _ reached
      · refine .inl ⟨_, if_neg within,
          List.set_eq_of_length_le (Nat.le_of_not_lt within), ?_⟩
        exact (carries.checkIndex_fails fits within).bind.bind
  | removeLast =>
      by_cases empty : list = []
      · refine .inl ⟨.emptyArray, ?_, ?_, ?_⟩
        · rw [empty]
          rfl
        · rw [empty]
          rfl
        · exact (carries.removeLast_fails fits empty).bind
      · refine .inr ⟨.word (list.getLast empty), ?_, ?_⟩
        · simp only [Call.answer, List.getLast?_eq_some_getLast empty]
        · apply (carries.removeLast_achieves fits empty).bind same
          exact fun after _ reached => .pure _ _ reached
  | clear =>
      refine .inr ⟨_, rfl, ?_⟩
      apply (carries.clear_achieves fits).bind same
      exact fun after _ reached => .pure _ _ reached
  | get index =>
      by_cases within : index < list.length
      · refine .inr ⟨.word list[index], ?_, ?_⟩
        · simp only [Call.answer, List.getElem?_eq_getElem within]
        · apply (carries.runs_get fits within).bind_achieves
          exact .pure _ _ carries
      · refine .inl ⟨.indexOutOfRange index list.length, ?_, rfl, ?_⟩
        · simp only [Call.answer,
            List.getElem?_eq_none (Nat.le_of_not_lt within)]
        · exact (carries.checkIndex_fails fits within).bind.bind
  | last =>
      refine .inr ⟨_, rfl, ?_⟩
      apply (carries.runs_last fits).bind_achieves
      exact .pure _ _ carries
  | size =>
      refine .inr ⟨_, rfl, ?_⟩
      apply (carries.runs_size fits).bind_achieves
      exact .pure _ _ carries
  | isEmpty =>
      refine .inr ⟨_, rfl, ?_⟩
      apply (carries.shown.reads_isEmpty fits carries.bounded
        trivial).runs.bind_achieves
      exact .pure _ _ carries
  | toList =>
      refine .inr ⟨_, rfl, ?_⟩
      apply (carries.shown.reads_toList fits carries.bounded
        trivial).runs.bind_achieves
      exact .pure _ _ carries

/-- Answered or refused, a call brings the cells to the next list. -/
theorem Carries.after_perform
    (carries : array.Carries tidy capacity list contents)
    (fits : array.Fits capacity) {call : Call}
    (room : (call.next array.base list).length ≤ capacity) :
    array.Carries tidy capacity (call.next array.base list)
      ((call.perform array).runOn Contents.backend contents).2 := by
  rcases carries.perform_step fits room with
    ⟨error, _, unchanged, fails⟩ | ⟨answer, _, after, runs, _, reached⟩
  · rw [fails, unchanged]
    exact carries
  · rwa [runs]

namespace Call

variable {base : Slot} {calls : List Call}

theorem length_le_peak (base : Slot) (list : List Word)
    (calls : List Call) : list.length ≤ peak base list calls := by
  cases calls with
  | nil => exact Nat.le_refl _
  | cons call calls => exact Nat.le_max_left _ _

theorem peak_next_le (base : Slot) (list : List Word) (call : Call)
    (calls : List Call) :
    peak base (call.next base list) calls ≤ peak base list (call :: calls) :=
  Nat.le_max_right _ _

/-- The list only grows as far as there are slots. -/
theorem reaches_next (reaches : base.Reaches list.length) (call : Call) :
    base.Reaches (call.next base list).length := by
  have shorter : ∀ smaller ≤ list.length, base.Reaches smaller :=
    fun smaller within => reaches.mono within
  cases call with
  | append value =>
      by_cases room : base.Reaches (list.length + 1)
      · rw [next_append_of_reaches room, List.length_append]
        exact room
      · rwa [next_append_of_not_reaches room]
  | set index value => exact shorter _ (Nat.le_of_eq List.length_set)
  | removeLast =>
      exact shorter _ (List.length_dropLast.trans_le (Nat.sub_le _ _))
  | clear => exact shorter _ (Nat.zero_le _)
  | get index => exact shorter _ (Nat.le_refl _)
  | last => exact shorter _ (Nat.le_refl _)
  | size => exact shorter _ (Nat.le_refl _)
  | isEmpty => exact shorter _ (Nat.le_refl _)
  | toList => exact shorter _ (Nat.le_refl _)

theorem reaches_peak (reaches : base.Reaches list.length)
    (calls : List Call) : base.Reaches (peak base list calls) := by
  induction calls generalizing list with
  | nil => exact reaches
  | cons call calls induction =>
      have later := induction (reaches_next reaches call)
      rcases Nat.le_total list.length
          (peak base (call.next base list) calls) with smaller | larger
      · rwa [peak, Nat.max_eq_right smaller]
      · rwa [peak, Nat.max_eq_left larger]

end Call

/-- The answers are those of the list, and the cells are those of the list
that the calls lead to. -/
theorem Carries.run_attempts (fits : array.Fits capacity) {calls : List Call}
    (carries : array.Carries tidy capacity list contents)
    (room : Call.peak array.base list calls ≤ capacity) :
    ∃ after,
      (Action.attempts (Call.perform array) calls).run Contents.backend
          contents = (Call.answers array.base list calls, after) ∧
        contents.SameOff (array.area capacity) after ∧
          array.Carries tidy capacity (Call.listAfter array.base list calls)
            after := by
  induction calls generalizing list contents with
  | nil => exact ⟨contents, rfl, .refl _ _, carries⟩
  | cons call calls induction =>
      have laterRoom := (Call.peak_next_le array.base list call calls).trans
        room
      have nextRoom := (Call.length_le_peak array.base
        (call.next array.base list) calls).trans laterRoom
      rcases carries.perform_step fits nextRoom with
        ⟨error, answered, unchanged, fails⟩ |
          ⟨answer, answered, between, runs, same, reached⟩
      · rw [unchanged] at laterRoom
        obtain ⟨after, laterRuns, laterSame, laterReached⟩ :=
          induction carries laterRoom
        refine ⟨after, ?_, laterSame, ?_⟩
        · rw [Call.answers, answered, unchanged]
          exact Action.run_attempts_cons fails laterRuns
        · rwa [Call.listAfter, List.foldl_cons, unchanged]
      · obtain ⟨after, laterRuns, laterSame, laterReached⟩ :=
          induction reached laterRoom
        refine ⟨after, ?_, same.trans laterSame, laterReached⟩
        rw [Call.answers, answered]
        exact Action.run_attempts_cons runs laterRuns

theorem Call.peak_take_le (base : Slot) (list : List Word)
    (calls : List Call) (count : Nat) :
    peak base list (calls.take count) ≤ peak base list calls := by
  induction calls generalizing list count with
  | nil => rw [List.take_nil]
  | cons call calls induction =>
      cases count with
      | zero => exact length_le_peak base list (call :: calls)
      | succ count =>
          exact Nat.max_le.mpr ⟨Nat.le_max_left _ _,
            (induction _ count).trans (Nat.le_max_right _ _)⟩

/-- The list after some of the calls, and after one more, is no longer than
the longest. -/
theorem Call.length_next_le_peak (base : Slot) (list : List Word)
    (calls : List Call) {count : Nat} {call : Call}
    (found : calls[count]? = some call) :
    (call.next base (listAfter base list (calls.take count))).length ≤
      peak base list calls := by
  induction calls generalizing list count with
  | nil => cases found
  | cons first calls induction =>
      cases count with
      | zero =>
          obtain rfl : first = call := Option.some.inj found
          exact (length_le_peak base _ calls).trans
            (peak_next_le base list first calls)
      | succ count =>
          exact (induction (first.next base list) found).trans
            (peak_next_le base list first calls)

/-- On cells that start empty, as many as the list at its longest asks for,
a run of calls answers like the list.  After every call the cells are those of
the list, no other cell has changed, and if the next call is refused it leaves
all cells as they are. -/
theorem attempts_refine_elements (array : DynamicArray) (calls : List Call)
    (before : Contents)
    (small : Call.peak array.base [] calls < Word.countBound)
    (empty : ∀ cell ∈ array.area (Call.peak array.base [] calls),
      before cell = 0) (count : Nat) :
    let made := calls.take count
    let list := Call.listAfter array.base [] made
    ∃ after,
      (Action.attempts (Call.perform array) made).run Contents.backend
          before = (Call.answers array.base [] made, after) ∧
      before.SameOff (array.area (Call.peak array.base [] calls)) after ∧
      array.Holds (Call.peak array.base [] calls) list after ∧
      ∀ call error, calls[count]? = some call →
        call.answer array.base list = .error error →
          (call.perform array).Fails after error after := by
  intro made list
  have reaches : array.base.Reaches ([] : List Word).length :=
    array.base.word.isLt
  have fits : array.Fits (Call.peak array.base [] calls) :=
    ⟨Call.reaches_peak reaches calls, small⟩
  obtain ⟨after, runs, same, carries⟩ := (Carries.of_empty empty).run_attempts
    fits (Call.peak_take_le array.base [] calls count)
  refine ⟨after, runs, same, holds_iff_carries.mpr carries, ?_⟩
  intro call error found refused
  rcases carries.perform_step fits
      (Call.length_next_le_peak array.base [] calls found) with
    ⟨cause, answered, _, fails⟩ | ⟨answer, answered, _⟩
  · rw [answered] at refused
    cases refused
    exact fails
  · rw [answered] at refused
    cases refused

/-- Two slots before the last one an array takes two elements and refuses a
third one. -/
theorem attempts_refine_elements_top :
    let array : DynamicArray := ⟨.storageProcessor, ⟨BitVec.ofInt 256 (-3)⟩⟩
    let calls : List Call := [.append 7, .append 0, .append 9, .set 0 8,
      .set 2 1, .get 2, .toList, .removeLast, .last, .clear, .removeLast,
      .isEmpty]
    Call.peak array.base [] calls < Word.countBound ∧
    ∃ after,
      (Action.attempts (Call.perform array) calls).run Contents.backend
          Contents.empty =
        ([.ok .done, .ok .done, .error (.slotOverflow array.base), .ok .done,
          .error (.indexOutOfRange 2 2), .error (.indexOutOfRange 2 2),
          .ok (.values [8, 0]), .ok (.word 0), .ok (.last (some 8)),
          .ok .done, .error .emptyArray, .ok (.truth true)], after) ∧
      Contents.empty.SameOff (array.area 2) after ∧
      array.Holds 2 [] after := by
  intro array calls
  have highest : Call.peak array.base [] calls = 2 := by decide +kernel
  have small : Call.peak array.base [] calls < Word.countBound := by
    rw [highest]
    decide
  have last : Call.listAfter array.base [] calls = [] := by decide +kernel
  have answered : Call.answers array.base [] calls =
      [.ok .done, .ok .done, .error (.slotOverflow array.base), .ok .done,
        .error (.indexOutOfRange 2 2), .error (.indexOutOfRange 2 2),
        .ok (.values [8, 0]), .ok (.word 0), .ok (.last (some 8)), .ok .done,
        .error .emptyArray, .ok (.truth true)] := by
    decide +kernel
  obtain ⟨after, runs, same, holds, _⟩ := attempts_refine_elements array calls
    Contents.empty small (fun _ _ => rfl) calls.length
  rw [List.take_length, answered] at runs
  rw [highest] at same
  rw [List.take_length, highest, last] at holds
  exact ⟨small, after, runs, same, holds⟩

end DynamicArray

end SlotStorage
