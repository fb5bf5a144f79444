import Mathlib.Data.List.Forall2
import Mathlib.Data.List.Nodup
import SlotStorage.Proofs.Layout.Array

/-!
# Visits of all elements

A cursor reads the length anew at every step.  As long as the actions on the
way leave the shown list alone, a visit acts on the elements of that list in
order and comes to its end.
-/

namespace SlotStorage

namespace Cursor

variable {array : DynamicArray} {capacity index : Nat} {list : List Word}
  {contents : Contents}

section Steps

variable {causes : StoreError → Prop} {keeps : Contents → Prop}
  (shown : array.Shows list contents) (fits : array.Fits capacity)
  (bounded : list.length ≤ capacity) (kept : keeps contents)

include shown fits bounded kept

theorem reads_fetch (within : index < list.length) :
    Layout.Reads causes keeps (Cursor.mk array index false).fetch contents
      (some (list[index], index + 1)) := by
  have counts := fits.counts
  unfold fetch
  apply (shown.reads_size fits bounded kept).bind
  rw [if_neg (by simpa using within),
    Layout.sum_eq (show index + 1 < Word.countBound by omega)]
  apply (shown.reads_readElement fits bounded kept within).bind
  exact Layout.Reads.pure kept

theorem reads_fetch_end (reached : list.length ≤ index) :
    Layout.Reads causes keeps (Cursor.mk array index false).fetch contents
      none := by
  unfold fetch
  apply (shown.reads_size fits bounded kept).bind
  rw [if_pos reached]
  exact Layout.Reads.pure kept

end Steps

/-- A step gives what was fetched, or the failure of a call as its item. -/
theorem safe_step {causes : StoreError → Prop} {keeps : Contents → Prop}
    {item : Option (Word × Nat)}
    (fetched : Layout.Reads causes keeps (Cursor.mk array index false).fetch
      contents item) :
    (Cursor.mk array index false).step.Safe causes keeps
      (fun answer after =>
        (answer = (item.map fun found => .ok found.1,
            ⟨array, (item.map Prod.snd).getD index, false⟩) ∧
          after = contents) ∨
        ∃ cause, causes cause ∧
          answer = (some (.error (.store cause)), ⟨array, index, true⟩))
      contents := by
  unfold step
  rw [if_neg Bool.false_ne_true]
  apply Program.Safe.bind fetched
  intro answer between keptBetween ends
  cases answer with
  | ok found =>
      obtain ⟨rfl, rfl⟩ := ends
      cases found with
      | none => exact ⟨keptBetween, .inl ⟨rfl, rfl⟩⟩
      | some found => exact ⟨keptBetween, .inl ⟨rfl, rfl⟩⟩
  | error error =>
      obtain ⟨cause, picked, rfl⟩ := ends
      exact ⟨keptBetween, .inr ⟨cause, picked, rfl⟩⟩

/-- A visit from an index on, where `progress` says how far the visit is.
The induction is on the elements that are left. -/
theorem safe_visit {α : Type} {causes : StoreError → Prop}
    {keeps : Contents → Prop} {action : Word → Layout α}
    (accepts : Word → α → Prop) (progress : Nat → Contents → Prop)
    (fits : array.Fits capacity) (bounded : list.length ≤ capacity)
    (kept : ∀ index contents, progress index contents → keeps contents)
    (shows : ∀ index contents, progress index contents →
      array.Shows list contents)
    (acts : ∀ index (within : index < list.length) contents,
      progress index contents →
        Layout.Safe causes keeps (action list[index]) contents
          (fun result after => accepts list[index] result ∧
            progress (index + 1) after))
    {steps : Nat} (enough : list.length < index + steps)
    (within : index ≤ list.length) (start : progress index contents) :
    Layout.Safe causes keeps
      (visit action steps (Cursor.mk array index false)) contents
      (fun results after =>
        List.Forall₂ accepts (list.drop index) results ∧
          progress list.length after) := by
  induction steps generalizing index contents with
  | zero => omega
  | succ steps induction =>
      have shown := shows index contents start
      have keptHere := kept index contents start
      unfold visit
      by_cases finished : index = list.length
      · apply Layout.Safe.lift_bind (safe_step (reads_fetch_end shown fits
          bounded keptHere (Nat.le_of_eq finished.symm)))
        rintro answer between keptBetween (⟨rfl, rfl⟩ | ⟨cause, picked, rfl⟩)
        · subst index
          apply Layout.Safe.pure keptBetween
          exact ⟨by rw [List.drop_length]; exact .nil, start⟩
        · exact Layout.Safe.throw keptBetween picked
      · have inside : index < list.length := by omega
        apply Layout.Safe.lift_bind
          (safe_step (reads_fetch shown fits bounded keptHere inside))
        rintro answer between keptBetween (⟨rfl, rfl⟩ | ⟨cause, picked, rfl⟩)
        · apply (acts index inside between start).bind
          rintro result later _ ⟨accepted, reached⟩
          apply (induction (by omega) (by omega) reached).bind
          rintro results after keptAfter ⟨others, finished⟩
          apply Layout.Safe.pure keptAfter
          rw [List.drop_eq_getElem_cons inside]
          exact ⟨.cons accepted others, finished⟩
        · exact Layout.Safe.throw keptBetween picked

end Cursor

namespace DynamicArray

variable {array : DynamicArray} {capacity : Nat} {list : List Word}
  {contents : Contents} {causes : StoreError → Prop}
  {keeps : Contents → Prop}

theorem Shows.reads_toList (shown : array.Shows list contents)
    (fits : array.Fits capacity) (bounded : list.length ≤ capacity)
    (kept : keeps contents) :
    Layout.Reads causes keeps array.toList contents list := by
  have counts := fits.counts
  have visited : Layout.Safe causes keeps
      (Cursor.visit pure Word.countBound (Cursor.mk array 0 false)) contents
      (fun results after =>
        List.Forall₂ Eq (list.drop 0) results ∧ after = contents) := by
    apply Cursor.safe_visit Eq (fun _ after => after = contents) fits bounded
    · exact fun index after same => same ▸ kept
    · exact fun index after same => same ▸ shown
    · exact fun index within after same =>
        Layout.Safe.pure (same ▸ kept) ⟨rfl, same⟩
    · omega
    · exact Nat.zero_le _
    · rfl
  apply visited.mono
  rintro results after _ ⟨equal, same⟩
  rw [List.forall₂_eq_eq_eq, List.drop_zero] at equal
  exact ⟨equal.symm, same⟩

/-- Emptying elements one after the other, where `progress` says which
elements are empty by now. -/
theorem safe_eraseFrom (progress : Nat → Contents → Prop)
    (fits : array.Fits capacity)
    (kept : ∀ index contents, progress index contents → keeps contents)
    (step : ∀ index contents, index < capacity → progress index contents →
      progress (index + 1) (contents.set (array.element index) 0))
    {index count : Nat} (within : index + count ≤ capacity)
    (start : progress index contents) :
    Layout.Safe causes keeps (array.eraseFrom index count) contents
      (fun _ after => progress (index + count) after) := by
  induction count generalizing index contents with
  | zero => exact Layout.Safe.pure (kept index contents start) start
  | succ count induction =>
      have next := step index contents (by omega) start
      unfold eraseFrom
      rw [writeElement, fits.elementCell_eq (by omega)]
      apply (Layout.safe_write (array.element index) 0
        (kept index contents start) (kept (index + 1) _ next)).bind
      rintro answer between _ ⟨_, rfl⟩
      rw [show index + (count + 1) = index + 1 + count by omega]
      exact induction (by omega) next

/-! ## Clearing -/

/-- The list whose first words are zero. -/
def blanked (count : Nat) (list : List Word) : List Word :=
  List.replicate count 0 ++ list.drop count

theorem length_blanked {count : Nat} (within : count ≤ list.length) :
    (blanked count list).length = list.length := by
  rw [blanked, List.length_append, List.length_replicate, List.length_drop]
  omega

theorem getElem_blanked {count index : Nat}
    (within : index < (blanked count list).length)
    (listed : index < list.length) :
    (blanked count list)[index] = if index < count then 0 else list[index] := by
  simp only [blanked, List.getElem_append, List.length_replicate]
  by_cases early : index < count
  · rw [dif_pos early, if_pos early, List.getElem_replicate]
  · have place : count + (index - count) = index := by omega
    rw [dif_neg early, if_neg early, List.getElem_drop]
    simp only [place]

theorem set_blanked {count : Nat} (within : count < list.length) :
    (blanked count list).set count 0 = blanked (count + 1) list := by
  have length := length_blanked (Nat.le_of_lt within)
  have nextLength : (blanked (count + 1) list).length = list.length :=
    length_blanked within
  apply List.ext_getElem
  · rw [List.length_set, length, nextLength]
  · intro index before after
    have listed : index < list.length := by omega
    rw [List.getElem_set, getElem_blanked (by omega) listed,
      getElem_blanked after listed]
    by_cases here : count = index
    · rw [if_pos here, if_pos (by omega)]
    · rw [if_neg here]
      simp only [Nat.lt_succ_iff_lt_or_eq, Ne.symm here, or_false]

/-- Whichever words are zero already, no word of the list is lost only if it
is still the same. -/
theorem blanked_eq {count : Nat} (nodup : list.Nodup)
    (within : count ≤ list.length)
    (members : ∀ value ∈ list, value ∈ blanked count list) :
    blanked count list = list := by
  have length := length_blanked within
  apply List.ext_getElem length
  intro index before after
  rw [getElem_blanked before after]
  by_cases early : index < count
  · rw [if_pos early]
    obtain ⟨place, placeWithin, found⟩ :=
      List.mem_iff_getElem.mp (members _ (List.getElem_mem after))
    rw [getElem_blanked placeWithin (by omega)] at found
    by_cases placeEarly : place < count
    · rwa [if_pos placeEarly] at found
    · rw [if_neg placeEarly] at found
      have same := nodup.getElem_inj_iff.mp found
      omega
  · rw [if_neg early]

/-- The elements of the list are emptied from the first one on. -/
theorem Carries.safe_erase
    (carries : array.Carries tidy capacity list contents)
    (fits : array.Fits capacity)
    (kept : ∀ count ≤ list.length, ∀ between,
      contents.SameOff (array.area capacity) between →
      array.Carries tidy capacity (blanked count list) between →
        keeps between) :
    Layout.Safe causes keeps (array.eraseFrom 0 list.length) contents
      (fun _ after => contents.SameOff (array.area capacity) after ∧
        array.Carries tidy capacity (blanked list.length list) after) := by
  have bounded := carries.bounded
  have inside : 0 + list.length ≤ list.length := (Nat.zero_add _).le
  apply (safe_eraseFrom (fun count after => count ≤ list.length ∧
    contents.SameOff (array.area capacity) after ∧
      array.Carries tidy capacity (blanked count list) after)
    (fits.mono bounded) ?kept ?step inside
    ⟨Nat.zero_le _, .refl _ _, carries⟩).mono
  case kept =>
    exact fun count between ⟨within, same, reached⟩ =>
      kept count within between same reached
  case step =>
    rintro count between within ⟨_, same, reached⟩
    have length := length_blanked (Nat.le_of_lt within)
    refine ⟨within, same.set (element_mem_area (by omega)) 0, ?_⟩
    rw [← set_blanked within]
    exact reached.set_element fits (by omega) 0
  rintro _ after _ ⟨_, erased⟩
  rwa [Nat.zero_add] at erased

/-- The elements are emptied from the first one on, and then the length. -/
theorem Carries.safe_clear (carries : array.Carries tidy capacity list contents)
    (fits : array.Fits capacity)
    (kept : ∀ count ≤ list.length, ∀ between,
      contents.SameOff (array.area capacity) between →
      array.Carries tidy capacity (blanked count list) between →
        keeps between)
    (keptEmpty : ∀ between, contents.SameOff (array.area capacity) between →
      array.Carries tidy capacity [] between → keeps between) :
    Layout.Safe causes keeps array.clear contents
      (fun answer after => answer = () ∧
        contents.SameOff (array.area capacity) after ∧
          array.Carries tidy capacity [] after) := by
  have bounded := carries.bounded
  have start := kept 0 (Nat.zero_le _) contents (.refl _ _) carries
  unfold clear
  apply (carries.shown.reads_size fits bounded start).bind
  apply (carries.safe_erase fits kept).bind
  rintro _ between keptBetween ⟨same, erased⟩
  have cleared := erased.cleared fits fun value member => by
    rw [blanked, List.drop_length, List.append_nil] at member
    exact List.eq_of_mem_replicate member
  have clearedSame := same.set (array.lengthCell_mem_area capacity)
    (Word.ofCount 0)
  apply (array.safe_writeSize 0 keptBetween
    (keptEmpty _ clearedSame cleared)).mono
  rintro answer after _ ⟨rfl, rfl⟩
  exact ⟨rfl, clearedSame, cleared⟩

end DynamicArray

end SlotStorage
