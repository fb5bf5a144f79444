import Mathlib.Data.Finset.Card
import Mathlib.Data.List.Nodup
import Mathlib.Data.List.Perm.Basic

/-!
# Lists without repetition under swap removal

The abstract form of an enumerable set is a list without repetition.  A value
enters at the end; when it leaves, the last value takes its place.  Places are
counted from one, and zero says that a value is not there.
-/

namespace SlotStorage.MemberList

variable {α : Type} [DecidableEq α]

/-- The list with a value at the end, unless it is there already. -/
def insert (value : α) (list : List α) : List α :=
  if value ∈ list then list else list ++ [value]

/-- The list without a value, whose place the last value takes. -/
def swapRemove (value : α) (list : List α) : List α :=
  match list.getLast? with
  | none => []
  | some last =>
    if value ∈ list then (list.set (list.idxOf value) last).dropLast else list

/-- The place of a value counted from one, or zero. -/
def placeOf (value : α) (list : List α) : Nat :=
  if value ∈ list then list.idxOf value + 1 else 0

variable {list : List α} {value other : α} {index : Nat}

theorem swapRemove_of_not_mem (absent : value ∉ list) :
    swapRemove value list = list := by
  unfold swapRemove
  cases last : list.getLast? with
  | none => exact (List.getLast?_eq_none_iff.mp last).symm
  | some last => exact if_neg absent

theorem swapRemove_getElem (nodup : list.Nodup) (within : index < list.length)
    (occupied : list ≠ []) :
    swapRemove list[index] list =
      (list.set index (list.getLast occupied)).dropLast := by
  have found : list.idxOf list[index] = index :=
    nodup.idxOf_getElem index within
  unfold swapRemove
  rw [List.getLast?_eq_some_getLast occupied]
  change (if list[index] ∈ list then _ else list) = _
  rw [if_pos (List.getElem_mem within), found]

theorem length_swapRemove (member : value ∈ list) :
    (swapRemove value list).length = list.length - 1 := by
  have occupied : list ≠ [] := List.ne_nil_of_mem member
  unfold swapRemove
  rw [List.getLast?_eq_some_getLast occupied]
  change (if value ∈ list then _ else list).length = _
  rw [if_pos member, List.length_dropLast, List.length_set]

/-- Up to order, swap removal is removal. -/
theorem swapRemove_perm (nodup : list.Nodup) :
    (swapRemove value list).Perm (list.erase value) := by
  by_cases member : value ∈ list
  · have occupied : list ≠ [] := List.ne_nil_of_mem member
    obtain ⟨index, within, rfl⟩ := List.mem_iff_getElem.mp member
    have found : list.idxOf list[index] = index :=
      nodup.idxOf_getElem index within
    let moved := list.set index (list.getLast occupied)
    have movedWithin : index < moved.length := by
      rw [List.length_set]
      exact within
    have movedOccupied : moved ≠ [] := List.ne_nil_of_length_pos (by omega)
    have movedLast : moved.getLast movedOccupied =
        list.getLast occupied := by
      rw [List.getLast_eq_getElem, List.getElem_set]
      split
      · rfl
      · simp only [List.getLast_eq_getElem, List.length_set, moved]
    have movedFirst : moved[index] = list.getLast occupied :=
      List.getElem_set_self _
    rw [swapRemove_getElem nodup within occupied,
      ← List.eraseIdx_idxOf_eq_erase, found]
    -- both sides together with the last value are the list after the move
    apply (List.perm_cons (list.getLast occupied)).mp
    calc
      (list.getLast occupied :: moved.dropLast).Perm
          (moved.dropLast ++ [list.getLast occupied]) :=
        (List.perm_append_singleton _ _).symm
      _ = moved := by rw [← movedLast, List.dropLast_concat_getLast]
      List.Perm _ (moved[index] :: moved.eraseIdx index) :=
        (List.getElem_cons_eraseIdx_perm movedWithin).symm
      _ = list.getLast occupied :: list.eraseIdx index := by
        rw [movedFirst, List.eraseIdx_set_eq]
  · rw [swapRemove_of_not_mem member, List.erase_of_not_mem member]

theorem nodup_swapRemove (value : α) (nodup : list.Nodup) :
    (swapRemove value list).Nodup :=
  (swapRemove_perm nodup).nodup_iff.mpr (nodup.erase value)

theorem mem_swapRemove_iff (nodup : list.Nodup) :
    other ∈ swapRemove value list ↔ other ≠ value ∧ other ∈ list := by
  rw [(swapRemove_perm nodup).mem_iff]
  exact nodup.mem_erase_iff

theorem nodup_insert (value : α) (nodup : list.Nodup) :
    (insert value list).Nodup := by
  unfold insert
  by_cases member : value ∈ list
  · rwa [if_pos member]
  · rw [if_neg member]
    exact (List.perm_append_singleton value list).nodup_iff.mpr
      (List.nodup_cons.mpr ⟨member, nodup⟩)

theorem mem_insert_iff :
    other ∈ insert value list ↔ other = value ∨ other ∈ list := by
  unfold insert
  by_cases member : value ∈ list
  · rw [if_pos member]
    constructor
    · exact .inr
    · rintro (rfl | listed)
      · exact member
      · exact listed
  · rw [if_neg member, List.mem_append, List.mem_singleton]
    exact or_comm

/-- The value that entered last leaves without a trace. -/
theorem swapRemove_concat (absent : value ∉ list) :
    swapRemove value (list ++ [value]) = list := by
  have place : (list ++ [value]).idxOf value = list.length := by
    rw [List.idxOf_append, if_neg absent]
    simp
  unfold swapRemove
  rw [List.getLast?_concat, place]
  simp

theorem placeOf_of_not_mem (absent : value ∉ list) : placeOf value list = 0 :=
  if_neg absent

theorem placeOf_getElem (nodup : list.Nodup) (within : index < list.length) :
    placeOf list[index] list = index + 1 := by
  rw [placeOf, if_pos (List.getElem_mem within),
    nodup.idxOf_getElem index within]

theorem placeOf_eq_zero_iff : placeOf value list = 0 ↔ value ∉ list := by
  unfold placeOf
  split <;> simp [*]

theorem placeOf_le_length : placeOf value list ≤ list.length := by
  unfold placeOf
  by_cases member : value ∈ list
  · rw [if_pos member]
    exact List.idxOf_lt_length_of_mem member
  · rw [if_neg member]
    exact Nat.zero_le _

theorem eq_getElem_of_placeOf (within : index < list.length)
    (place : placeOf value list = index + 1) : value = list[index] := by
  unfold placeOf at place
  by_cases member : value ∈ list
  · rw [if_pos member] at place
    have found : list.idxOf value = index := by omega
    subst found
    exact (List.getElem_idxOf within).symm
  · rw [if_neg member] at place
    omega

theorem placeOf_concat (absent : value ∉ list) :
    placeOf other (list ++ [value]) =
      if other = value then list.length + 1 else placeOf other list := by
  by_cases same : other = value
  · subst other
    rw [if_pos rfl, placeOf, if_pos (by simp), List.idxOf_append,
      if_neg absent]
    simp
  · rw [if_neg same]
    by_cases member : other ∈ list
    · rw [placeOf, placeOf, if_pos (by simp [member]), if_pos member,
        List.idxOf_append, if_pos member]
    · rw [placeOf_of_not_mem member, placeOf_of_not_mem (by simp [*])]

/-- The removed value has no place, the last value has the place that became
free, and the others stay where they are. -/
theorem placeOf_swapRemove (nodup : list.Nodup) (within : index < list.length)
    (occupied : list ≠ []) :
    placeOf other (swapRemove list[index] list) =
      if other = list[index] then 0
      else if other = list.getLast occupied then index + 1
      else placeOf other list := by
  have reducedNodup : (swapRemove list[index] list).Nodup :=
    nodup_swapRemove _ nodup
  have length := length_swapRemove (List.getElem_mem within)
  have shape := swapRemove_getElem nodup within occupied
  by_cases removed : other = list[index]
  · rw [if_pos removed]
    apply placeOf_of_not_mem
    rw [mem_swapRemove_iff nodup]
    exact fun both => both.1 removed
  · rw [if_neg removed]
    by_cases last : other = list.getLast occupied
    · rw [if_pos last]
      have earlier : index < list.length - 1 := by
        by_contra notEarlier
        have same : index = list.length - 1 := by omega
        apply removed
        rw [last, List.getLast_eq_getElem]
        simp only [same]
      have reducedWithin : index < (swapRemove list[index] list).length := by
        omega
      have placed : (swapRemove list[index] list)[index] = other := by
        simp only [shape, List.getElem_dropLast, List.getElem_set_self, last]
      rw [← placed]
      exact placeOf_getElem reducedNodup reducedWithin
    · rw [if_neg last]
      by_cases member : other ∈ list
      · obtain ⟨place, placeWithin, rfl⟩ := List.mem_iff_getElem.mp member
        have differs : index ≠ place := by
          rintro rfl
          exact removed rfl
        have earlier : place < list.length - 1 := by
          by_contra notEarlier
          have same : place = list.length - 1 := by omega
          apply last
          rw [List.getLast_eq_getElem]
          simp only [same]
        have reducedWithin : place < (swapRemove list[index] list).length := by
          omega
        have placed : (swapRemove list[index] list)[place] = list[place] := by
          simp only [shape, List.getElem_dropLast, List.getElem_set_ne differs]
        rw [placeOf_getElem nodup placeWithin, ← placed]
        exact placeOf_getElem reducedNodup reducedWithin
      · rw [placeOf_of_not_mem member]
        apply placeOf_of_not_mem
        rw [mem_swapRemove_iff nodup]
        exact fun both => member both.2

/-- A list without repetition that misses a known value has room for it. -/
theorem length_lt_card {known : Finset α} (nodup : list.Nodup)
    (members : ∀ value ∈ list, value ∈ known) (valueKnown : value ∈ known)
    (absent : value ∉ list) : list.length < known.card := by
  have extended : (value :: list).toFinset ⊆ known := by
    intro other member
    rcases List.mem_cons.mp (List.mem_toFinset.mp member) with rfl | earlier
    · exact valueKnown
    · exact members other earlier
  have counted := List.toFinset_card_of_nodup (nodup.cons absent)
  have bounded := Finset.card_le_card extended
  rw [counted, List.length_cons] at bounded
  exact bounded

/-! ## Other names for the values -/

section Renaming

variable {β : Type} [DecidableEq β] {rename : α → β}
  (injective : Function.Injective rename)

include injective

theorem insert_map (value : α) (list : List α) :
    insert (rename value) (list.map rename) =
      (insert value list).map rename := by
  have listed := List.mem_map_of_injective injective (l := list) (a := value)
  unfold insert
  by_cases member : value ∈ list
  · rw [if_pos (listed.mpr member), if_pos member]
  · rw [if_neg (mt listed.mp member), if_neg member, List.map_append,
      List.map_singleton]

theorem idxOf_map (value : α) (list : List α) :
    (list.map rename).idxOf (rename value) = list.idxOf value := by
  unfold List.idxOf
  rw [List.findIdx_map]
  congr 1
  funext other
  exact decide_eq_decide.mpr injective.eq_iff

theorem swapRemove_map (value : α) (list : List α) :
    swapRemove (rename value) (list.map rename) =
      (swapRemove value list).map rename := by
  have listed := List.mem_map_of_injective injective (l := list) (a := value)
  unfold swapRemove
  rw [List.getLast?_map, idxOf_map injective]
  cases list.getLast? with
  | none => rfl
  | some last =>
      by_cases member : value ∈ list
      · simp only [Option.map_some, if_pos member, if_pos (listed.mpr member),
          List.map_dropLast, List.map_set]
      · simp only [Option.map_some, if_neg member,
          if_neg (mt listed.mp member)]

end Renaming

end SlotStorage.MemberList
