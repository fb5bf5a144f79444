import SlotStorage.Proofs.Layout.Set

/-!
# Runs of set calls

A run of calls on an enumerable set answers like the same calls on a list
without repetition, and leaves exactly the cells that stand for the list.
Every beginning of a run is a run, so the cells are known after every call.
-/

namespace SlotStorage

namespace EnumerableSet

open MemberList

/-- A call on a set. -/
inductive Call where
  | add (value : Word)
  | remove (value : Word)
  | clear
  | contains (value : Word)
  | size
  | isEmpty
  | members
  deriving DecidableEq

/-- What a call answers. -/
inductive Answer where
  | done
  | truth (value : Bool)
  | count (value : Nat)
  | values (list : List Word)
  deriving DecidableEq

namespace Call

/-- The call on a set in storage. -/
def perform (set : EnumerableSet) : Call → Layout Answer
  | .add value => do return .truth (← set.add value)
  | .remove value => do return .truth (← set.remove value)
  | .clear => do
    set.clear
    return .done
  | .contains value => do return .truth (← set.contains value)
  | .size => do return .count (← set.size)
  | .isEmpty => do return .truth (← set.isEmpty)
  | .members => do return .values (← set.toList)

/-- The answer of the call on a list. -/
def answer (list : List Word) : Call → Answer
  | .add value => .truth (value ∉ list)
  | .remove value => .truth (value ∈ list)
  | .clear => .done
  | .contains value => .truth (value ∈ list)
  | .size => .count list.length
  | .isEmpty => .truth (list = [])
  | .members => .values list

/-- The list after the call. -/
def next (list : List Word) : Call → List Word
  | .add value => MemberList.insert value list
  | .remove value => swapRemove value list
  | .clear => []
  | _ => list

/-- The call uses a known word, if it uses one. -/
def Within (words : Set Word) : Call → Prop
  | .add value | .remove value | .contains value => value ∈ words
  | _ => True

/-- The answers of calls on a list. -/
def answers : List Word → List Call → List Answer
  | _, [] => []
  | list, call :: calls => call.answer list :: answers (call.next list) calls

/-- The list after calls. -/
def listAfter (list : List Word) (calls : List Call) : List Word :=
  calls.foldl next list

end Call

variable {set : EnumerableSet} {tidy : Prop} {words : Finset Word}
  {list : List Word} {contents : Contents}

theorem Carries.perform_achieves
    (carries : set.Carries tidy words words.card list contents)
    (separate : set.Separate words words.card) {call : Call}
    (within : call.Within words) :
    (call.perform set).Achieves (set.area words words.card) contents
      (call.answer list)
      (set.Carries tidy words words.card (call.next list)) := by
  cases call with
  | add value =>
      have room : value ∉ list → list.length < words.card :=
        MemberList.length_lt_card carries.nodup carries.known within
      apply (carries.add_achieves separate within room).bind
        (Set.Subset.refl _)
      exact fun after same reached => .pure _ _ reached
  | remove value =>
      apply (carries.remove_achieves separate within).bind (Set.Subset.refl _)
      exact fun after same reached => .pure _ _ reached
  | clear =>
      apply (carries.clear_achieves separate).bind (Set.Subset.refl _)
      exact fun after same reached => .pure _ _ reached
  | contains value =>
      apply (carries.runs_contains separate within).bind_achieves
      exact .pure _ _ carries
  | size =>
      apply (carries.runs_size separate).bind_achieves
      exact .pure _ _ carries
  | isEmpty =>
      apply (carries.runs_isEmpty separate).bind_achieves
      exact .pure _ _ carries
  | members =>
      apply (carries.runs_toList separate).bind_achieves
      exact .pure _ _ carries

theorem Carries.run_attempts (separate : set.Separate words words.card)
    {calls : List Call} (within : ∀ call ∈ calls, call.Within words)
    (carries : set.Carries tidy words words.card list contents) :
    ∃ after,
      (Action.attempts (Call.perform set) calls).run Contents.backend
          contents = ((Call.answers list calls).map .ok, after) ∧
        contents.SameOff (set.area words words.card) after ∧
          set.Carries tidy words words.card (Call.listAfter list calls)
            after := by
  induction calls generalizing list contents with
  | nil => exact ⟨contents, rfl, .refl _ _, carries⟩
  | cons call calls induction =>
      obtain ⟨between, runs, same, reached⟩ :=
        carries.perform_achieves separate (within call List.mem_cons_self)
      obtain ⟨after, laterRuns, laterSame, laterReached⟩ :=
        induction (fun later member =>
          within later (List.mem_cons_of_mem call member)) reached
      exact ⟨after, Action.run_attempts_cons runs laterRuns,
        same.trans laterSame, laterReached⟩

/-- On cells that start empty, every run of calls answers like the list and
ends in the cells of the list; no other cell changes. -/
theorem attempts_refine_list (hasher : Hasher) (space : Namespace)
    (setKey : Slot) (words : Finset Word) (calls : List Call)
    (before : Contents)
    (separate : (ofKey hasher space setKey).Separate words words.card)
    (within : ∀ call ∈ calls, call.Within words)
    (empty : ∀ cell ∈ (ofKey hasher space setKey).area words words.card,
      before cell = 0) :
    ∃ after,
      (Action.attempts (Call.perform (ofKey hasher space setKey)) calls).run
          Contents.backend before =
        ((Call.answers [] calls).map .ok, after) ∧
      before.SameOff ((ofKey hasher space setKey).area words words.card)
        after ∧
      (ofKey hasher space setKey).Holds words words.card
        (Call.listAfter [] calls) after := by
  have start : (ofKey hasher space setKey).Carries True words words.card []
      before := .of_empty empty
  obtain ⟨after, runs, same, carries⟩ := start.run_attempts separate within
  exact ⟨after, runs, same, holds_iff_carries.mpr carries⟩

/-- The positions of two words in a set under Keccak-256. -/
theorem keccak_positions :
    let set := ofKey HashAlgorithm.keccak256.hasher .storageProcessor ⟨5⟩
    set.positionCell 0 = ⟨.storageProcessor,
      ⟨0xfca76011dea2a045f5f59978beb911d86628d2095424c41070168e97241ed850⟩⟩ ∧
    set.positionCell 7 = ⟨.storageProcessor,
      ⟨0x9057c34eba8eb2d3baafea3a64f8576de0539c82a972ece85363561ffea22172⟩⟩
      := by
  decide +kernel

theorem keccak_separate :
    (ofKey HashAlgorithm.keccak256.hasher .storageProcessor ⟨5⟩).Separate
      ({0, 7} : Finset Word) 2 := by
  obtain ⟨zero, seven⟩ := keccak_positions
  refine ⟨⟨by decide, by decide⟩, ?_, ?_⟩
  · intro left leftKnown right rightKnown
    simp only [Finset.coe_insert, Finset.coe_singleton, Set.mem_insert_iff,
      Set.mem_singleton_iff] at leftKnown rightKnown
    rcases leftKnown with rfl | rfl <;> rcases rightKnown with rfl | rfl <;>
      simp only [zero, seven] <;> decide
  · rintro value known ⟨offset, within, equality⟩
    simp only [Finset.coe_insert, Finset.coe_singleton, Set.mem_insert_iff,
      Set.mem_singleton_iff] at known
    have close : offset = 0 ∨ offset = 1 ∨ offset = 2 := by omega
    rcases known with rfl | rfl <;> rcases close with rfl | rfl | rfl <;>
      simp only [zero, seven] at equality <;> revert equality <;> decide

/-- Under Keccak-256 the word zero enters a set, takes the place of a removed
word, and leaves as the only member. -/
theorem attempts_refine_list_keccak :
    let set := ofKey HashAlgorithm.keccak256.hasher .storageProcessor ⟨5⟩
    set.Separate ({0, 7} : Finset Word) 2 ∧
    ∃ after,
      (Action.attempts (Call.perform set) [.add 7, .add 0, .add 7, .remove 7,
          .members, .remove 0, .isEmpty]).run Contents.backend
          Contents.empty =
        ([.ok (.truth true), .ok (.truth true), .ok (.truth false),
          .ok (.truth true), .ok (.values [0]), .ok (.truth true),
          .ok (.truth true)], after) ∧
      Contents.empty.SameOff (set.area ({0, 7} : Finset Word) 2) after ∧
      set.Holds ({0, 7} : Finset Word) 2 [] after := by
  refine ⟨keccak_separate, ?_⟩
  exact attempts_refine_list HashAlgorithm.keccak256.hasher
    .storageProcessor ⟨5⟩ {0, 7} [.add 7, .add 0, .add 7, .remove 7, .members,
      .remove 0, .isEmpty] Contents.empty keccak_separate
      (by simp [Call.Within]) (fun _ _ => rfl)

end EnumerableSet

end SlotStorage
