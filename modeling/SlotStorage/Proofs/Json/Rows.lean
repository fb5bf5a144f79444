import SlotStorage.Proofs.Json.Reading

/-!
# Reading back rows

The items of an array and the members of an object stand in a row, with commas
between them.  If each item takes the state of the reading one step further,
the row takes it from the first state to the last.
-/

namespace SlotStorage.Json

open Reader

variable {α τ : Type}

/-- A mark after the last item of a row. -/
def Closes (closing : Char) : Prop :=
  closing = ']' ∨ closing = '\x7d'

/-- The items of a row after the point where some may have been read: each one
is separated from what stands before it in the row. -/
def remaining (started : Bool) : List (List Char) → List Char
  | [] => []
  | item :: items =>
    (if started then [','] else []) ++ item ++ remaining true items

theorem intercalate_eq_remaining (items : List (List Char)) :
    List.intercalate [','] items = remaining false items := by
  have tail (item : List Char) (items : List (List Char)) :
      List.intercalate [','] (item :: items) =
        item ++ remaining true items := by
    induction items generalizing item with
    | nil => simp [remaining]
    | cons next items induction =>
        rw [List.intercalate_cons_cons, induction]
        simp [remaining]
  cases items with
  | nil => rfl
  | cons item items =>
      rw [tail]
      simp [remaining]

/-! ## Separators -/

section Separators

variable {closing : Char} (closes : Closes closing)

include closes

theorem Closes.solid : isBlank closing = false := by
  obtain rfl | rfl := closes <;> rfl

theorem reads_another_last (started : Bool) (rest : List Char) :
    Reads (another closing started) (closing :: rest) false rest := by
  apply (reads_ahead closes.solid rest).bind
  rw [if_pos rfl]
  exact (reads_expect closing rest).bind (.pure false rest)

variable {item : List Char} (opens : Opens item)

include opens

theorem reads_another_item (started : Bool) (rest : List Char) :
    Reads (another closing started)
      ((if started then [','] else []) ++ item ++ rest) true
      (item ++ rest) := by
  obtain ⟨first, others, rfl, solid, noBracket, noBrace⟩ := opens
  have goesOn : ¬ some first = some closing := by
    rintro ⟨⟩
    obtain rfl | rfl := closes
    · exact noBracket rfl
    · exact noBrace rfl
  cases started with
  | false =>
      apply (reads_ahead solid (others ++ rest)).bind
      rw [if_neg goesOn]
      exact .pure true _
  | true =>
      have comma : ¬ some ',' = some closing := by
        rintro ⟨⟩
        obtain equal | equal := closes <;> cases equal
      apply (reads_ahead rfl _).bind
      rw [if_neg comma, if_pos rfl]
      apply (reads_expect ',' _).bind
      apply (reads_ahead solid (others ++ rest)).bind
      rw [if_neg goesOn]
      exact .pure true _

end Separators

theorem writeItems_append (opening closing : Char) (items : List (List Char))
    (rest : List Char) :
    writeItems opening closing items ++ rest =
      opening :: (remaining false items ++ closing :: rest) := by
  simp [writeItems, intercalate_eq_remaining]

/-! ## Rows -/

section Rows

variable {closing : Char} {begun : τ → Bool} {body : τ → Reader (Sum τ α)}

/-- Reads one more item of a row, or the end of the row. -/
def rowStep (closing : Char) (begun : τ → Bool) (body : τ → Reader (Sum τ α))
    (finish : τ → α) (state : τ) : Reader (Sum τ α) := do
  if ← another closing (begun state) then body state
  else return .inr (finish state)

/-- Reading the items one after another leads from one state to another. -/
inductive Passes (begun : τ → Bool) (body : τ → Reader (Sum τ α)) :
    τ → List (List Char) → τ → Prop where
  | nil (state : τ) : Passes begun body state [] state
  | cons {state next last : τ} {item : List Char} {items : List (List Char)} :
      ReadsBack (body state) item (.inl next) → begun next = true →
      Passes begun body next items last →
      Passes begun body state (item :: items) last

/-- What follows an item does not belong to it. -/
theorem ends_remaining (closes : Closes closing) (items : List (List Char))
    (rest : List Char) :
    Ends Char.isDigit (remaining true items ++ closing :: rest) := by
  cases items with
  | nil => obtain rfl | rfl := closes <;> exact ends_cons rfl rest
  | cons item items => exact ends_cons rfl _

theorem loops_row (closes : Closes closing) {state last : τ}
    {items : List (List Char)} (passes : Passes begun body state items last)
    (finish : τ → α) (rest : List Char) :
    Loops (rowStep closing begun body finish) state
      (remaining (begun state) items ++ closing :: rest) (finish last)
      rest := by
  induction passes with
  | nil state =>
      apply Loops.last
      exact (reads_another_last closes (begun state) rest).bind (.pure _ rest)
  | @cons state next last item items back started _ induction =>
      -- One item has been read, so a comma stands before each of the others.
      rw [started] at induction
      have reads : Reads (rowStep closing begun body finish state)
          (remaining (begun state) (item :: items) ++ closing :: rest)
          (.inl next) (remaining true items ++ closing :: rest) := by
        rw [remaining, List.append_assoc]
        apply (reads_another_item closes back.opens (begun state) _).bind
        exact back.reads _ (ends_remaining closes items rest)
      refine .next reads ?_ induction
      -- No item is empty, so the step takes something off.
      obtain ⟨first, others, rfl, _⟩ := back.opens
      simp only [remaining, List.length_append, List.length_cons]
      omega

end Rows

/-! ## Arrays -/

section Arrays

variable {item : Reader α} {write : α → List Char} {values : List α}

/-- Reads one item in front of those before it. -/
def itemBody (item : Reader α) (items : List α) :
    Reader (Sum (List α) (List α)) := do
  return .inl ((← item) :: items)

theorem passes_items
    (back : ∀ value ∈ values, ReadsBack item (write value) value)
    (before : List α) :
    Passes (fun items : List α => !items.isEmpty) (itemBody item) before
      (values.map write) (values.reverse ++ before) := by
  induction values generalizing before with
  | nil => exact .nil before
  | cons value values induction =>
      have first : ReadsBack (itemBody item before) (write value)
          (.inl (value :: before)) :=
        (back value List.mem_cons_self).map fun rest => .pure _ rest
      have others := induction fun value member =>
        back value (List.mem_cons_of_mem _ member)
      rw [List.reverse_cons, List.append_assoc]
      exact .cons first rfl (others (value :: before))

theorem array_readsBack
    (back : ∀ value ∈ values, ReadsBack item (write value) value) :
    ReadsBack (array item) (writeArray (values.map write)) values where
  opens := ⟨'[', _, rfl, rfl, by decide, by decide⟩
  reads rest _ := by
    -- The items are collected last first and turned round at the end.
    have loops := loops_row (.inl rfl) (passes_items back []) List.reverse rest
    rw [List.append_nil, List.reverse_reverse] at loops
    rw [writeArray, writeItems_append]
    exact (reads_mark rfl _).bind loops.loop

end Arrays

/-! ## Objects -/

section Objects

variable {σ : Type} {member : σ → List Char → Reader σ}

/-- Reading the members one after another leads from one state to another. -/
inductive Gathers (member : σ → List Char → Reader σ) :
    σ → List (String × List Char) → σ → Prop where
  | nil (state : σ) : Gathers member state [] state
  | cons {state next last : σ} {name : String} {front : List Char}
      {members : List (String × List Char)} :
      ReadsBack (member state name.toList) front next →
      Gathers member next members last →
      Gathers member state ((name, front) :: members) last

/-- Reads one member: its name, and then what the name asks for. -/
def memberBody (member : σ → List Char → Reader σ) (state : Bool × σ) :
    Reader (Sum (Bool × σ) σ) := do
  let name ← text
  mark ':'
  return .inl (true, ← member state.2 name)

theorem memberBody_readsBack {started : Bool} {state next : σ} {name : String}
    {front : List Char}
    (back : ReadsBack (member state name.toList) front next) :
    ReadsBack (memberBody member (started, state))
      (writeString name ++ ':' :: front) (.inl (true, next)) where
  opens := ⟨'"', _, rfl, rfl, by decide, by decide⟩
  reads rest ends := by
    rw [List.append_assoc]
    apply (reads_text name.toList _).bind
    apply (reads_mark rfl (front ++ rest)).bind
    exact (back.reads rest ends).bind (.pure _ rest)

theorem Gathers.passes {state last : σ} {members : List (String × List Char)}
    (gathers : Gathers member state members last) (started : Bool) :
    ∃ final, Passes Prod.fst (memberBody member) (started, state)
      (members.map fun entry => writeString entry.1 ++ ':' :: entry.2)
      (final, last) := by
  induction gathers generalizing started with
  | nil state => exact ⟨started, .nil _⟩
  | cons back _ induction =>
      obtain ⟨final, passes⟩ := induction true
      exact ⟨final, .cons (memberBody_readsBack back) rfl passes⟩

theorem object_readsBack {start last : σ}
    {members : List (String × List Char)}
    (gathers : Gathers member start members last) :
    ReadsBack (object member start) (writeObject members) last where
  opens := ⟨'\x7b', _, rfl, rfl, by decide, by decide⟩
  reads rest _ := by
    obtain ⟨final, passes⟩ := gathers.passes false
    have loops := loops_row (.inr rfl) passes Prod.snd rest
    rw [writeObject, writeItems_append]
    exact (reads_mark rfl _).bind loops.loop

/-- A field that has not been read yet is read and put in its place. -/
theorem ReadsBack.filled {reader : Reader α} {front : List Char} {value : α}
    (back : ReadsBack reader front value) {put : Option α → σ} :
    ReadsBack (fill none reader >>= fun place => pure (put place)) front
      (put (some value)) := by
  have filled : ReadsBack (fill none reader) front (some value) :=
    back.map fun rest => .pure (some value) rest
  exact filled.map fun rest => .pure (put (some value)) rest

/-- A structure that is written as an object is not taken for an array. -/
theorem ReadsBack.unplaced {placed : Reader α} {general : Reader α}
    {members : List (String × List Char)} {value : α}
    (back : ReadsBack general (writeObject members) value) :
    ReadsBack (do if (← ahead) = some '[' then placed else general)
      (writeObject members) value where
  opens := back.opens
  reads rest ends := by
    have found : Reads ahead (writeObject members ++ rest) (some '\x7b')
        (writeObject members ++ rest) := reads_ahead rfl _
    apply found.bind
    rw [if_neg (by decide)]
    exact back.reads rest ends

end Objects

/-! ## Names and fixed-width numbers -/

theorem reads_ahead_text (chars rest : List Char) :
    Reads ahead (writeText chars ++ rest) (some '"')
      (writeText chars ++ rest) :=
  reads_ahead rfl _

theorem octets_readsBack {width : Nat} (number : Octets width) :
    ReadsBack (octets width) (writeOctets number) number where
  opens := opens_writeText _
  reads rest _ := by
    apply (reads_ahead_text _ rest).bind
    apply (reads_text _ rest).bind
    exact reads_require number.ofDocumentText?_encode rest

theorem choice_readsBack {named? : String → Option α} {name : String}
    {value : α} (named : named? name = some value) :
    ReadsBack (choice named?) (writeString name) value where
  opens := opens_writeText _
  reads rest ends := by
    apply (reads_ahead_text name.toList rest).bind
    apply ((string_readsBack name).reads rest ends).bind
    exact reads_require named rest

end SlotStorage.Json
