import SlotStorage.Proofs.Operations
import SlotStorage.Store.Memory

/-!
# Namespaces are isolated

Operations of every kind may follow each other in any order on one store.
What those of one namespace answer, and what they leave there, is the same
without the others.  Nothing is assumed about the hash function or about what
the store holds at first: cells may be corrupt and operations may fail.
-/

namespace SlotStorage

namespace Operation

section Runs

variable [Compression]

/-- What is kept of a sequence answers in the visible namespaces, and leaves
there, what it does in the whole sequence, if everything else keeps out of
them. -/
theorem run_restrict {visible : Set Namespace} {kept : Operation → Bool}
    {operations : List Operation}
    (within : ∀ operation ∈ operations, kept operation = true →
      ∀ space ∈ operation.spaces, space ∈ visible)
    (apart : ∀ operation ∈ operations, kept operation = false →
      ∀ space ∈ operation.spaces, space ∉ visible)
    {left right : Contents} (agree : left.AgreeOn visible right) :
    (run Contents.backend operations left).1.filter
        (fun entry => kept entry.1) =
      (run Contents.backend (operations.filter kept) right).1 ∧
    (run Contents.backend operations left).2.AgreeOn visible
      (run Contents.backend (operations.filter kept) right).2 := by
  induction operations generalizing left right with
  | nil => exact ⟨rfl, agree⟩
  | cons operation operations induction =>
      have laterWithin := fun later member =>
        within later (List.mem_cons_of_mem operation member)
      have laterApart := fun later member =>
        apart later (List.mem_cons_of_mem operation member)
      cases choice : kept operation with
      | true =>
          have confined : operation.program.Confined visible :=
            operation.orderly.confined.mono
              (within operation List.mem_cons_self choice)
          obtain ⟨same, between⟩ := confined.run_agree agree
          obtain ⟨answers, after⟩ :=
            induction laterWithin laterApart between
          rw [List.filter_cons_of_pos choice]
          refine ⟨?_, after⟩
          simp only [run]
          rw [List.filter_cons_of_pos (by exact choice), answers, same]
      | false =>
          have confined : operation.program.Confined visibleᶜ :=
            operation.orderly.confined.mono
              (apart operation List.mem_cons_self choice)
          have between : (operation.program.run Contents.backend
              left).2.AgreeOn visible right := by
            intro cell inside
            rw [confined.run_outside left (not_not_intro inside)]
            exact agree cell inside
          obtain ⟨answers, after⟩ :=
            induction laterWithin laterApart between
          have unwanted : ¬ kept operation = true := by
            rw [choice]
            exact Bool.false_ne_true
          rw [List.filter_cons_of_neg unwanted]
          refine ⟨?_, after⟩
          simp only [run]
          rw [List.filter_cons_of_neg (by exact unwanted), answers]

/-- The operation is bound to the namespace. -/
def bound (space : Namespace) (operation : Operation) : Bool :=
  decide (space ∈ operation.spaces)

theorem run_bound {space : Namespace} {operations : List Operation}
    (single : ∀ operation ∈ operations, space ∈ operation.spaces →
      ∀ other ∈ operation.spaces, other = space) (before : Contents) :
    (run Contents.backend operations before).1.filter
        (fun entry => bound space entry.1) =
      (run Contents.backend (operations.filter (bound space)) before).1 ∧
    (run Contents.backend operations before).2.AgreeOn {space}
      (run Contents.backend (operations.filter (bound space)) before).2 := by
  have agree : before.AgreeOn {space} before := fun _ _ => rfl
  apply run_restrict _ _ agree
  · intro operation member chosen
    exact single operation member (of_decide_eq_true chosen)
  · rintro operation member foreign other uses rfl
    exact of_decide_eq_false foreign uses

/-- Without the operations that are bound to other namespaces, those of a
namespace give the same answers and leave the same cells there.  An entity
store is bound to two namespaces, and neither of them may be this one, unless
both are.  An append at the largest length answers `outOfRange` on both sides,
which stands for the overflow at which its run stops. -/
theorem namespaces_isolated (space : Namespace)
    (operations : List Operation)
    (single : ∀ operation ∈ operations, space ∈ operation.spaces →
      ∀ other ∈ operation.spaces, other = space) (before : Contents) :
    let whole := run Contents.backend operations before
    let alone := run Contents.backend (operations.filter (bound space)) before
    whole.1.filter (fun entry => bound space entry.1) = alone.1 ∧
      ∀ slot, whole.2 ⟨space, slot⟩ = alone.2 ⟨space, slot⟩ := by
  intro whole alone
  obtain ⟨answers, after⟩ := run_bound single before
  exact ⟨answers, fun slot => after ⟨space, slot⟩ rfl⟩

end Runs

/-- An array and a cursor on it, beside an array at the same slot of another
namespace and an entity store in two others, over a cell that holds no
length. -/
theorem namespaces_isolated_interleaved :
    letI := Compression.plain
    let space : Namespace := ⟨1⟩
    let array : DynamicArray := ⟨space, ⟨5⟩⟩
    let other : DynamicArray := ⟨⟨2⟩, ⟨5⟩⟩
    let site : EntityStore.Site :=
      ⟨HashAlgorithm.keccak256.hasher, .storageProcessor, .registryProcessor⟩
    let operations : List Operation :=
      [.onArray array (.append 7), .onArray other (.append 8),
        .onEntities site (.create .raw ⟨7⟩ ⟨9, [], [], 0⟩),
        .step array.cursor, .onCell other.lengthCell .clear,
        .ask site .raw (.get ⟨7⟩), .onArray array .size]
    let before := Contents.empty.set other.lengthCell (BitVec.allOnes 256)
    (∀ operation ∈ operations, space ∈ operation.spaces →
      ∀ other ∈ operation.spaces, other = space) ∧
    operations.filter (bound space) =
      [.onArray array (.append 7), .step array.cursor,
        .onArray array .size] ∧
    let whole := run Contents.backend operations before
    let alone := run Contents.backend (operations.filter (bound space)) before
    whole.1.filter (fun entry => bound space entry.1) = alone.1 ∧
      ∀ slot, whole.2 ⟨space, slot⟩ = alone.2 ⟨space, slot⟩ := by
  intro space array other site operations before
  have single : ∀ operation ∈ operations, space ∈ operation.spaces →
      ∀ other ∈ operation.spaces, other = space := by
    decide +kernel
  exact ⟨single, rfl, @namespaces_isolated Compression.plain space operations
    single before⟩

end Operation

/-! ## In memory -/

/-- The store in memory answers like total contents. -/
theorem Program.run_memory {α : Type} (program : Program α)
    (store : MemoryStore) :
    program.run Contents.backend store.contents =
      ((program.run MemoryStore.backend store).1,
        (program.run MemoryStore.backend store).2.contents) := by
  induction program generalizing store with
  | done result => rfl
  | read cell resume induction => exact induction _ store
  | write cell value resume induction =>
      have later := induction (.ok (store.get cell)) (store.set cell value)
      rwa [MemoryStore.contents_set] at later

namespace Operation

variable [Compression]

/-- The store in memory goes through the same contents. -/
theorem run_memory (operations : List Operation) (store : MemoryStore) :
    run Contents.backend operations store.contents =
      ((run MemoryStore.backend operations store).1,
        (run MemoryStore.backend operations store).2.contents) := by
  induction operations generalizing store with
  | nil => rfl
  | cons operation operations induction =>
      simp only [run]
      rw [Program.run_memory, induction]

/-- In memory too, the operations of a namespace give the same answers and
leave the same words without the others. -/
theorem isolated_in_memory {space : Namespace}
    {operations : List Operation}
    (single : ∀ operation ∈ operations, space ∈ operation.spaces →
      ∀ other ∈ operation.spaces, other = space) (store : MemoryStore) :
    let whole := run MemoryStore.backend operations store
    let alone := run MemoryStore.backend (operations.filter (bound space)) store
    whole.1.filter (fun entry => bound space entry.1) = alone.1 ∧
      ∀ slot, whole.2.get ⟨space, slot⟩ = alone.2.get ⟨space, slot⟩ := by
  intro whole alone
  have same := run_bound single store.contents
  rw [run_memory, run_memory] at same
  exact ⟨same.1, fun slot => same.2 ⟨space, slot⟩ rfl⟩

end Operation

end SlotStorage
