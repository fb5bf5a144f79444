import SlotStorage.Store.Backend

/-!
# Failing stores

A fault plan decides which store calls fail, from the calls made so far.  A
call that fails changes nothing.
-/

namespace SlotStorage

/-- A store call. -/
inductive Access where
  | read (cell : Cell)
  | write (cell : Cell) (value : Word)
  deriving DecidableEq

namespace Access

def cell : Access → Cell
  | .read cell => cell
  | .write cell _ => cell

def failure (reason : String) : Access → StoreError
  | .read cell => .readFailed cell reason
  | .write cell _ => .writeFailed cell reason

end Access

/-- Decides whether a call fails, from the counts of reads and writes made
before it. -/
structure FaultPlan where
  failure? : (reads writes : Nat) → Access → Option StoreError

namespace FaultPlan

def none : FaultPlan :=
  ⟨fun _ _ _ => Option.none⟩

def readsAfter (count : Nat) (cause : Access → StoreError) : FaultPlan :=
  ⟨fun reads _ access =>
    match access with
    | .read _ => if count ≤ reads then some (cause access) else Option.none
    | .write _ _ => Option.none⟩

def writesAfter (count : Nat) (cause : Access → StoreError) : FaultPlan :=
  ⟨fun _ writes access =>
    match access with
    | .read _ => Option.none
    | .write _ _ => if count ≤ writes then some (cause access) else Option.none⟩

def onCell (cell : Cell) (cause : Access → StoreError) : FaultPlan :=
  ⟨fun _ _ access =>
    if access.cell = cell then some (cause access) else Option.none⟩

def afterCalls (count : Nat) (error : StoreError) : FaultPlan :=
  ⟨fun reads writes _ =>
    if reads + writes = count then some error else Option.none⟩

end FaultPlan

/-- A state together with the counts of the calls made on it. -/
structure Counted (σ : Type) where
  state : σ
  reads : Nat := 0
  writes : Nat := 0

/-- The backend on which the calls fail that a plan picks. -/
def Backend.withFaults {σ : Type} (backend : Backend σ) (plan : FaultPlan) :
    Backend (Counted σ) where
  read cell counted :=
    match plan.failure? counted.reads counted.writes (.read cell) with
    | some error => (.error error, { counted with reads := counted.reads + 1 })
    | none =>
      let (answer, state) := backend.read cell counted.state
      (answer, { counted with state := state, reads := counted.reads + 1 })
  write cell value counted :=
    match plan.failure? counted.reads counted.writes (.write cell value) with
    | some error =>
      (.error error, { counted with writes := counted.writes + 1 })
    | none =>
      let (answer, state) := backend.write cell value counted.state
      (answer, { counted with state := state, writes := counted.writes + 1 })

end SlotStorage
