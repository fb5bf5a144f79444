/-!
# Readers of text

A reader takes a value off the front of a list of characters, or fails.
-/

namespace SlotStorage

/-- Reads a value from the front of a text and gives back the characters after
it. -/
abbrev Reader (α : Type) := StateT (List Char) Option α

namespace Reader

variable {α β : Type}

def peek : Reader (Option Char) := fun chars =>
  some (chars.head?, chars)

def next : Reader Char
  | [] => none
  | char :: rest => some (char, rest)

def expect (char : Char) : Reader Unit
  | [] => none
  | first :: rest => if first = char then some ((), rest) else none

def expectAll : List Char → Reader Unit
  | [] => pure ()
  | char :: chars => do
    expect char
    expectAll chars

/-- Reads the characters up to the first one that does not meet the
condition. -/
def takeWhile (condition : Char → Bool) : Reader (List Char) := fun chars =>
  some (chars.takeWhile condition, chars.dropWhile condition)

/-- Passes over the characters up to the first one that does not meet the
condition. -/
def skipWhile (condition : Char → Bool) : Reader Unit := fun chars =>
  some ((), chars.dropWhile condition)

/-- Reads at least one character that meets the condition, and all such
characters after it. -/
def takeSome (condition : Char → Bool) : Reader (List Char) := do
  let chars ← takeWhile condition
  if chars.isEmpty then failure else return chars

/-- A value that may be missing; a reader that fails reads nothing. -/
def optional (reader : Reader α) : Reader (Option α) := fun chars =>
  match reader chars with
  | some (value, rest) => some (some value, rest)
  | none => some (none, chars)

/-- Reads the given character if it comes next, and says whether it did. -/
def accept (char : Char) : Reader Bool
  | [] => some (false, [])
  | first :: rest =>
    if first = char then some (true, rest) else some (false, first :: rest)

def require : Option α → Reader α
  | some value => pure value
  | none => failure

/-- Takes steps until one gives a result, at most the given count of them. -/
def iterate (step : β → Reader (Sum β α)) : Nat → β → Reader α
  | 0, _ => failure
  | steps + 1, state => do
    match ← step state with
    | .inl state => iterate step steps state
    | .inr result => return result

/-- Takes steps until one gives a result.  A step that goes on has to read
something, so there are no more of them than characters. -/
def loop (step : β → Reader (Sum β α)) (state : β) : Reader α := fun chars =>
  iterate step (chars.length + 1) state chars

def all (reader : Reader α) (text : List Char) : Option α :=
  match reader text with
  | some (value, []) => some value
  | _ => none

end Reader

end SlotStorage
