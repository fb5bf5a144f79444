import SlotStorage.Zstd.Bits

/-!
# Finite state entropy

A distribution gives every symbol its share of the states of an automaton.  A
state stands for a symbol and says how the next state follows from a few bits
of the stream.
-/

namespace SlotStorage.Zstd.Fse

/-- The share of a symbol: a count of states, or less than one state. -/
inductive Share where
  | states (count : Nat)
  | rare
  deriving DecidableEq, Repr

def Share.weight : Share → Nat
  | .states count => count
  | .rare => 1

/-- The shares of the symbols from zero on, and the binary logarithm of the
count of states. -/
structure Distribution where
  accuracy : Nat
  shares : List Share

/-- A state: its symbol, the count of bits to read, and what these bits are
added to. -/
structure State where
  symbol : Nat
  bits : Nat
  base : Nat
  deriving Inhabited

/-- An automaton. -/
structure Table where
  accuracy : Nat
  states : Array State

namespace Distribution

/-- Counts how many pairs of set bits follow each other from a bit on, and the
number formed by the pair that ends them.  The first number bounds the
count. -/
def zeroRun (bytes : Array UInt8) : Nat → Nat → Nat × Nat
  | 0, first => (0, first)
  | limit + 1, first =>
    let pair := bitsAt bytes first 2
    if pair = 3 then
      let (count, next) := zeroRun bytes limit (first + 2)
      (count + 3, next)
    else (pair, first + 2)

/-- Reads the share of the next symbol at a bit, where `remaining` states are
left to give out.  A value that the larger numbers cannot need is written with
one bit less. -/
def readShare (bytes : Array UInt8) (first remaining : Nat) : Share × Nat :=
  let width := Nat.log2 (remaining + 1) + 1
  let threshold := 1 <<< (width - 1)
  let short := 2 * threshold - 1 - (remaining + 1)
  let low := bitsAt bytes first (width - 1)
  let (value, next) :=
    if low < short then (low, first + (width - 1))
    else
      let full := bitsAt bytes first width
      (if full < threshold then full else full - short, first + width)
  (if value = 0 then .rare else .states (value - 1), next)

/-- Reads shares until all states are given out, for at most the given count of
symbols.  The result ends with the bit after the last share. -/
def readShares (bytes : Array UInt8) (symbols first remaining : Nat) :
    Option (List Share × Nat) :=
  if remaining = 0 then some ([], first)
  else
    match symbols with
    | 0 => none
    | symbols + 1 =>
      let (share, next) := readShare bytes first remaining
      if share = .states 0 then
        let (zeros, next) := zeroRun bytes symbols next
        if symbols ≤ zeros then none
        else
          match readShares bytes (symbols - zeros) next remaining with
          | some (shares, last) =>
            some (share :: (List.replicate zeros (.states 0) ++ shares), last)
          | none => none
      else
        match readShares bytes symbols next (remaining - share.weight) with
        | some (shares, last) => some (share :: shares, last)
        | none => none
termination_by symbols
decreasing_by
  · exact Nat.lt_succ_of_le (Nat.sub_le _ _)
  · exact Nat.lt_succ_self _

/-- Reads a distribution over at most the given count of symbols.  The result
holds the count of bytes read. -/
def read? (bytes : Array UInt8) (symbols maxAccuracy : Nat) :
    Option (Distribution × Nat) :=
  let accuracy := bitsAt bytes 0 4 + 5
  if maxAccuracy < accuracy then none
  else
    match readShares bytes symbols 4 (1 <<< accuracy) with
    | none => none
    | some (shares, last) =>
      let size := (last + 7) / 8
      if bytes.size < size then none else some (⟨accuracy, shares⟩, size)

end Distribution

namespace Table

def single (symbol : Nat) : Table :=
  ⟨0, #[⟨symbol, 0, 0⟩]⟩

/-- Gives each rare symbol one state, from the last state downward.  The result
holds the count of the states that are left. -/
def placeRare (size : Nat) :
    List (Share × Nat) → Nat → Array Nat → Nat × Array Nat
  | [], free, places => (free, places)
  | (share, symbol) :: others, free, places =>
    if share = .rare then
      placeRare size others (free - 1)
        (places.setIfInBounds (free - 1) symbol)
    else placeRare size others free places

/-- The next place of the walk over the states, which leaves out the states of
rare symbols.  The first number bounds how many of these are passed over. -/
def nextPlace (size free : Nat) : Nat → Nat → Nat
  | 0, place => place
  | limit + 1, place =>
    let next := (place + size / 2 + size / 8 + 3) % size
    if next < free then next else nextPlace size free limit next

def placeSymbol (size free symbol : Nat) :
    Nat → Nat → Array Nat → Nat × Array Nat
  | 0, place, places => (place, places)
  | count + 1, place, places =>
    placeSymbol size free symbol count (nextPlace size free size place)
      (places.setIfInBounds place symbol)

/-- Gives all symbols that are not rare their states along the walk. -/
def placeAll (size free : Nat) :
    List (Share × Nat) → Nat → Array Nat → Array Nat
  | [], _, places => places
  | (share, symbol) :: others, place, places =>
    match share with
    | .rare => placeAll size free others place places
    | .states count =>
      let (place, places) := placeSymbol size free symbol count place places
      placeAll size free others place places

/-- Numbers the states of each symbol in order: a symbol with `n` states
numbers them from `n` on, and the number decides how many bits follow and what
they are added to. -/
def number (accuracy : Nat) :
    List Nat → Array Nat → Array State → Array State
  | [], _, states => states
  | symbol :: others, counters, states =>
    let counter := counters.getD symbol 0
    let bits := accuracy - Nat.log2 counter
    number accuracy others (counters.setIfInBounds symbol (counter + 1))
      (states.push ⟨symbol, bits, (counter <<< bits) - (1 <<< accuracy)⟩)

def ofDistribution (distribution : Distribution) : Table :=
  let size := 1 <<< distribution.accuracy
  let symbols := distribution.shares.zipIdx
  let (free, places) := placeRare size symbols size (Array.replicate size 0)
  let places := placeAll size free symbols 0 places
  let counters := (distribution.shares.map Share.weight).toArray
  ⟨distribution.accuracy, number distribution.accuracy places.toList counters
    (Array.mkEmpty size)⟩

def start? (table : Table) (stream : BitStream) : Option (State × BitStream) :=
  match stream.read? table.accuracy with
  | some (index, rest) => some (table.states.getD index default, rest)
  | none => none

def next? (table : Table) (state : State) (stream : BitStream) :
    Option (State × BitStream) :=
  match stream.read? state.bits with
  | some (value, rest) =>
    some (table.states.getD (state.base + value) default, rest)
  | none => none

end Table

end SlotStorage.Zstd.Fse
