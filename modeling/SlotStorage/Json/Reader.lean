import SlotStorage.Text.Reader
import SlotStorage.Word

/-!
# Reading JSON

Values are read as the type that is expected; what nobody asks for is passed
over by its form alone.  A structure may be written as an object, whose unknown
members are passed over, or as the array of its fields.
-/

namespace SlotStorage.Json

def isBlank (char : Char) : Bool :=
  char = ' ' || char = '\n' || char = '\t' || char = '\r'

def blanks : Reader Unit :=
  Reader.skipWhile isBlank

def mark (char : Char) : Reader Unit := do
  blanks
  Reader.expect char

def ahead : Reader (Option Char) := do
  blanks
  Reader.peek

def escape? (letter : Char) : Option Char :=
  if letter = '"' then some '"'
  else if letter = '\\' then some '\\'
  else if letter = '/' then some '/'
  else if letter = 'b' then some '\x08'
  else if letter = 'f' then some '\x0c'
  else if letter = 'n' then some '\n'
  else if letter = 'r' then some '\r'
  else if letter = 't' then some '\t'
  else none

def unit? (a b c d : Char) : Option Nat := do
  let first ← Hex.digitValue? a.toNat
  let second ← Hex.digitValue? b.toNat
  let third ← Hex.digitValue? c.toNat
  let fourth ← Hex.digitValue? d.toNat
  return ((first * 16 + second) * 16 + third) * 16 + fourth

/-- The character of one unit: none if the unit is half of a pair. -/
def single? (code : Nat) : Option Char :=
  if code.isValidChar then some (Char.ofNat code) else none

def pair? (high low : Nat) : Option Char :=
  if 0xD800 ≤ high ∧ high < 0xDC00 ∧ 0xDC00 ≤ low ∧ low < 0xE000 then
    some (Char.ofNat (0x10000 + (high - 0xD800) * 0x400 + (low - 0xDC00)))
  else none

/-- A text with one more character in front, and what comes after it. -/
def prepend? (char : Option Char) (text : Option (List Char × List Char)) :
    Option (List Char × List Char) :=
  match char, text with
  | some char, some (chars, rest) => some (char :: chars, rest)
  | _, _ => none

/-- Reads a text up to the closing quote.  Two escaped units may form one
character, but half of a pair may not stand alone. -/
def textBody : Reader (List Char)
  | [] => none
  | '"' :: rest => some ([], rest)
  | '\\' :: 'u' :: a :: b :: c :: d :: rest =>
    match (unit? a b c d).bind single? with
    | some char => prepend? (some char) (textBody rest)
    | none =>
      match rest with
      | '\\' :: 'u' :: e :: f :: g :: h :: rest =>
        prepend? (do pair? (← unit? a b c d) (← unit? e f g h)) (textBody rest)
      | _ => none
  | '\\' :: letter :: rest => prepend? (escape? letter) (textBody rest)
  | char :: rest =>
    if char.toNat < 0x20 then none else prepend? (some char) (textBody rest)

def text : Reader (List Char) := do
  mark '"'
  textBody

/-- Passes over a text up to the closing quote.  The halves of pairs are not
checked. -/
def skipText : Reader Unit
  | [] => none
  | '"' :: rest => some ((), rest)
  | '\\' :: 'u' :: a :: b :: c :: d :: rest =>
    if (unit? a b c d).isSome then skipText rest else none
  | '\\' :: letter :: rest =>
    if (escape? letter).isSome then skipText rest else none
  | char :: rest => if char.toNat < 0x20 then none else skipText rest

/-- Reads the digits of a whole number, which start with a zero only if it is
zero. -/
def wholeDigits : Reader (List Char)
  | '0' :: rest => some (['0'], rest)
  | chars => Reader.takeSome Char.isDigit chars

def skipNumber : Reader Unit := do
  let _ ← Reader.accept '-'
  let _ ← wholeDigits
  if ← Reader.accept '.' then
    let _ ← Reader.takeSome Char.isDigit
  let first ← Reader.peek
  if first = some 'e' ∨ first = some 'E' then
    let _ ← Reader.next
    let second ← Reader.peek
    if second = some '+' ∨ second = some '-' then
      let _ ← Reader.next
    let _ ← Reader.takeSome Char.isDigit

/-- Reads what separates the items of an array or object that is closed by the
given character: says whether one more item follows.  The mark says whether an
item was read already. -/
def another (closing : Char) (started : Bool) : Reader Bool := do
  let first ← ahead
  if first = some closing then
    Reader.expect closing
    return false
  else if started then
    Reader.expect ','
    let second ← ahead
    if second = some closing then failure else return true
  else return true

/-- Passes over a value, given how to pass over the values inside it. -/
def skipWith (inner : Reader Unit) : Reader Unit := do
  match ← ahead with
  | some '"' =>
    Reader.expect '"'
    skipText
  | some '[' =>
    Reader.expect '['
    Reader.loop
      (fun started => do
        if ← another ']' started then
          inner
          return .inl true
        else return .inr ())
      false
  | some '\x7b' =>
    Reader.expect '\x7b'
    Reader.loop
      (fun started => do
        if ← another '\x7d' started then
          mark '"'
          skipText
          mark ':'
          inner
          return .inl true
        else return .inr ())
      false
  | some 't' => Reader.expectAll ['t', 'r', 'u', 'e']
  | some 'f' => Reader.expectAll ['f', 'a', 'l', 's', 'e']
  | some 'n' => Reader.expectAll ['n', 'u', 'l', 'l']
  | _ => skipNumber

/-- Passes over a value that nests at most to the given depth. -/
def skipTo : Nat → Reader Unit
  | 0 => failure
  | depth + 1 => skipWith (skipTo depth)

/-- Passes over a value.  It cannot nest deeper than the text is long. -/
def skip : Reader Unit := fun chars =>
  skipTo (chars.length + 1) chars

def natural : Reader Nat := do
  blanks
  return Nat.ofDigitChars 10 (← wholeDigits) 0

/-- Reads a whole number.  A zero with a sign is none. -/
def integer : Reader Int := do
  blanks
  if ← Reader.accept '-' then
    let number := Nat.ofDigitChars 10 (← wholeDigits) 0
    if number = 0 then failure else return -(number : Int)
  else return (← natural)

def uint64 : Reader UInt64 := do
  let number ← natural
  if number < Word.countBound then return UInt64.ofNat number else failure

def int32 : Reader Int32 := do
  let number ← integer
  if -2147483648 ≤ number ∧ number < 2147483648 then
    return Int32.ofInt number
  else failure

def string : Reader String := do
  return String.ofList (← text)

def array {α : Type} (item : Reader α) : Reader (List α) := do
  mark '['
  Reader.loop
    (fun (items : List α) => do
      if ← another ']' !items.isEmpty then return .inl ((← item) :: items)
      else return .inr items.reverse)
    []

/-- Reads the members of an object into a value that starts as given. -/
def object {σ : Type} (member : σ → List Char → Reader σ) (start : σ) :
    Reader σ := do
  mark '\x7b'
  let result ← Reader.loop
    (fun (started, state) => do
      if ← another '\x7d' started then
        let name ← text
        mark ':'
        return .inl (true, ← member state name)
      else return .inr state)
    (false, start)
  return result

def fill {α : Type} (place : Option α) (value : Reader α) :
    Reader (Option α) := do
  if place.isSome then failure else return some (← value)

/-- Reads the next item of an array that is taken apart by position, unless the
array ends here. -/
def item? {α : Type} (started : Bool) (value : Reader α) :
    Reader (Option α) := do
  let first ← ahead
  if first = some ']' then return none
  else
    if started then mark ','
    return some (← value)

/-- Reads the next item of an array that is taken apart by position. -/
def item {α : Type} (started : Bool) (value : Reader α) : Reader α := do
  Reader.require (← item? started value)

/-- Reads a fixed-width number: its hexadecimal digits as a text, or the array
of its bytes. -/
def octets (width : Nat) : Reader (Octets width) := do
  match ← ahead with
  | some '"' => Reader.require (Octets.ofDocumentText? width (← text))
  | _ =>
    let bytes ← array natural
    if bytes.all (· < 256) then
      Reader.require (Octets.ofBytes? width (bytes.map UInt8.ofNat))
    else failure

/-- Reads one of some names: as a text, or as an object that gives the name an
empty value. -/
def choice {α : Type} (named? : String → Option α) : Reader α := do
  match ← ahead with
  | some '"' => Reader.require (named? (← string))
  | _ =>
    mark '\x7b'
    let value ← Reader.require (named? (← string))
    mark ':'
    blanks
    Reader.expectAll ['n', 'u', 'l', 'l']
    mark '\x7d'
    return value

def parse? {α : Type} (reader : Reader α) (document : String) : Option α :=
  Reader.all (do
    let value ← reader
    blanks
    return value) document.toList

end SlotStorage.Json
