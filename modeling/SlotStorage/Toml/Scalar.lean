import SlotStorage.Toml.Text
import SlotStorage.Toml.Value

/-!
# TOML numbers, dates and truth values

Integers have 64 bits and may be written in four bases.  Numbers with a
fraction are checked for their form and for being finite, dates and times for
their ranges.
-/

namespace SlotStorage.Toml

/-- Reads digits, between which single underscores may stand, and gives them
without these.  The mark says whether a digit was read last. -/
def digitRun (isDigit : Char → Bool) : Bool → List Char → List Char × List Char
  | _, [] => ([], [])
  | afterDigit, char :: rest =>
    if isDigit char then
      let (found, after) := digitRun isDigit true rest
      (char :: found, after)
    else if char = '_' ∧ afterDigit ∧ rest.head?.any isDigit then
      digitRun isDigit false rest
    else ([], char :: rest)

def digits (isDigit : Char → Bool) : Reader (List Char) := fun chars =>
  match digitRun isDigit false chars with
  | ([], _) => none
  | (found, rest) => some (found, rest)

def decimalValue (found : List Char) : Nat :=
  found.foldl (fun number digit => 10 * number + (digit.toNat - '0'.toNat)) 0

/-- Reads a sign, if there is one, and says whether it is a minus. -/
def sign : Reader Bool
  | '+' :: rest => some (false, rest)
  | '-' :: rest => some (true, rest)
  | chars => some (false, chars)

/-- Reads the digits of a decimal number, which start with a zero only if it is
zero. -/
def decimalDigits : Reader (List Char)
  | '0' :: rest => some (['0'], rest)
  | chars => digits Char.isDigit chars

def bounded? (number : Int) : Option Value :=
  if -9223372036854775808 ≤ number ∧ number < 9223372036854775808 then
    some (.integer number)
  else none

def based (base : Nat) (isDigit : Char → Bool) : Reader Value := do
  let found ← digits isDigit
  let number := found.foldl
    (fun number digit => base * number + (Hex.digitValue? digit.toNat).getD 0) 0
  Reader.require (bounded? number)

def integer : Reader Value
  | '0' :: 'x' :: rest =>
    based 16 (fun char => (Hex.digitValue? char.toNat).isSome) rest
  | '0' :: 'o' :: rest => based 8 (fun char => '0' ≤ char && char ≤ '7') rest
  | '0' :: 'b' :: rest => based 2 (fun char => char = '0' || char = '1') rest
  | chars => (do
      let negative ← sign
      let number := decimalValue (← decimalDigits)
      Reader.require (bounded? (if negative then -(number : Int) else number))
      : Reader Value) chars

/-- Says whether a decimal number lies above the finite range: at or above the
point half-way between the largest finite number and the next power of two. -/
def overflows (mantissa : Nat) (exponent : Int) : Bool :=
  if mantissa = 0 then false
  else
    let magnitude : Int := (Nat.toDigits 10 mantissa).length + exponent
    if magnitude < 300 then false
    else if 320 < magnitude then true
    else if exponent < 0 then
      ((1 <<< 1024) - (1 <<< 970)) * Nat.pow 10 exponent.natAbs ≤ mantissa
    else (1 <<< 1024) - (1 <<< 970) ≤ mantissa * Nat.pow 10 exponent.natAbs

def exponent : Reader Int := do
  let mark ← Reader.next
  if mark = 'e' ∨ mark = 'E' then
    let negative ← sign
    let number := decimalValue (← digits Char.isDigit)
    return if negative then -(number : Int) else number
  else failure

def fraction : Reader (List Char) := do
  Reader.expect '.'
  digits Char.isDigit

def plainFloat : Reader Value := do
  let negative ← sign
  let whole ← decimalDigits
  let part ← Reader.optional fraction
  let power ← Reader.optional exponent
  if part.isNone ∧ power.isNone then failure
  else
    let places := part.getD []
    if !negative ∧ overflows (decimalValue (whole ++ places))
        (power.getD 0 - places.length) then
      failure
    else return .float

def specialFloat : Reader Value := do
  let _ ← sign
  match ← Reader.optional (Reader.expectAll ['i', 'n', 'f']) with
  | some _ => return .float
  | none =>
    Reader.expectAll ['n', 'a', 'n']
    return .float

def exactDigits : Nat → Reader (List Char)
  | 0 => return []
  | count + 1 => do
    let digit ← Reader.next
    if digit.isDigit then return digit :: (← exactDigits count) else failure

def twoDigits (least most : Nat) : Reader Nat := do
  let number := decimalValue (← exactDigits 2)
  if least ≤ number ∧ number ≤ most then return number else failure

def daysIn (year month : Nat) : Nat :=
  if month = 2 then
    if year % 4 = 0 ∧ (year % 100 ≠ 0 ∨ year % 400 = 0) then 29 else 28
  else if month = 4 ∨ month = 6 ∨ month = 9 ∨ month = 11 then 30
  else 31

def date : Reader Unit := do
  let year := decimalValue (← exactDigits 4)
  Reader.expect '-'
  let month ← twoDigits 1 12
  Reader.expect '-'
  let _ ← twoDigits 1 (daysIn year month)

def time : Reader Unit := do
  let _ ← twoDigits 0 23
  Reader.expect ':'
  let _ ← twoDigits 0 59
  Reader.expect ':'
  let _ ← twoDigits 0 60
  if ← Reader.accept '.' then
    let _ ← Reader.takeSome Char.isDigit

def timeOffset : Reader Unit := do
  let mark ← Reader.next
  if mark = 'Z' ∨ mark = 'z' then return ()
  else if mark = '+' ∨ mark = '-' then
    let _ ← twoDigits 0 23
    Reader.expect ':'
    let _ ← twoDigits 0 59
  else failure

def timeAfterDate : Reader Unit := do
  let mark ← Reader.next
  if mark = 'T' ∨ mark = 't' ∨ mark = ' ' then
    time
    let _ ← Reader.optional timeOffset
  else failure

def dateTime : Reader Value := do
  match ← Reader.optional date with
  | some _ =>
    let _ ← Reader.optional timeAfterDate
    return .dateTime
  | none =>
    time
    return .dateTime

def boolean : Reader Value := do
  match ← Reader.optional (Reader.expectAll ['t', 'r', 'u', 'e']) with
  | some _ => return .boolean true
  | none =>
    Reader.expectAll ['f', 'a', 'l', 's', 'e']
    return .boolean false

def scalar : Reader Value := fun chars =>
  match chars with
  | [] => none
  | first :: _ =>
    if first = '"' ∨ first = '\'' then
      (quoted chars).map fun (text, rest) => (.string text, rest)
    else if first = 't' ∨ first = 'f' then boolean chars
    else if first = 'i' ∨ first = 'n' then specialFloat chars
    else
      dateTime chars <|> plainFloat chars <|> specialFloat chars
        <|> integer chars

end SlotStorage.Toml
