import SlotStorage.Toml.Scalar

/-!
# TOML statements

A document is a row of statements: the header of a table, the header of one
more table in a row of tables, or a key with a value.
-/

namespace SlotStorage.Toml

/-- The parts of a dotted key. -/
abbrev Path := List (List Char)

/-- A statement. -/
inductive Statement where
  | table (path : Path)
  | row (path : Path)
  | assignment (path : Path) (value : Value)

def maxDepth : Nat := 79

def blanks : Reader Unit :=
  Reader.skipWhile isBlank

def comment : Reader Unit := do
  if ← Reader.accept '#' then Reader.skipWhile isPlain

def newline : Reader Unit
  | '\n' :: rest => some ((), rest)
  | '\r' :: '\n' :: rest => some ((), rest)
  | _ => none

def lineEnd : Reader Unit
  | [] => some ((), [])
  | chars => newline chars

def lineRest : Reader Unit := do
  blanks
  comment
  lineEnd

def isKeyChar (char : Char) : Bool :=
  char.isAlphanum || char = '-' || char = '_'

def keyPart : Reader (List Char) := do
  let first ← Reader.peek
  if first = some '"' ∨ first = some '\'' then quotedLine
  else Reader.takeSome isKeyChar

/-- Reads a key: parts between points, with blanks around them. -/
def key : Reader Path := do
  let parts ← Reader.loop
    (fun parts => do
      blanks
      let part ← keyPart
      blanks
      if ← Reader.accept '.' then return .inl (part :: parts)
      else return .inr (part :: parts))
    ([] : Path)
  if parts.length ≤ maxDepth then return parts.reverse else failure

/-- Passes over blanks, comments and line ends between the values of an
array. -/
def gap : Reader Unit :=
  Reader.loop
    (fun _ => do
      blanks
      match ← Reader.peek with
      | some '#' =>
        comment
        newline
        return .inl ()
      | some '\n' | some '\r' =>
        newline
        return .inl ()
      | _ => return .inr ())
    ()

/-- Reads the values of an array after its opening bracket.  A comma may follow
the last one. -/
def arrayItems (value : Reader Value) : Reader (List Value) :=
  Reader.loop
    (fun items => do
      gap
      if ← Reader.accept ']' then return .inr items.reverse
      else
        let item ← value
        gap
        if ← Reader.accept ',' then return .inl (item :: items)
        else
          Reader.expect ']'
          return .inr (item :: items).reverse)
    []

def keyValue (value : Reader Value) : Reader (Path × Value) := do
  let path ← key
  Reader.expect '='
  blanks
  return (path, ← value)

def inlineEntries (value : Reader Value) : Reader (List (Path × Value)) := do
  blanks
  if ← Reader.accept '\x7d' then return []
  else
    Reader.loop
      (fun pairs => do
        let pair ← keyValue value
        blanks
        if ← Reader.accept ',' then return .inl (pair :: pairs)
        else
          Reader.expect '\x7d'
          return .inr (pair :: pairs).reverse)
      []

/-- Reads a value whose parts are read by the given reader. -/
def nested (value : Reader Value) : Reader Value := do
  match ← Reader.peek with
  | some '[' =>
    Reader.expect '['
    return .array (← arrayItems value)
  | some '\x7b' =>
    Reader.expect '\x7b'
    let pairs ← inlineEntries value
    return .table .inline (← Reader.require (Entries.ofPairs? pairs []))
  | _ => scalar

/-- Reads a value that nests at most to the given depth. -/
def valueTo : Nat → Reader Value
  | 0 => scalar
  | depth + 1 => nested (valueTo depth)

def value : Reader Value :=
  valueTo maxDepth

def header : Reader Statement := do
  if ← Reader.accept '[' then
    let path ← key
    Reader.expectAll [']', ']']
    return .row path
  else
    let path ← key
    Reader.expect ']'
    return .table path

def statement : Reader Statement := do
  if ← Reader.accept '[' then header
  else
    let (path, value) ← keyValue value
    return .assignment path value

def statements : Reader (List Statement) :=
  Reader.loop
    (fun found => do
      blanks
      match ← Reader.peek with
      | none => return .inr found.reverse
      | some '#' | some '\n' | some '\r' =>
        lineRest
        return .inl found
      | _ =>
        let next ← statement
        lineRest
        return .inl (next :: found))
    []

end SlotStorage.Toml
