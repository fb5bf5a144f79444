import SlotStorage.Hex
import SlotStorage.Text.Reader

/-!
# TOML texts

Four kinds of quoted text: with or without escapes, on one line or on several.
Control characters are refused everywhere except where a tab or a line end is
allowed.
-/

namespace SlotStorage.Toml

def isBlank (char : Char) : Bool :=
  char = ' ' || char = '\t'

/-- A character that may stand in a comment: no control character other than
the tab. -/
def isPlain (char : Char) : Bool :=
  char = '\t' || (0x20 ≤ char.toNat && char.toNat ≠ 0x7F)

def hexNumber? (digits : List Char) : Option Nat :=
  digits.foldl
    (fun number digit => do
      return 16 * (← number) + (← Hex.digitValue? digit.toNat)) (some 0)

/-- The character with the number that hexadecimal digits spell; a surrogate is
none. -/
def scalar? (digits : List Char) : Option Char :=
  match hexNumber? digits with
  | some number => if number.isValidChar then some (Char.ofNat number) else none
  | none => none

def escape? (letter : Char) : Option Char :=
  if letter = 'b' then some '\x08'
  else if letter = 't' then some '\t'
  else if letter = 'n' then some '\n'
  else if letter = 'f' then some '\x0c'
  else if letter = 'r' then some '\r'
  else if letter = '"' then some '"'
  else if letter = '\\' then some '\\'
  else none

/-- A text with one more character in front, and what comes after it. -/
def prepend (char : Char) :
    Option (List Char × List Char) → Option (List Char × List Char)
  | some (chars, rest) => some (char :: chars, rest)
  | none => none

/-- A text with a character in front that may be missing, and what comes after
it. -/
def prepend? (char : Option Char) (text : Option (List Char × List Char)) :
    Option (List Char × List Char) :=
  match char with
  | some char => prepend char text
  | none => none

def basicBody : Reader (List Char)
  | [] => none
  | '"' :: rest => some ([], rest)
  | '\\' :: 'u' :: a :: b :: c :: d :: rest =>
    prepend? (scalar? [a, b, c, d]) (basicBody rest)
  | '\\' :: 'U' :: a :: b :: c :: d :: e :: f :: g :: h :: rest =>
    prepend? (scalar? [a, b, c, d, e, f, g, h]) (basicBody rest)
  | '\\' :: letter :: rest => prepend? (escape? letter) (basicBody rest)
  | char :: rest => if isPlain char then prepend char (basicBody rest) else none

def literalBody : Reader (List Char)
  | [] => none
  | '\'' :: rest => some ([], rest)
  | char :: rest =>
    if isPlain char then prepend char (literalBody rest) else none

/-- How far a text of several lines is in passing over a line end after a
backslash. -/
inductive Fold where
  /-- It is not. -/
  | text
  /-- The backslash is read, and the line has to end. -/
  | opening
  /-- The line has ended, and blanks and empty lines are passed over. -/
  | closing
  deriving DecidableEq

def endsLine : List Char → Bool
  | '\n' :: _ => true
  | '\r' :: '\n' :: _ => true
  | char :: rest => isBlank char && endsLine rest
  | [] => false

/-- Reads a text of several lines up to the three closing quotes; one or two
quotes may stand before these.  With escapes, a backslash at the end of a line
removes the line end and the blanks after it. -/
def linesBody (quote : Char) (escapes : Bool) (fold : Fold) : Reader (List Char)
  | [] => none
  | '\r' :: '\n' :: rest =>
    if fold = .text then prepend '\n' (linesBody quote escapes .text rest)
    else linesBody quote escapes .closing rest
  | '\n' :: rest =>
    if fold = .text then prepend '\n' (linesBody quote escapes .text rest)
    else linesBody quote escapes .closing rest
  | char :: rest =>
    if fold ≠ .text ∧ isBlank char then linesBody quote escapes fold rest
    else if fold = .opening then none
    else if char = quote then
      if rest.take 4 = [quote, quote, quote, quote] then
        some ([quote, quote], rest.drop 4)
      else if rest.take 3 = [quote, quote, quote] then
        some ([quote], rest.drop 3)
      else if rest.take 2 = [quote, quote] then some ([], rest.drop 2)
      else prepend char (linesBody quote escapes .text rest)
    else if char = '\\' ∧ escapes then
      if endsLine rest then linesBody quote escapes .opening rest
      else
        match rest with
        | 'u' :: a :: b :: c :: d :: rest =>
          prepend? (scalar? [a, b, c, d]) (linesBody quote escapes .text rest)
        | 'U' :: a :: b :: c :: d :: e :: f :: g :: h :: rest =>
          prepend? (scalar? [a, b, c, d, e, f, g, h])
            (linesBody quote escapes .text rest)
        | letter :: rest =>
          prepend? (escape? letter) (linesBody quote escapes .text rest)
        | [] => none
    else if isPlain char then prepend char (linesBody quote escapes .text rest)
    else none

/-- The characters after a line end, if the text starts with one. -/
def dropLineEnd : List Char → List Char
  | '\n' :: rest => rest
  | '\r' :: '\n' :: rest => rest
  | chars => chars

def quotedLine : Reader (List Char)
  | '"' :: rest => basicBody rest
  | '\'' :: rest => literalBody rest
  | _ => none

def quoted : Reader (List Char)
  | '"' :: '"' :: '"' :: rest => linesBody '"' true .text (dropLineEnd rest)
  | '\'' :: '\'' :: '\'' :: rest =>
    linesBody '\'' false .text (dropLineEnd rest)
  | chars => quotedLine chars

end SlotStorage.Toml
