import SlotStorage.Word

/-!
# Writing JSON

Documents are written without blanks.  Quotes, backslashes and control
characters are escaped, and everything else stands for itself.
-/

namespace SlotStorage.Json

/-- A character of a text: as an escape of one letter, as a numbered escape, or
as itself. -/
def writeChar (char : Char) : List Char :=
  if char = '"' then ['\\', '"']
  else if char = '\\' then ['\\', '\\']
  else if char = '\x08' then ['\\', 'b']
  else if char = '\x0c' then ['\\', 'f']
  else if char = '\n' then ['\\', 'n']
  else if char = '\r' then ['\\', 'r']
  else if char = '\t' then ['\\', 't']
  else if char.toNat < 0x20 then
    ['\\', 'u', '0', '0', Hex.digit (char.toNat / 16),
      Hex.digit (char.toNat % 16)]
  else [char]

def writeText (chars : List Char) : List Char :=
  '"' :: (chars.flatMap writeChar ++ ['"'])

def writeString (value : String) : List Char :=
  writeText value.toList

def writeNatural (number : Nat) : List Char :=
  Nat.toDigits 10 number

def writeInteger (number : Int) : List Char :=
  if number < 0 then '-' :: writeNatural number.natAbs
  else writeNatural number.natAbs

/-- A fixed-width number: its digits as a text. -/
def writeOctets {width : Nat} (number : Octets width) : List Char :=
  writeText ('0' :: 'x' :: Hex.encode number.toBytes)

def writeItems (opening closing : Char) (items : List (List Char)) :
    List Char :=
  opening :: (List.intercalate [','] items ++ [closing])

def writeArray (items : List (List Char)) : List Char :=
  writeItems '[' ']' items

def writeObject (members : List (String × List Char)) : List Char :=
  writeItems '\x7b' '\x7d'
    (members.map fun (name, value) => writeString name ++ ':' :: value)

end SlotStorage.Json
