import SlotStorage.Bytes

/-!
# Hexadecimal text

Two digits spell a byte.  Writing uses lower case; reading takes either case,
works on the bytes of the text, and reports an odd count of bytes before it
looks at any of them.
-/

namespace SlotStorage.Hex

def digit (value : Nat) : Char :=
  if value < 10 then Char.ofNat ('0'.toNat + value)
  else Char.ofNat ('a'.toNat + (value - 10))

/-- The value of a digit of either case, given as its character code. -/
def digitValue? (code : Nat) : Option Nat :=
  if '0'.toNat ≤ code ∧ code ≤ '9'.toNat then some (code - '0'.toNat)
  else if 'a'.toNat ≤ code ∧ code ≤ 'f'.toNat then some (code - 'a'.toNat + 10)
  else if 'A'.toNat ≤ code ∧ code ≤ 'F'.toNat then some (code - 'A'.toNat + 10)
  else none

def encodeByte (byte : UInt8) : List Char :=
  [digit (byte.toNat / 16), digit (byte.toNat % 16)]

def encode (bytes : Bytes) : List Char :=
  bytes.flatMap encodeByte

def display (bytes : Bytes) : String :=
  "0x" ++ String.ofList (encode bytes)

/-- Why a text is no hexadecimal byte string. -/
inductive DecodeError where
  | oddLength
  | invalidByte (byte : UInt8) (position : Nat)
  deriving DecidableEq, Repr

/-- A byte as a quoted character: marks that would be unreadable are escaped. -/
def quoteByte (byte : UInt8) : String :=
  let code := byte.toNat
  let body :=
    if code = 0 then "\\0"
    else if code = 9 then "\\t"
    else if code = 10 then "\\n"
    else if code = 13 then "\\r"
    else if code = 39 then "\\'"
    else if code = 92 then "\\\\"
    else if code < 32 ∨ (127 ≤ code ∧ code ≤ 160) ∨ code = 173 then
      "\\u\x7b" ++ String.ofList (Nat.toDigits 16 code) ++ "\x7d"
    else String.ofList [Char.ofNat code]
  "'" ++ body ++ "'"

def DecodeError.message : DecodeError → String
  | .oddLength => "Odd number of digits"
  | .invalidByte byte position =>
    "Invalid character " ++ quoteByte byte ++ " at position "
      ++ toString position

def decodePairs (position : Nat) : Bytes → Except DecodeError Bytes
  | [] => .ok []
  | [_] => .error .oddLength
  | high :: low :: rest =>
    match digitValue? high.toNat with
    | none => .error (.invalidByte high position)
    | some highValue =>
      match digitValue? low.toNat with
      | none => .error (.invalidByte low (position + 1))
      | some lowValue =>
        match decodePairs (position + 2) rest with
        | .ok bytes => .ok (UInt8.ofNat (highValue * 16 + lowValue) :: bytes)
        | .error error => .error error

/-- The bytes that a text spells, given by the text's own bytes. -/
def decode (text : Bytes) : Except DecodeError Bytes :=
  if text.length % 2 = 1 then .error .oddLength else decodePairs 0 text

end SlotStorage.Hex
