import SlotStorage.Bytes

/-!
# UTF-8

The byte form of a text and its checked reading.  A failed reading says how
many bytes before the fault were good, and how many bytes the faulty sequence
has, unless the bytes end inside it.
-/

namespace SlotStorage.Utf8

def encodeChar (char : Char) : Bytes :=
  let code := char.toNat
  if code < 0x80 then
    [UInt8.ofNat code]
  else if code < 0x800 then
    [UInt8.ofNat (0xC0 + code / 0x40), UInt8.ofNat (0x80 + code % 0x40)]
  else if code < 0x10000 then
    [UInt8.ofNat (0xE0 + code / 0x1000),
      UInt8.ofNat (0x80 + code / 0x40 % 0x40),
      UInt8.ofNat (0x80 + code % 0x40)]
  else
    [UInt8.ofNat (0xF0 + code / 0x40000),
      UInt8.ofNat (0x80 + code / 0x1000 % 0x40),
      UInt8.ofNat (0x80 + code / 0x40 % 0x40), UInt8.ofNat (0x80 + code % 0x40)]

def encode (chars : List Char) : Bytes :=
  chars.flatMap encodeChar

def ofString (text : String) : Bytes :=
  encode text.toList

/-- Where reading stopped: the count of good bytes before the fault, and the
length of the faulty sequence, which is absent when the bytes end inside a
sequence. -/
structure DecodeError where
  position : Nat
  width : Option Nat
  deriving DecidableEq, Repr

def DecodeError.message (error : DecodeError) : String :=
  match error.width with
  | some width =>
    "invalid utf-8 sequence of " ++ toString width ++ " bytes from index "
      ++ toString error.position
  | none =>
    "incomplete utf-8 byte sequence from index " ++ toString error.position

def isContinuation (byte : UInt8) : Bool :=
  0x80 ≤ byte.toNat && byte.toNat ≤ 0xBF

/-- The second bytes that may follow the first byte of a three-byte sequence:
no overlong form and no surrogate. -/
def isSecondOfThree (first second : UInt8) : Bool :=
  if first.toNat = 0xE0 then 0xA0 ≤ second.toNat && second.toNat ≤ 0xBF
  else if first.toNat = 0xED then 0x80 ≤ second.toNat && second.toNat ≤ 0x9F
  else isContinuation second

/-- The second bytes that may follow the first byte of a four-byte sequence: no
overlong form and nothing above the last code point. -/
def isSecondOfFour (first second : UInt8) : Bool :=
  if first.toNat = 0xF0 then 0x90 ≤ second.toNat && second.toNat ≤ 0xBF
  else if first.toNat = 0xF4 then 0x80 ≤ second.toNat && second.toNat ≤ 0x8F
  else isContinuation second

def payload (byte : UInt8) : Nat :=
  byte.toNat - 0x80

/-- The character that starts with the given byte, and how many of the
following bytes belong to it.  On failure, the length of the faulty sequence if
the bytes do not end inside it. -/
def readChar (first : UInt8) (following : Bytes) :
    Except (Option Nat) (Char × Nat) :=
  let lead := first.toNat
  if lead < 0x80 then
    .ok (Char.ofNat lead, 0)
  else if lead < 0xC2 then
    .error (some 1)
  else if lead < 0xE0 then
    match following with
    | [] => .error none
    | second :: _ =>
      if isContinuation second then
        .ok (Char.ofNat ((lead - 0xC0) * 0x40 + payload second), 1)
      else .error (some 1)
  else if lead < 0xF0 then
    match following with
    | [] => .error none
    | second :: others =>
      if !isSecondOfThree first second then .error (some 1)
      else match others with
        | [] => .error none
        | third :: _ =>
          if isContinuation third then
            .ok (Char.ofNat ((lead - 0xE0) * 0x1000 + payload second * 0x40
              + payload third), 2)
          else .error (some 2)
  else if lead < 0xF5 then
    match following with
    | [] => .error none
    | second :: others =>
      if !isSecondOfFour first second then .error (some 1)
      else match others with
        | [] => .error none
        | third :: others =>
          if !isContinuation third then .error (some 2)
          else match others with
            | [] => .error none
            | fourth :: _ =>
              if isContinuation fourth then
                .ok (Char.ofNat ((lead - 0xF0) * 0x40000
                  + payload second * 0x1000
                  + payload third * 0x40 + payload fourth), 3)
              else .error (some 3)
  else
    .error (some 1)

/-- Reads the characters of a byte string of which `position` bytes are done
and `inside` bytes still belong to the character read last. -/
def decodeFrom (position : Nat) : Nat → Bytes → Except DecodeError (List Char)
  | _, [] => .ok []
  | inside + 1, _ :: rest => decodeFrom (position + 1) inside rest
  | 0, first :: rest =>
    match readChar first rest with
    | .ok (char, following) =>
      match decodeFrom (position + 1) following rest with
      | .ok chars => .ok (char :: chars)
      | .error error => .error error
    | .error width => .error ⟨position, width⟩

/-- The characters of a byte string, or where it fails to be UTF-8. -/
def decode (bytes : Bytes) : Except DecodeError (List Char) :=
  decodeFrom 0 0 bytes

/-- The string a byte string spells, or where it fails to be UTF-8. -/
def toString? (bytes : Bytes) : Except DecodeError String :=
  (decode bytes).map String.ofList

end SlotStorage.Utf8
