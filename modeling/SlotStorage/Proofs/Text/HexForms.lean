import Mathlib.Data.Bool.AllAny
import SlotStorage.Address
import SlotStorage.Proofs.Text.Hex

/-!
# Exactly the texts that are numbers

Which texts are read as numbers, what is read, and what the complaint is
otherwise.  Reading works on the bytes of a text, so a character beyond ASCII
counts several times, and the first of its bytes is no digit.
-/

namespace SlotStorage

namespace Hex

/-- The code of a decimal digit, or of a letter up to `f` of either case. -/
def IsDigit (code : Nat) : Prop :=
  ('0'.toNat ≤ code ∧ code ≤ '9'.toNat) ∨
    ('a'.toNat ≤ code ∧ code ≤ 'f'.toNat) ∨
      ('A'.toNat ≤ code ∧ code ≤ 'F'.toNat)

instance : DecidablePred IsDigit :=
  fun code => inferInstanceAs (Decidable
    (('0'.toNat ≤ code ∧ code ≤ '9'.toNat) ∨
      ('a'.toNat ≤ code ∧ code ≤ 'f'.toNat) ∨
        ('A'.toNat ≤ code ∧ code ≤ 'F'.toNat)))

/-- The upper and the lower half of every byte. -/
def nibbles (bytes : Bytes) : List Nat :=
  bytes.flatMap fun byte => [byte.toNat / 16, byte.toNat % 16]

/-- The characters are the digits of the bytes, some of them in upper case. -/
def Spells (chars : List Char) (bytes : Bytes) : Prop :=
  chars.map Char.toLower = (nibbles bytes).map Nat.digitChar

/-- The byte at the position is the first one that is no digit. -/
structure FirstInvalid (text : Bytes) (byte : UInt8) (position : Nat) :
    Prop where
  found : text[position]? = some byte
  invalid : ¬ IsDigit byte.toNat
  digits : ∀ earlier ∈ text.take position, IsDigit earlier.toNat

/-! ## Single digits -/

theorem isDigit_iff {code : Nat} :
    IsDigit code ↔ ∃ value, digitValue? code = some value := by
  unfold IsDigit digitValue?
  split
  case isTrue decimal => exact iff_of_true (.inl decimal) ⟨_, rfl⟩
  split
  case isTrue lower => exact iff_of_true (.inr (.inl lower)) ⟨_, rfl⟩
  split
  case isTrue upper => exact iff_of_true (.inr (.inr upper)) ⟨_, rfl⟩
  case isFalse decimal lower upper =>
    exact iff_of_false (by rintro (found | found | found) <;> contradiction)
      nofun

theorem not_isDigit {code : Nat} (refused : digitValue? code = none) :
    ¬ IsDigit code := by
  rw [isDigit_iff, refused]
  exact nofun

theorem IsDigit.small {code : Nat} (digit : IsDigit code) : code < 0x80 := by
  simp only [IsDigit, Char.reduceToNat] at digit
  omega

theorem digitValue?_lt {code value : Nat}
    (found : digitValue? code = some value) : value < 16 := by
  simp only [digitValue?, Char.reduceToNat] at found
  split at found
  case isTrue => cases found; omega
  split at found
  case isTrue => cases found; omega
  split at found
  case isTrue => cases found; omega
  case isFalse => cases found

theorem toLower_ascii : ∀ code < 0x80, ∀ value ∈ digitValue? code,
    (Char.ofNat code).toLower = Nat.digitChar value := by
  decide

theorem toLower_of_digitValue? {char : Char} {value : Nat}
    (found : digitValue? char.toNat = some value) :
    char.toLower = Nat.digitChar value := by
  have ascii := toLower_ascii char.toNat (isDigit_iff.mpr ⟨_, found⟩).small
    value found
  rwa [Char.ofNat_toNat] at ascii

theorem digit_eq_digitChar :
    ∀ value < 16, digit value = Nat.digitChar value := by
  decide

theorem encode_eq_digitChar (bytes : Bytes) :
    encode bytes = (nibbles bytes).map Nat.digitChar := by
  induction bytes with
  | nil => rfl
  | cons byte bytes induction =>
      have small : byte.toNat < 256 := byte.toNat_lt
      have high := digit_eq_digitChar _ (show byte.toNat / 16 < 16 by omega)
      have low := digit_eq_digitChar _ (show byte.toNat % 16 < 16 by omega)
      change digit (byte.toNat / 16) :: digit (byte.toNat % 16) ::
        encode bytes = _
      rw [high, low, induction]
      rfl

/-! ## Digits of a text -/

namespace FirstInvalid

variable {text : Bytes} {first byte other : UInt8} {position place : Nat}

theorem here (invalid : ¬ IsDigit byte.toNat) (rest : Bytes) :
    FirstInvalid (byte :: rest) byte 0 :=
  ⟨rfl, invalid, nofun⟩

theorem there (digit : IsDigit first.toNat)
    (later : FirstInvalid text byte position) :
    FirstInvalid (first :: text) byte (position + 1) := by
  refine ⟨later.found, later.invalid, ?_⟩
  intro earlier member
  rcases List.mem_cons.mp member with rfl | member
  · exact digit
  · exact later.digits earlier member

theorem not_all (invalid : FirstInvalid text byte position)
    (digits : ∀ byte ∈ text, IsDigit byte.toNat) : False :=
  invalid.invalid (digits byte (List.mem_of_getElem? invalid.found))

theorem le (invalid : FirstInvalid text byte position)
    (found : text[place]? = some other) (refused : ¬ IsDigit other.toNat) :
    position ≤ place := by
  apply Nat.le_of_not_lt
  intro before
  apply refused
  apply invalid.digits
  apply List.mem_of_getElem? (i := place)
  rw [List.getElem?_take_of_lt before, found]

theorem unique (left : FirstInvalid text byte position)
    (right : FirstInvalid text other place) :
    byte = other ∧ position = place := by
  obtain rfl := Nat.le_antisymm (left.le right.found right.invalid)
    (right.le left.found left.invalid)
  exact ⟨Option.some.inj (left.found.symm.trans right.found), rfl⟩

end FirstInvalid

/-- The digits of the text have the halves of the bytes as their values. -/
def Denotes (text bytes : Bytes) : Prop :=
  text.map (fun byte => digitValue? byte.toNat) = (nibbles bytes).map some

theorem nibbles_cons (byte : UInt8) (bytes : Bytes) :
    nibbles (byte :: bytes) =
      byte.toNat / 16 :: byte.toNat % 16 :: nibbles bytes :=
  rfl

theorem length_nibbles (bytes : Bytes) :
    (nibbles bytes).length = 2 * bytes.length := by
  induction bytes with
  | nil => rfl
  | cons byte bytes induction =>
      rw [nibbles_cons, List.length_cons, List.length_cons, induction,
        List.length_cons]
      omega

theorem nibbles_injective {left right : Bytes}
    (same : nibbles left = nibbles right) : left = right := by
  induction left generalizing right with
  | nil =>
      cases right with
      | nil => rfl
      | cons byte bytes => cases same
  | cons first left induction =>
      cases right with
      | nil => cases same
      | cons second right =>
          rw [nibbles_cons, nibbles_cons] at same
          obtain ⟨high, same⟩ := List.cons.inj same
          obtain ⟨low, same⟩ := List.cons.inj same
          have whole : first = second := UInt8.toNat_inj.mp (by omega)
          rw [whole, induction same]

namespace Denotes

variable {text bytes others : Bytes}

theorem length_eq (denotes : Denotes text bytes) :
    text.length = 2 * bytes.length := by
  have same := congrArg List.length denotes
  rwa [List.length_map, List.length_map, length_nibbles] at same

theorem isDigit (denotes : Denotes text bytes) :
    ∀ byte ∈ text, IsDigit byte.toNat := by
  intro byte member
  have found : digitValue? byte.toNat ∈ (nibbles bytes).map some :=
    denotes ▸ List.mem_map_of_mem member
  obtain ⟨value, _, same⟩ := List.mem_map.mp found
  exact isDigit_iff.mpr ⟨value, same.symm⟩

theorem unique (left : Denotes text bytes) (right : Denotes text others) :
    bytes = others :=
  nibbles_injective ((List.map_inj_right fun _ _ => Option.some.inj).mp
    (left.symm.trans right))

theorem cons {high low : UInt8} {highValue lowValue : Nat}
    (highFound : digitValue? high.toNat = some highValue)
    (lowFound : digitValue? low.toNat = some lowValue)
    (rest : Denotes text bytes) :
    Denotes (high :: low :: text)
      (UInt8.ofNat (highValue * 16 + lowValue) :: bytes) := by
  have highSmall := digitValue?_lt highFound
  have lowSmall := digitValue?_lt lowFound
  have upper : (highValue * 16 + lowValue) / 16 = highValue := by omega
  have lower : (highValue * 16 + lowValue) % 16 = lowValue := by omega
  unfold Denotes
  rw [nibbles_cons, Utf8.toNat_byte (by omega), upper, lower, List.map_cons,
    List.map_cons, highFound, lowFound, rest]
  rfl

end Denotes

/-- What the answer to a text says about the text. -/
def Outcome (text : Bytes) : Except DecodeError Bytes → Prop
  | .ok bytes => Denotes text bytes
  | .error .oddLength => text.length % 2 = 1
  | .error (.invalidByte byte position) =>
      text.length % 2 = 0 ∧ FirstInvalid text byte position

/-- From some position on the answer is the one for the text, except that
bytes are counted from the start. -/
theorem decodePairs_outcome (position : Nat) {text : Bytes}
    (even : text.length % 2 = 0) :
    match decodePairs position text with
    | .ok bytes => Denotes text bytes
    | .error error => ∃ byte offset,
        error = .invalidByte byte (position + offset) ∧
          FirstInvalid text byte offset := by
  fun_induction decodePairs position text with
  | case1 => rfl
  | case2 => cases even
  | case3 position high low rest refused =>
      exact ⟨high, 0, rfl, .here (not_isDigit refused) _⟩
  | case4 position high low rest highValue highFound refused =>
      exact ⟨low, 1, rfl, .there (isDigit_iff.mpr ⟨_, highFound⟩)
        (.here (not_isDigit refused) _)⟩
  | case5 position high low rest highValue highFound lowValue lowFound bytes
      decoded induction =>
      have others := induction (by simp only [List.length_cons] at even; omega)
      rw [decoded] at others
      exact others.cons highFound lowFound
  | case6 position high low rest highValue highFound lowValue lowFound error
      decoded induction =>
      have others := induction (by simp only [List.length_cons] at even; omega)
      rw [decoded] at others
      obtain ⟨byte, offset, rfl, invalid⟩ := others
      refine ⟨byte, offset + 2, ?_, ?_⟩
      · rw [Nat.add_comm offset, Nat.add_assoc]
      · exact .there (isDigit_iff.mpr ⟨_, highFound⟩)
          (.there (isDigit_iff.mpr ⟨_, lowFound⟩) invalid)

theorem decode_outcome (text : Bytes) : Outcome text (decode text) := by
  unfold decode
  split
  case isTrue odd => exact odd
  case isFalse notOdd =>
    have even : text.length % 2 = 0 := by omega
    have outcome := decodePairs_outcome 0 even
    revert outcome
    cases decodePairs 0 text with
    | ok bytes => exact id
    | error error =>
        rintro ⟨byte, offset, rfl, invalid⟩
        rw [Nat.zero_add]
        exact ⟨even, invalid⟩

theorem Denotes.not_error {text bytes : Bytes} {cause : DecodeError}
    (denotes : Denotes text bytes) : ¬ Outcome text (.error cause) := by
  have length := denotes.length_eq
  cases cause with
  | oddLength =>
      intro odd
      have odd : text.length % 2 = 1 := odd
      omega
  | invalidByte byte position =>
      rintro ⟨_, invalid⟩
      exact invalid.not_all denotes.isDigit

/-- No two answers say the same about a text. -/
theorem Outcome.unique {text : Bytes} {left right : Except DecodeError Bytes}
    (first : Outcome text left) (second : Outcome text right) :
    left = right := by
  match left, right with
  | .ok bytes, .ok others => rw [Denotes.unique first second]
  | .ok bytes, .error cause => exact absurd second (Denotes.not_error first)
  | .error cause, .ok others => exact absurd first (Denotes.not_error second)
  | .error .oddLength, .error .oddLength => rfl
  | .error .oddLength, .error (.invalidByte ..) =>
      cases first.symm.trans second.1
  | .error (.invalidByte ..), .error .oddLength =>
      cases second.symm.trans first.1
  | .error (.invalidByte ..), .error (.invalidByte ..) =>
      obtain ⟨rfl, rfl⟩ := first.2.unique second.2
      rfl

theorem decode_eq_iff {text : Bytes} {answer : Except DecodeError Bytes} :
    decode text = answer ↔ Outcome text answer :=
  ⟨fun decoded => decoded ▸ decode_outcome text,
    fun outcome => (decode_outcome text).unique outcome⟩

/-- A text is read if its bytes are digits, two for each byte of the answer. -/
theorem exists_decode_iff {text : Bytes} {count : Nat} :
    (∃ bytes, decode text = .ok bytes ∧ bytes.length = count) ↔
      (∀ byte ∈ text, IsDigit byte.toNat) ∧ text.length = 2 * count := by
  constructor
  · rintro ⟨bytes, decoded, rfl⟩
    have denotes : Denotes text bytes := decode_eq_iff.mp decoded
    exact ⟨denotes.isDigit, denotes.length_eq⟩
  · rintro ⟨digits, length⟩
    have outcome := decode_outcome text
    match answer : decode text with
    | .ok bytes =>
        rw [answer] at outcome
        have doubled : text.length = 2 * bytes.length := outcome.length_eq
        exact ⟨bytes, rfl, by omega⟩
    | .error .oddLength =>
        rw [answer] at outcome
        have odd : text.length % 2 = 1 := outcome
        omega
    | .error (.invalidByte byte position) =>
        rw [answer] at outcome
        exact (outcome.2.not_all digits).elim

/-! ## Texts beyond ASCII -/

theorem isDigit_encodeChar (char : Char) :
    (∀ byte ∈ Utf8.encodeChar char, IsDigit byte.toNat) ↔
      IsDigit char.toNat := by
  have valid := Utf8.toNat_valid char
  -- Beyond ASCII the first byte of the sequence is too large for a digit.
  have wide {lead : Nat} {rest : Bytes} (large : 0xC0 ≤ lead)
      (small : lead < 256) (beyond : ¬ char.toNat < 0x80) :
      (∀ byte ∈ UInt8.ofNat lead :: rest, IsDigit byte.toNat) ↔
        IsDigit char.toNat := by
    apply iff_of_false
    · intro digits
      have digit := (digits _ List.mem_cons_self).small
      rw [Utf8.toNat_byte small] at digit
      omega
    · exact fun digit => beyond digit.small
  unfold Utf8.encodeChar
  dsimp only
  split
  case isTrue one =>
    rw [List.forall_mem_singleton, Utf8.toNat_byte (by omega)]
  case isFalse beyond =>
    split
    case isTrue => exact wide (by omega) (by omega) beyond
    split
    case isTrue => exact wide (by omega) (by omega) beyond
    case isFalse => exact wide (by omega) (by omega) beyond

theorem isDigit_utf8 (chars : List Char) :
    (∀ byte ∈ Utf8.encode chars, IsDigit byte.toNat) ↔
      ∀ char ∈ chars, IsDigit char.toNat := by
  induction chars with
  | nil => exact iff_of_true nofun nofun
  | cons char chars induction =>
      change (∀ byte ∈ Utf8.encodeChar char ++ Utf8.encode chars, _) ↔ _
      rw [List.forall_mem_append, List.forall_mem_cons,
        isDigit_encodeChar, induction]

theorem toNat_utf8 {chars : List Char}
    (digits : ∀ char ∈ chars, IsDigit char.toNat) :
    (Utf8.encode chars).map UInt8.toNat = chars.map Char.toNat := by
  induction chars with
  | nil => rfl
  | cons char chars induction =>
      rw [List.forall_mem_cons] at digits
      have small := digits.1.small
      rw [Utf8.encode_ascii small, List.map_cons, List.map_cons,
        Utf8.toNat_byte (by omega), induction digits.2]

theorem length_utf8 {chars : List Char}
    (digits : ∀ char ∈ chars, IsDigit char.toNat) :
    (Utf8.encode chars).length = chars.length := by
  have same := congrArg List.length (toNat_utf8 digits)
  rwa [List.length_map, List.length_map] at same

theorem toLower_of_values {chars : List Char} {values : List Nat}
    (found : chars.map (fun char => digitValue? char.toNat) =
      values.map some) :
    chars.map Char.toLower = values.map Nat.digitChar := by
  induction chars generalizing values with
  | nil =>
      cases values with
      | nil => rfl
      | cons value values => cases found
  | cons char chars induction =>
      cases values with
      | nil => cases found
      | cons value values =>
          obtain ⟨first, others⟩ := List.cons.inj found
          rw [List.map_cons, List.map_cons, toLower_of_digitValue? first,
            induction others]

theorem spells_of_denotes {chars : List Char} {bytes : Bytes}
    (denotes : Denotes (Utf8.encode chars) bytes) : Spells chars bytes := by
  have digits := (isDigit_utf8 chars).mp denotes.isDigit
  have values := congrArg (List.map digitValue?) (toNat_utf8 digits)
  rw [List.map_map, List.map_map] at values
  exact toLower_of_values (values.symm.trans denotes)

end Hex

namespace Octets

variable {width : Nat}

theorem digit_ne_mark : ∀ value < 16, Hex.digit value ≠ 'x' := by
  decide

theorem dropMark_encode (bytes : Bytes) :
    dropMark (Hex.encode bytes) = Hex.encode bytes := by
  apply dropMark_of_unmarked
  intro rest marked
  cases bytes with
  | nil => cases marked
  | cons byte bytes =>
      have second := (List.cons.inj (List.cons.inj marked).2).1
      exact digit_ne_mark (byte.toNat % 16) (by omega) second

section Parse

variable {text : String} {number : Octets width} {cause : Hex.DecodeError}
  {expected actual : Nat}

theorem parse_eq_ok_iff : parse width text = .ok number ↔
    Hex.decode (Utf8.encode (dropMark text.toList)) = .ok number.toBytes := by
  constructor
  · intro parsed
    obtain ⟨bytes, decoded, same⟩ := decode_of_parse parsed
    unfold ofBytes? at same
    split at same
    case isTrue exactWidth =>
      cases same
      rw [toBytes_ofBytes exactWidth, decoded]
    case isFalse => cases same
  · intro decoded
    unfold parse
    simp only [decoded, ofBytes?_toBytes]

theorem parse_eq_invalidHex_iff :
    parse width text = .error (.invalidHex cause) ↔
      Hex.decode (Utf8.encode (dropMark text.toList)) = .error cause := by
  unfold parse
  cases Hex.decode (Utf8.encode (dropMark text.toList)) with
  | error found => simp only [Except.error.injEq, HexTextError.invalidHex.injEq]
  | ok bytes =>
      refine iff_of_false ?_ nofun
      dsimp only
      split <;> exact nofun

theorem parse_eq_invalidLength_iff :
    parse width text = .error (.invalidLength expected actual) ↔
      expected = width ∧ (∃ bytes,
        Hex.decode (Utf8.encode (dropMark text.toList)) = .ok bytes ∧
          bytes.length = actual) ∧ actual ≠ width := by
  unfold parse ofBytes?
  cases Hex.decode (Utf8.encode (dropMark text.toList)) with
  | error found =>
      refine iff_of_false nofun ?_
      rintro ⟨_, ⟨_, same, _⟩, _⟩
      cases same
  | ok bytes =>
      dsimp only
      by_cases exactWidth : bytes.length = width
      · rw [if_pos exactWidth]
        refine iff_of_false nofun ?_
        rintro ⟨_, ⟨_, same, length⟩, other⟩
        cases same
        exact other (length.symm.trans exactWidth)
      · rw [if_neg exactWidth]
        constructor
        · intro failed
          cases failed
          exact ⟨rfl, ⟨bytes, rfl, rfl⟩, exactWidth⟩
        · rintro ⟨rfl, ⟨_, same, rfl⟩, _⟩
          cases same
          rfl

theorem exists_parse_iff :
    (∃ number, parse width text = .ok number) ↔ ∃ bytes,
      Hex.decode (Utf8.encode (dropMark text.toList)) = .ok bytes ∧
        bytes.length = width := by
  constructor
  · rintro ⟨number, parsed⟩
    exact ⟨_, parse_eq_ok_iff.mp parsed, length_toBytes number⟩
  · rintro ⟨bytes, decoded, exactWidth⟩
    refine ⟨ofBytes width bytes, parse_eq_ok_iff.mpr ?_⟩
    rw [toBytes_ofBytes exactWidth, decoded]

end Parse

/-- A reader of numbers takes exactly their digits, all of them and of either
case, with or without the mark.  Otherwise it names the first of the faults
that apply: an odd count of bytes, a byte that is no digit, a wrong length.
What is written for a value is read as the value. -/
structure ReadsExactly {α : Type} (width : Nat)
    (parse : String → Except HexTextError α) (toBytes : α → Bytes)
    (toHex display : α → String) : Prop where
  accepts : ∀ text, (∃ value, parse text = .ok value) ↔
    (dropMark text.toList).length = 2 * width ∧
      ∀ char ∈ dropMark text.toList, Hex.IsDigit char.toNat
  spells : ∀ text value, parse text = .ok value →
    Hex.Spells (dropMark text.toList) (toBytes value) ∧
      display value =
        "0x" ++ String.ofList ((dropMark text.toList).map Char.toLower)
  oddLength : ∀ text, parse text = .error (.invalidHex .oddLength) ↔
    (Utf8.encode (dropMark text.toList)).length % 2 = 1
  invalidByte : ∀ text byte position,
    parse text = .error (.invalidHex (.invalidByte byte position)) ↔
      (Utf8.encode (dropMark text.toList)).length % 2 = 0 ∧
        Hex.FirstInvalid (Utf8.encode (dropMark text.toList)) byte position
  invalidLength : ∀ text expected actual,
    parse text = .error (.invalidLength expected actual) ↔
      expected = width ∧
        (∀ char ∈ dropMark text.toList, Hex.IsDigit char.toNat) ∧
          (Utf8.encode (dropMark text.toList)).length = 2 * actual ∧
            actual ≠ width
  displayed : ∀ value, parse (display value) = .ok value
  written : ∀ value, parse (toHex value) = .ok value

theorem parse_reads_exactly (width : Nat) :
    ReadsExactly width (parse width) toBytes toHex display := by
  refine ⟨?_, ?_, ?_, ?_, ?_, ?_, ?_⟩
  · intro text
    rw [exists_parse_iff, Hex.exists_decode_iff, Hex.isDigit_utf8]
    constructor
    · rintro ⟨digits, length⟩
      exact ⟨(Hex.length_utf8 digits).symm.trans length, digits⟩
    · rintro ⟨length, digits⟩
      exact ⟨digits, (Hex.length_utf8 digits).trans length⟩
  · intro text number parsed
    have denotes : Hex.Denotes _ _ :=
      Hex.decode_eq_iff.mp (parse_eq_ok_iff.mp parsed)
    have spells := Hex.spells_of_denotes denotes
    refine ⟨spells, ?_⟩
    rw [display, toHex, Hex.encode_eq_digitChar, spells]
  · intro text
    rw [parse_eq_invalidHex_iff, Hex.decode_eq_iff]
    rfl
  · intro text byte position
    rw [parse_eq_invalidHex_iff, Hex.decode_eq_iff]
    rfl
  · intro text expected actual
    rw [parse_eq_invalidLength_iff, Hex.exists_decode_iff, Hex.isDigit_utf8,
      and_assoc]
  · intro number
    have marked : number.display.toList =
        '0' :: 'x' :: Hex.encode number.toBytes := by
      rw [display, toHex, String.toList_append, String.toList_ofList,
        String.toList_ofList]
      rfl
    rw [parse_eq_ok_iff, marked]
    exact Hex.decode_encode number.toBytes
  · intro number
    rw [parse_eq_ok_iff, toHex, String.toList_ofList, dropMark_encode,
      Hex.decode_encode]

namespace ReadsExactly

variable {α β : Type} {parse : String → Except HexTextError α}
  {toBytes : α → Bytes} {toHex display : α → String}

/-- Values that wrap numbers are read as exactly as the numbers. -/
theorem wrapped (exactly : ReadsExactly width parse toBytes toHex display)
    (wrap : α → β) (unwrap : β → α)
    (inside : ∀ number, unwrap (wrap number) = number)
    (outside : ∀ value, wrap (unwrap value) = value) :
    ReadsExactly width (fun text => (parse text).map wrap)
      (fun value => toBytes (unwrap value)) (fun value => toHex (unwrap value))
      (fun value => display (unwrap value)) := by
  have reads (text : String) (value : β) :
      (parse text).map wrap = .ok value ↔ parse text = .ok (unwrap value) := by
    cases parse text with
    | ok number =>
        change Except.ok (wrap number) = Except.ok value ↔ _
        rw [Except.ok.injEq, Except.ok.injEq]
        constructor
        · rintro rfl
          exact (inside number).symm
        · rintro rfl
          exact outside value
    | error error => exact iff_of_false nofun nofun
  have fails (text : String) (error : HexTextError) :
      (parse text).map wrap = .error error ↔ parse text = .error error := by
    cases parse text with
    | ok number => exact iff_of_false nofun nofun
    | error found => simp only [Except.map, Except.error.injEq]
  refine ⟨?_, ?_, ?_, ?_, ?_, ?_, ?_⟩
  · intro text
    rw [← exactly.accepts]
    constructor
    · rintro ⟨value, parsed⟩
      exact ⟨_, (reads text value).mp parsed⟩
    · rintro ⟨number, parsed⟩
      refine ⟨wrap number, (reads text _).mpr ?_⟩
      rw [inside, parsed]
  · intro text value parsed
    exact exactly.spells text _ ((reads text value).mp parsed)
  · exact fun text => (fails text _).trans (exactly.oddLength text)
  · exact fun text byte position =>
      (fails text _).trans (exactly.invalidByte text byte position)
  · exact fun text expected actual =>
      (fails text _).trans (exactly.invalidLength text expected actual)
  · exact fun value => (reads _ value).mpr (exactly.displayed _)
  · exact fun value => (reads _ value).mpr (exactly.written _)

end ReadsExactly

/-- Slots, keys and namespaces are read from exactly their digits. -/
theorem hex_texts_read_exactly :
    ReadsExactly 32 Slot.parse Slot.toBytes Slot.toHex Slot.display ∧
    ReadsExactly 32 EntityKey.parse EntityKey.toBytes EntityKey.toHex
      EntityKey.display ∧
    ReadsExactly 20 Namespace.parse (fun space => space.address.toBytes)
      Namespace.toHex Namespace.display := by
  have slots := parse_reads_exactly 32
  have spaces := parse_reads_exactly 20
  refine ⟨?_, ?_, ?_⟩
  · exact slots.wrapped Slot.mk Slot.word (fun _ => rfl) fun _ => rfl
  · exact slots.wrapped EntityKey.mk EntityKey.word (fun _ => rfl) fun _ => rfl
  · exact spaces.wrapped Namespace.mk Namespace.address (fun _ => rfl)
      fun _ => rfl

/-- The mark is dropped once only; a character beyond ASCII makes the count of
bytes odd, or is met after an earlier fault. -/
theorem hex_texts_read_exactly_marked :
    Namespace.parse "0x0xé" = .error (.invalidHex (.invalidByte 0x78 1)) ∧
    Slot.parse "0x0x€" = .error (.invalidHex .oddLength) ∧
    EntityKey.parse "Ab" = .error (.invalidLength 32 1) ∧
    ∃ space, Namespace.parse "0x60138453000000000000000000000000000AbCdE" =
        .ok space ∧
      space.display = "0x60138453000000000000000000000000000abcde" := by
  obtain ⟨slots, keys, spaces⟩ := hex_texts_read_exactly
  refine ⟨?_, ?_, ?_, ?_⟩
  · exact (spaces.invalidByte _ _ _).mpr ⟨by decide, by decide, by decide,
      List.all_iff_forall_prop.mp (by decide)⟩
  · exact (slots.oddLength _).mpr (by decide)
  · exact (keys.invalidLength _ _ _).mpr
      ⟨rfl, List.all_iff_forall_prop.mp (by decide), by decide, by decide⟩
  · obtain ⟨space, parsed⟩ := (spaces.accepts
      "0x60138453000000000000000000000000000AbCdE").mpr
        ⟨by decide, List.all_iff_forall_prop.mp (by decide)⟩
    exact ⟨space, parsed, (spaces.spells _ space parsed).2⟩

end Octets

end SlotStorage
