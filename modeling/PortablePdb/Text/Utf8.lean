import PortablePdb.Bytes

/-!
# Text in UTF-8

Text is stored as UTF-8. Reading never fails: where the bytes are no character, the replacement
character U+FFFD stands for the longest run of bytes that could have begun one, and reading goes
on behind that run.

* `decode_encode`: text is read back as it was written.
* `decodeChars_encodeChar_append`: a character is read back whatever follows it.
-/

namespace PortablePdb.Utf8

def encode (text : String) : Bytes := text.toList.flatMap String.utf8EncodeChar

/-- The character that some bytes begin with, if they begin with one. No character takes more
than four bytes. -/
def firstChar? (bytes : Bytes) : Option Char := (bytes.take 4).toByteArray.utf8DecodeChar? 0

def isTail (byte : UInt8) : Bool := 0x80 ≤ byte && byte < 0xC0

/-- Whether a byte can be the second of three or four bytes, after the given first one. Beside
the general rule this keeps out over-long forms, surrogates and numbers above U+10FFFF. -/
def canFollow (lead second : UInt8) : Bool :=
  if lead = 0xE0 then 0xA0 ≤ second && second < 0xC0
  else if lead = 0xED then 0x80 ≤ second && second < 0xA0
  else if lead = 0xF0 then 0x90 ≤ second && second < 0xC0
  else if lead = 0xF4 then 0x80 ≤ second && second < 0x90
  else 0xE0 ≤ lead && lead < 0xF5 && isTail second

/-- How many bytes behind the first one belong to the same broken character. -/
def brokenTail (lead : UInt8) : Bytes → Nat
  | [] => 0
  | second :: rest =>
    if canFollow lead second then
      if 0xF0 ≤ lead && rest.head?.any isTail then 2 else 1
    else 0

def replacement : Char := '\uFFFD'

def decodeChars (bytes : Bytes) : List Char :=
  match bytes with
  | [] => []
  | lead :: rest =>
    match firstChar? (lead :: rest) with
    | some c => c :: decodeChars (rest.drop (c.utf8Size - 1))
    | none => replacement :: decodeChars (rest.drop (brokenTail lead rest))
termination_by bytes.length
decreasing_by all_goals simp only [List.length_drop, List.length_cons]; omega

def decode (bytes : Bytes) : String := String.ofList (decodeChars bytes)

@[simp] theorem decode_nil : decode [] = "" := by simp [decode, decodeChars]

/-- The bytes of a character are recognised whatever follows them. -/
theorem firstChar?_encodeChar_append (c : Char) (rest : Bytes) :
    firstChar? (String.utf8EncodeChar c ++ rest) = some c := by
  have hlen : (String.utf8EncodeChar c).length ≤ 4 := by
    rw [String.length_utf8EncodeChar]
    exact c.utf8Size_le_four
  rw [firstChar?, List.take_append, List.take_of_length_le hlen, List.toByteArray_append]
  exact ByteArray.utf8DecodeChar?_utf8EncodeChar_append

theorem decodeChars_encodeChar_append (c : Char) (rest : Bytes) :
    decodeChars (String.utf8EncodeChar c ++ rest) = c :: decodeChars rest := by
  have hfirst := firstChar?_encodeChar_append c rest
  have hlen := String.length_utf8EncodeChar c
  cases hbytes : String.utf8EncodeChar c with
  | nil => exact absurd hbytes String.utf8EncodeChar_ne_nil
  | cons lead tail =>
    rw [hbytes] at hfirst hlen
    simp only [List.length_cons] at hlen
    rw [List.cons_append] at hfirst ⊢
    rw [decodeChars, hfirst]
    simp only [show c.utf8Size - 1 = tail.length by omega, List.drop_left]

theorem decodeChars_flatMap (chars : List Char) :
    decodeChars (chars.flatMap String.utf8EncodeChar) = chars := by
  induction chars with
  | nil => simp [decodeChars]
  | cons c rest ih => rw [List.flatMap_cons, decodeChars_encodeChar_append, ih]

/-- Text survives being stored. -/
theorem decode_encode (text : String) : decode (encode text) = text := by
  rw [decode, encode, decodeChars_flatMap, String.ofList_toList]

end PortablePdb.Utf8
