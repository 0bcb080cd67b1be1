import JinkAnalysis.Text.Basic

/-!
# Texts as bytes

Texts are stored as UTF-8. Decoding accepts any bytes: where they are not well formed, the longest
piece that starts a well-formed character (or one byte, if there is no such piece) is replaced by a
given text, and decoding goes on after it. Overlong forms, surrogates and values beyond U+10FFFF are
not well formed.

Percent escapes write a byte as a percent sign and two hexadecimal digits; `Text.escaped` and
`Text.unescaped` use them to move between paths and URIs.
-/

namespace JinkAnalysis

/-- A sequence of bytes. -/
abbrev Bytes := List UInt8

namespace Bytes

/-- What the first byte of a character says: how many bytes follow, between which bounds the next of
them must lie, and the bits that it contributes. -/
structure Lead where
  /-- The number of bytes that follow. -/
  more : Nat
  /-- The least value of the next byte. -/
  low : Nat
  /-- The greatest value of the next byte. -/
  high : Nat
  /-- The leading bits of the code point. -/
  bits : Nat
deriving Repr, DecidableEq

/-- What a byte says as the first byte of a character, if it can be one. -/
def lead? (byte : UInt8) : Option Lead :=
  let b := byte.toNat
  if b < 0x80 then some ⟨0, 0, 0, b⟩
  else if b < 0xC2 then none
  else if b < 0xE0 then some ⟨1, 0x80, 0xBF, b - 0xC0⟩
  else if b < 0xF0 then
    some ⟨2, if b = 0xE0 then 0xA0 else 0x80, if b = 0xED then 0x9F else 0xBF, b - 0xE0⟩
  else if b < 0xF5 then
    some ⟨3, if b = 0xF0 then 0x90 else 0x80, if b = 0xF4 then 0x8F else 0xBF, b - 0xF0⟩
  else none

/-- Reads `more` further bytes of a character, the first of them between `low` and `high`: the code
point if all are there, and the number of bytes read. -/
def follow (more low high bits : Nat) (bytes : Bytes) : Option Nat × Nat :=
  match more, bytes with
  | 0, _ => (some bits, 0)
  | _ + 1, [] => (none, 0)
  | more + 1, byte :: rest =>
    if low ≤ byte.toNat ∧ byte.toNat ≤ high then
      let (point, n) := follow more 0x80 0xBF (bits * 64 + (byte.toNat - 0x80)) rest
      (point, n + 1)
    else
      (none, 0)

/-- The text that some bytes stand for, with `bad` for every piece that is not well formed. -/
def decode (bad : Text) : Bytes → Text
  | [] => []
  | byte :: rest =>
    match lead? byte with
    | none => bad ++ decode bad rest
    | some l =>
      match follow l.more l.low l.high l.bits rest with
      | (some point, n) => Char.ofNat point :: decode bad (rest.drop n)
      | (none, n) => bad ++ decode bad (rest.drop n)
termination_by bytes => bytes.length
decreasing_by
  · simp
  · simp only [List.length_drop, List.length_cons]; omega
  · simp only [List.length_drop, List.length_cons]; omega

/-- A piece of some bytes that is not well formed. -/
structure Fault where
  /-- The offset of its first byte. -/
  offset : Nat
  /-- Its bytes. -/
  piece : Bytes
  /-- Whether its first byte can start no character. -/
  badStart : Bool
  /-- Whether it is the beginning of a character that the end of the bytes cuts off. -/
  cutOff : Bool
deriving Repr, DecidableEq, Inhabited

/-- The first piece of some bytes that is not well formed, where `offset` is the offset of the first
of them. -/
def faultFrom? (offset : Nat) : Bytes → Option Fault
  | [] => none
  | byte :: rest =>
    match lead? byte with
    | none => some ⟨offset, [byte], true, false⟩
    | some l =>
      match follow l.more l.low l.high l.bits rest with
      | (some _, n) => faultFrom? (offset + 1 + n) (rest.drop n)
      | (none, n) => some ⟨offset, byte :: rest.take n, false, n == rest.length⟩
termination_by bytes => bytes.length
decreasing_by simp only [List.length_drop, List.length_cons]; omega

/-- The first piece of some bytes that is not well formed. -/
def fault? (bytes : Bytes) : Option Fault := faultFrom? 0 bytes

end Bytes

namespace Text

/-- The bytes of a text. -/
def bytes (t : Text) : Bytes := t.flatMap String.utf8EncodeChar

/-- The text with every line ending, be it a carriage return, a line feed or both, as a line feed.
-/
def unifyLineEnds : Text → Text
  | '\r' :: '\n' :: t => '\n' :: unifyLineEnds t
  | c :: t => (if c = '\r' then '\n' else c) :: unifyLineEnds t
  | [] => []

/-- The value of a hexadecimal digit. -/
def hexValue? (c : Char) : Option Nat :=
  if c.isDigit then some (c.toNat - '0'.toNat)
  else if 'a' ≤ c ∧ c ≤ 'f' then some (c.toNat - 'a'.toNat + 10)
  else if 'A' ≤ c ∧ c ≤ 'F' then some (c.toNat - 'A'.toNat + 10)
  else none

/-- The hexadecimal digit of a value below sixteen, in upper case. -/
def hexDigit (n : Nat) : Char :=
  if n < 10 then Char.ofNat ('0'.toNat + n) else Char.ofNat ('A'.toNat + (n - 10))

/-- Whether a character stands for itself in a URI: ASCII letters, digits, and some marks. -/
def isUnreserved (c : Char) : Bool :=
  c.isAlphanum || c == '_' || c == '.' || c == '-' || c == '~' || c == '/'

/-- The text with percent escapes for the bytes of every character that does not stand for itself.
-/
def escaped (t : Text) : Text :=
  t.flatMap fun c =>
    if isUnreserved c then [c]
    else (String.utf8EncodeChar c).flatMap fun b =>
      ['%', hexDigit (b.toNat / 16), hexDigit (b.toNat % 16)]

/-- The bytes of the percent escapes that a text starts with. -/
def leadingEscapes : Text → Bytes
  | '%' :: a :: b :: t =>
    match hexValue? a, hexValue? b with
    | some x, some y => UInt8.ofNat (16 * x + y) :: leadingEscapes t
    | _, _ => []
  | _ => []

/-- The text with every run of percent escapes replaced by the text of its bytes, where U+FFFD
stands for what is not well formed. A percent sign without two digits stays. -/
def unescaped : Text → Text
  | [] => []
  | c :: t =>
    let bytes := leadingEscapes (c :: t)
    if bytes.isEmpty then c :: unescaped t
    else bytes.decode ['\ufffd'] ++ unescaped (t.drop (3 * bytes.length - 1))
termination_by t => t.length
decreasing_by
  · simp
  · simp only [List.length_drop, List.length_cons]; omega

end Text

end JinkAnalysis
