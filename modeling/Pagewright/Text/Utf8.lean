import Pagewright.Text.Basic
import Pagewright.Text.Quoted

/-! # UTF-8

Main definitions: `utf8` (the bytes of a text), `decodeUtf8?` (the text of some bytes). -/

namespace Pagewright.Text

/-- The UTF-8 bytes of a character. -/
def utf8Char (c : Char) : List Nat :=
  let n := c.toNat
  if n < 0x80 then [n]
  else if n < 0x800 then [0xC0 + n / 0x40, 0x80 + n % 0x40]
  else if n < 0x10000 then [0xE0 + n / 0x1000, 0x80 + n / 0x40 % 0x40, 0x80 + n % 0x40]
  else [0xF0 + n / 0x40000, 0x80 + n / 0x1000 % 0x40, 0x80 + n / 0x40 % 0x40, 0x80 + n % 0x40]

/-- The UTF-8 bytes of a text. -/
def utf8 (t : Text) : List Nat := t.flatMap utf8Char

/-- The character that some bytes are, if they are the shortest form of one. -/
def charOfBytes? (bytes : List Nat) : Option Char :=
  let code : Option Nat := match bytes with
    | [a] => some a
    | [a, b] => some (a % 0x20 * 0x40 + b % 0x40)
    | [a, b, c] => some (a % 0x10 * 0x1000 + b % 0x40 * 0x40 + c % 0x40)
    | [a, b, c, d] => some (a % 8 * 0x40000 + b % 0x40 * 0x1000 + c % 0x40 * 0x40 + d % 0x40)
    | _ => none
  code.bind fun n =>
    let c := Char.ofNat n
    if c.toNat = n ∧ utf8Char c = bytes then some c else none

/-- The number of bytes of a character with a given first byte. -/
def utf8Length (first : Nat) : Nat :=
  if first < 0x80 then 1 else if first < 0xE0 then 2 else if first < 0xF0 then 3 else 4

/-- The text of UTF-8 bytes, of which the first `skip` belong to a character that was read. -/
def decodeUtf8From? : Nat → List Nat → Option Text
  | _, [] => some []
  | k + 1, _ :: bs => decodeUtf8From? k bs
  | 0, b :: bs => do
    let n := utf8Length b
    let c ← charOfBytes? ((b :: bs).take n)
    return c :: (← decodeUtf8From? (n - 1) bs)

/-- The text of UTF-8 bytes. -/
def decodeUtf8? (bytes : List Nat) : Option Text := decodeUtf8From? 0 bytes

end Pagewright.Text

/-! ## Percent encoding

The bytes of a text, in UTF-8, as they stand in an address: letters, digits and a few marks stand
for themselves, other bytes are written as a percent sign and two hexadecimal digits.

Main definition: `percentEncoded`. -/

namespace Pagewright.Text

/-- A text in percent encoding; the characters of `safe` stand for themselves too. -/
def percentEncoded (safe t : Text) : Text :=
  t.flatMap fun c =>
    if isAsciiLetter c || isAsciiDigit c || "_.-~".toList.contains c || safe.contains c then [c]
    else (utf8Char c).flatMap fun b => '%' :: upper (hexDigits 2 b)

end Pagewright.Text
