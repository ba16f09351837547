/-
Numbers as text. Decimal numerals are signed where the number is;
hexadecimal numerals are written in upper case behind `0x` and padded
with zeros to a least number of digits.
-/

namespace Disasm8086.Text

/-- The digits of a number in hexadecimal, at least `least` of them. -/
def hexDigits (least n : Nat) : List Char :=
  ((Nat.toDigits 16 n).map Char.toUpper).leftpad least '0'

/-- A number in hexadecimal with at least `least` digits. -/
def hex (least n : Nat) : String :=
  "0x" ++ String.ofList (hexDigits least n)

/-- A natural number in decimal. -/
def natural (n : Nat) : String := String.ofList (Nat.toDigits 10 n)

/-- An integer in decimal, a minus sign in front of a negative one. -/
def signed (n : Int) : String :=
  if n < 0 then "-" ++ natural n.natAbs else natural n.natAbs

end Disasm8086.Text
