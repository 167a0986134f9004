/-!
# Hexadecimal text

Numbers written in hexadecimal: in lower case, with as many digits as they need or padded with
zeros to a width. Digits are read in either case.

* `ofNat`, `padded`: the text of a number.
* `toNat?`: the number that a text stands for.
-/

namespace PortablePdb.Hexadecimal

def ofNat (n : Nat) : String := String.ofList (Nat.toDigits 16 n)

/-- The hexadecimal digits of a number, with zeros in front up to `width` digits. -/
def padded (width n : Nat) : String :=
  String.ofList ((Nat.toDigits 16 n).leftpad width '0')

def digit? (c : Char) : Option Nat :=
  if '0' ≤ c ∧ c ≤ '9' then some (c.toNat - '0'.toNat)
  else if 'a' ≤ c ∧ c ≤ 'f' then some (c.toNat - 'a'.toNat + 10)
  else if 'A' ≤ c ∧ c ≤ 'F' then some (c.toNat - 'A'.toNat + 10)
  else none

/-- The number written with exactly these digits, most significant digit first. -/
def toNat? (digits : List Char) : Option Nat :=
  digits.foldlM (fun value c => (digit? c).map (16 * value + ·)) 0

end PortablePdb.Hexadecimal
