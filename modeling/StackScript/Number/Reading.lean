import StackScript.Number.Basic

/-!
# Reading numbers

A number in text: a sign, digits with at most one point among or around them, and a power of ten; or
one of the words for infinity and NaN, in any case. The nearest binary number is taken, and infinity
where there is none.
-/

namespace StackScript.Number

/-- The number with the given digits. -/
def digitsValue (digits : List Char) : Nat :=
  digits.foldl (fun n c => 10 * n + (c.toNat - '0'.toNat)) 0

/-- A sign, if there is one, and what follows it. -/
def splitSign : List Char → Bool × List Char
  | '-' :: rest => (true, rest)
  | '+' :: rest => (false, rest)
  | text => (false, text)

/-- The power of ten after the digits; nothing may follow it. -/
def readExponent? : List Char → Option Int
  | [] => some 0
  | mark :: rest =>
    if mark = 'e' ∨ mark = 'E' then
      let (negative, digits) := splitSign rest
      if digits.isEmpty ∨ ¬ digits.all Char.isDigit then none
      else some (if negative then -(digitsValue digits : Int) else digitsValue digits)
    else none

/-- The digits after a point, if there is one, and what follows them. -/
def splitFraction : List Char → List Char × List Char
  | '.' :: rest => rest.span Char.isDigit
  | text => ([], text)

/-- The nearest number to `coefficient * 10 ^ exponent`. -/
def ofDecimal (coefficient : Nat) (exponent : Int) : Float :=
  Float.ofScientific coefficient (exponent < 0) exponent.natAbs

/-- A number without a sign, or a word for one that is not finite. -/
def readUnsigned? (text : List Char) : Option Float :=
  let word := text.map Char.toLower
  if word = "inf".toList ∨ word = "infinity".toList then some (Float.ofBits 0x7ff0000000000000)
  else if word = "nan".toList then some nan
  else
    let (whole, rest) := text.span Char.isDigit
    let (fraction, rest) := splitFraction rest
    if whole.isEmpty ∧ fraction.isEmpty then none
    else (readExponent? rest).map fun power =>
      ofDecimal (digitsValue (whole ++ fraction)) (power - fraction.length)

/-- The number that a text stands for, if it stands for one. -/
def ofText? (text : String) : Option Float :=
  let (negative, rest) := splitSign text.toList
  (readUnsigned? rest).map fun x => if negative then -x else x

end StackScript.Number
