import StackScript.Number.Shortest

/-!
# Number text

How a number is written. The digits are always the shortest ones; a `Style` says where they are
written without an exponent and how an exponent looks. Three styles are in use: in listings and as
property keys, in printed trees, and in the description of a value.
-/

namespace StackScript.Number

/-- Where a number has a point or an exponent, and how they look. -/
structure Style where
  tie : Tie
  /-- The powers of ten of the first digit for which no exponent is written; all if absent. -/
  plain : Option (Int × Int)
  /-- Whole numbers are written with a fraction of `.0`. -/
  fraction : Bool
  /-- An exponent that is not negative has a plus sign. -/
  plus : Bool

/-- Listings and property keys never have an exponent, and whole numbers have no point. -/
def Style.listing : Style := ⟨.up, none, false, false⟩

/-- Printed trees have a point in every number without an exponent, and a sign in every exponent. -/
def Style.tree : Style := ⟨.even, some (-5, 15), true, true⟩

/-- The description of a value has a point in every number without an exponent. -/
def Style.detail : Style := ⟨.up, some (-4, 15), true, false⟩

/-- A row of zeros. -/
def zeros (n : Nat) : String :=
  String.ofList (List.replicate n '0')

/-- The digits with the point `whole` places after the first. -/
def Style.positional (style : Style) (digits : String) (whole : Int) : String :=
  let size : Int := digits.length
  if size ≤ whole then
    digits ++ zeros (whole - size).toNat ++ (if style.fraction then ".0" else "")
  else if 0 < whole then
    String.ofList (digits.toList.take whole.toNat) ++ "." ++
      String.ofList (digits.toList.drop whole.toNat)
  else "0." ++ zeros (-whole).toNat ++ digits

/-- One digit, the others after a point, and the power of ten of the first. -/
def Style.scientific (style : Style) (digits : String) (power : Int) : String :=
  let rest := digits.toList.drop 1
  String.ofList (digits.toList.take 1) ++
    (if rest.isEmpty then "" else "." ++ String.ofList rest) ++ "e" ++
    (if power < 0 then "-" else if style.plus then "+" else "") ++ toString power.natAbs

/-- A decimal that is not negative. -/
def Style.decimal (style : Style) (d : Decimal) : String :=
  let digits := toString d.coefficient
  let whole := digits.length + d.exponent
  match style.plain with
  | none => style.positional digits whole
  | some (least, greatest) =>
    if d.coefficient = 0 ∨ (least ≤ whole - 1 ∧ whole - 1 ≤ greatest) then
      style.positional digits whole
    else style.scientific digits (whole - 1)

/-- The text of a number. -/
def Style.text (style : Style) (x : Float) : String :=
  match view x with
  | .nan => "NaN"
  | .infinite negative => if negative then "-inf" else "inf"
  | .finite negative mantissa exponent =>
    (if negative then "-" else "") ++ style.decimal (shortest style.tie mantissa exponent)

end StackScript.Number
