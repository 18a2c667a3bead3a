/-!
# Binary numbers

The numbers of the script language are binary64. They are taken apart into a sign, a whole mantissa
and a power of two, and put together again, by their bits; equality and remainder are defined on
these parts.
-/

namespace StackScript.Number

/-- A number taken apart: a finite one is `mantissa * 2 ^ exponent` with the given sign. -/
inductive View where
  | nan
  | infinite (negative : Bool)
  | finite (negative : Bool) (mantissa : Nat) (exponent : Int)
  deriving DecidableEq, Repr

/-- Mantissas of normal numbers lie between `2 ^ 52` and its double. -/
def leastNormal : Nat := 0x10000000000000

/-- The bit that is set in negative numbers. -/
def signBit : Nat := 0x8000000000000000

/-- The exponent of the smallest numbers. -/
def leastExponent : Int := -1074

/-- Takes a number apart by its bits. -/
def view (x : Float) : View :=
  let bits := x.toBits.toNat
  let negative := bits / signBit == 1
  let field := bits / leastNormal % 2048
  let fraction := bits % leastNormal
  if field = 2047 then
    if fraction = 0 then .infinite negative else .nan
  else if field = 0 then .finite negative fraction leastExponent
  else .finite negative (fraction + leastNormal) (leastExponent + (field - 1 : Nat))

/-- The number `mantissa * 2 ^ exponent` with the given sign. It is exact when there is such a
    number. -/
def ofParts (negative : Bool) (mantissa : Nat) (exponent : Int) : Float :=
  let sign := if negative then signBit else 0
  if mantissa = 0 then Float.ofBits (UInt64.ofNat sign)
  else
    let target := max (exponent + mantissa.log2 - 52) leastExponent
    let scaled :=
      if target ≤ exponent then mantissa <<< (exponent - target).toNat
      else mantissa >>> (target - exponent).toNat
    let field := if scaled < leastNormal then 0 else (target - leastExponent).toNat + 1
    if 2047 ≤ field then Float.ofBits (UInt64.ofNat (sign + 2047 * leastNormal))
    else Float.ofBits (UInt64.ofNat (sign + field * leastNormal + scaled % leastNormal))

/-- The one NaN that is made here. -/
def nan : Float := Float.ofBits 0x7ff8000000000000

/-- Neither an infinity nor NaN. -/
def isFinite (x : Float) : Bool :=
  match view x with
  | .finite .. => true
  | _ => false

/-- Either of the two zeros. -/
def isZero (x : Float) : Bool :=
  match view x with
  | .finite _ mantissa _ => mantissa == 0
  | _ => false

/-- Not a number. -/
def isNaN (x : Float) : Bool :=
  view x == .nan

/-- Numeric equality: the two zeros are equal, and a NaN equals nothing. -/
def same (x y : Float) : Bool :=
  match view x, view y with
  | .nan, _ => false
  | _, .nan => false
  | u, v => u == v || (isZero x && isZero y)

/-- The remainder of a division that rounds the quotient toward zero. It is exact and has the sign
    of the dividend. -/
def remainder (x y : Float) : Float :=
  match view x, view y with
  | .finite negative m e, .finite _ n f =>
    if n = 0 then nan
    else
      let unit := min e f
      let dividend := m <<< (e - unit).toNat
      let divisor := n <<< (f - unit).toNat
      ofParts negative (dividend % divisor) unit
  | .finite .., .infinite _ => x
  | _, _ => nan

end StackScript.Number
