import StackScript.Number.Basic

/-!
# Shortest decimals

The fewest decimal digits that are read back as a given binary number, and of those the nearest to
it. The search goes through the decimal grids from coarse to fine. On each one only the two
neighbours of the number can be the answer, and all comparisons are between whole numbers.
-/

namespace StackScript.Number

/-- What is taken when the number lies halfway between two decimals. -/
inductive Tie where
  | up
  | even
  deriving DecidableEq, Repr

/-- The decimal `coefficient * 10 ^ exponent`. -/
structure Decimal where
  coefficient : Nat
  exponent : Int
  deriving DecidableEq, Repr

/-- The same decimal without zeros at the end of its coefficient. -/
def Decimal.trim (d : Decimal) : Decimal :=
  if h : d.coefficient ≠ 0 ∧ d.coefficient % 10 = 0 then
    Decimal.trim ⟨d.coefficient / 10, d.exponent + 1⟩
  else d
termination_by d.coefficient
decreasing_by omega

/-- The two scales that compare quarters of `2 ^ exponent` with steps of `10 ^ step`: `n` of the
    former are as much as `k` of the latter when `n` times the first scale is `k` times the
    second. -/
def scales (exponent step : Int) : Nat × Nat :=
  (Nat.pow 10 (-step).toNat <<< (exponent - 2).toNat,
    Nat.pow 10 step.toNat <<< (2 - exponent).toNat)

/-- The multiple of `10 ^ step` nearest to `mantissa * 2 ^ exponent` among those that are read back
    as it. The ends of the interval that is read back belong to it when the mantissa is even. -/
def nearestOn (tie : Tie) (mantissa : Nat) (exponent step : Int) : Option Nat :=
  let (unit, grid) := scales exponent step
  let low := if mantissa = leastNormal ∧ leastExponent < exponent then 4 * mantissa - 1
    else 4 * mantissa - 2
  let high := 4 * mantissa + 2
  let inside (n : Nat) : Bool :=
    if mantissa % 2 = 0 then low * unit ≤ n * grid ∧ n * grid ≤ high * unit
    else low * unit < n * grid ∧ n * grid < high * unit
  let below := 4 * mantissa * unit / grid
  let rest := 4 * mantissa * unit % grid
  if below = 0 then none
  else match inside below, inside (below + 1) with
    | true, false => some below
    | false, true => some (below + 1)
    | false, false => none
    | true, true =>
      if 2 * rest < grid then some below
      else if grid < 2 * rest then some (below + 1)
      else match tie with
        | .up => some (below + 1)
        | .even => some (if below % 2 = 0 then below else below + 1)

/-- Looks on at most `count` grids, from `10 ^ step` down. -/
def searchGrids (tie : Tie) (mantissa : Nat) (exponent : Int) : Nat → Int → Decimal
  | 0, step => ⟨0, step⟩
  | count + 1, step =>
    match nearestOn tie mantissa exponent step with
    | some n => ⟨n, step⟩
    | none => searchGrids tie mantissa exponent count (step - 1)

/-- The shortest decimal for `mantissa * 2 ^ exponent`. Seventeen digits are always enough, and the
    first grid lies at most one place above the first digit. -/
def shortest (tie : Tie) (mantissa : Nat) (exponent : Int) : Decimal :=
  if mantissa = 0 then ⟨0, 0⟩
  else
    let magnitude := (mantissa.log2 + exponent) * 30103 / 100000
    (searchGrids tie mantissa exponent 20 (magnitude + 1)).trim

end StackScript.Number
