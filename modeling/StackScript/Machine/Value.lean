import StackScript.Code.Op
import StackScript.Number.Format
import StackScript.Number.Reading
import StackScript.Text.Quoted

/-!
# Values

The values that code works on, what they are as numbers, texts and truth values, and the operations
on them. Objects and native functions are known by their numbers.
-/

namespace StackScript

/-- The values of the script language. -/
inductive Value where
  | undefined
  | null
  | bool (value : Bool)
  | number (value : Float)
  | string (content : String)
  | object (id : Nat)
  | native (id : Nat)

namespace Value

/-- Equality of values: of the same kind, and equal as numbers if they are numbers. -/
def same : Value → Value → Bool
  | .undefined => fun | .undefined => true | _ => false
  | .null => fun | .null => true | _ => false
  | .bool a => fun | .bool b => a == b | _ => false
  | .number x => fun | .number y => Number.same x y | _ => false
  | .string s => fun | .string t => s == t | _ => false
  | .object m => fun | .object n => m == n | _ => false
  | .native m => fun | .native n => m == n | _ => false

/-- What a condition takes the value for. -/
def truthy : Value → Bool
  | .undefined | .null => false
  | .bool value => value
  | .number value => !Number.isZero value && !Number.isNaN value
  | .string content => content != ""
  | .object _ | .native _ => true

/-- The value as a number; NaN when it is none. -/
def toNumber : Value → Float
  | .number value => value
  | .bool value => if value then 1.0 else 0.0
  | .null => 0.0
  | .string content => (Number.ofText? content).getD Number.nan
  | .undefined | .object _ | .native _ => Number.nan

/-- The value as messages show it. -/
def describe : Value → String
  | .undefined => "Undefined"
  | .null => "Null"
  | .bool value => "Bool(" ++ (if value then "true" else "false") ++ ")"
  | .number value => "Number(" ++ Number.Style.detail.text value ++ ")"
  | .string content => "Str(" ++ Text.quote content ++ ")"
  | .object id => "Object(" ++ toString id ++ ")"
  | .native id => "Native(" ++ toString id ++ ")"

/-- The value as text, which is also the property that it stands for. -/
def toKey : Value → String
  | .string content => content
  | .number value => Number.Style.listing.text value
  | .bool value => if value then "true" else "false"
  | other => other.describe

/-- The kind of the value, as the language tells it. -/
def typeName : Value → String
  | .undefined => "undefined"
  | .null | .object _ => "object"
  | .bool _ => "boolean"
  | .number _ => "number"
  | .string _ => "string"
  | .native _ => "function"

/-- Texts are joined with whatever they are added to; all else is added as numbers. -/
def add : Value → Value → Value
  | .string s, right => .string (s ++ right.toKey)
  | left, .string t => .string (left.toKey ++ t)
  | left, right => .number (left.toNumber + right.toNumber)

end Value

/-- What an operation on two values does, if the machine has it. -/
def Op.binary? : Op → Option (Value → Value → Value)
  | .add => some Value.add
  | .sub => some fun a b => .number (a.toNumber - b.toNumber)
  | .mul => some fun a b => .number (a.toNumber * b.toNumber)
  | .div => some fun a b => .number (a.toNumber / b.toNumber)
  | .mod => some fun a b => .number (Number.remainder a.toNumber b.toNumber)
  | .lt => some fun a b => .bool (a.toNumber < b.toNumber)
  | .le => some fun a b => .bool (a.toNumber ≤ b.toNumber)
  | .gt => some fun a b => .bool (b.toNumber < a.toNumber)
  | .ge => some fun a b => .bool (b.toNumber ≤ a.toNumber)
  | .eq | .strictEq => some fun a b => .bool (a.same b)
  | .ne | .strictNe => some fun a b => .bool !(a.same b)
  | _ => none

/-- What an operation on one value does, if the machine has it. -/
def Op.unary? : Op → Option (Value → Value)
  | .not => some fun a => .bool !a.truthy
  | .neg => some fun a => .number (-a.toNumber)
  | .typeOf => some fun a => .string a.typeName
  | _ => none

/-- The number that an update adds. -/
def Op.step? : Op → Option Float
  | .preInc | .postInc => some 1.0
  | .preDec | .postDec => some (-1.0)
  | _ => none

/-- An update gives the new number rather than the old one. -/
def Op.givesNew : Op → Bool
  | .preInc | .preDec => true
  | _ => false

end StackScript
