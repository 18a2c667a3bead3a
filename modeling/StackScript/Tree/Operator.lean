/-!
# Operators

The operators of the script language, the name each has in a written tree, and the binary operator
behind each compound assignment.
-/

namespace StackScript

/-- Operators on one value, and `delete`, which is for a place. -/
inductive UnaryOperator where
  | minus
  | plus
  | not
  | bitNot
  | typeof
  | void
  | delete
  deriving DecidableEq, Repr

/-- Operators that change the number in a place by one. -/
inductive UpdateOperator where
  | increment
  | decrement
  deriving DecidableEq, Repr

/-- Operators on two values. -/
inductive BinaryOperator where
  | add
  | subtract
  | multiply
  | divide
  | modulo
  | equal
  | notEqual
  | strictEqual
  | strictNotEqual
  | less
  | lessEqual
  | greater
  | greaterEqual
  | bitAnd
  | bitOr
  | bitXor
  | shiftLeft
  | shiftRight
  | shiftRightUnsigned
  | isIn
  | instanceOf
  deriving DecidableEq, Repr

/-- Operators that may leave out their right side. -/
inductive LogicalOperator where
  | and
  | or
  deriving DecidableEq, Repr

/-- Plain assignment, and those that apply an operator first. -/
inductive AssignmentOperator where
  | assign
  | add
  | subtract
  | multiply
  | divide
  | modulo
  | shiftLeft
  | shiftRight
  | shiftRightUnsigned
  | bitAnd
  | bitOr
  | bitXor
  deriving DecidableEq, Repr

/-- The name of the operator in a written tree. -/
def UnaryOperator.name : UnaryOperator → String
  | .minus => "Minus"
  | .plus => "Plus"
  | .not => "LogicalNot"
  | .bitNot => "BitwiseNot"
  | .typeof => "Typeof"
  | .void => "Void"
  | .delete => "Delete"

/-- The operator with the given name in a written tree. -/
def UnaryOperator.ofName? : String → Option UnaryOperator
  | "Minus" => some .minus
  | "Plus" => some .plus
  | "LogicalNot" => some .not
  | "BitwiseNot" => some .bitNot
  | "Typeof" => some .typeof
  | "Void" => some .void
  | "Delete" => some .delete
  | _ => none

theorem UnaryOperator.ofName?_name (op : UnaryOperator) : ofName? op.name = some op := by
  cases op <;> rfl

/-- The name of the operator in a written tree. -/
def UpdateOperator.name : UpdateOperator → String
  | .increment => "Increment"
  | .decrement => "Decrement"

/-- The operator with the given name in a written tree. -/
def UpdateOperator.ofName? : String → Option UpdateOperator
  | "Increment" => some .increment
  | "Decrement" => some .decrement
  | _ => none

theorem UpdateOperator.ofName?_name (op : UpdateOperator) : ofName? op.name = some op := by
  cases op <;> rfl

/-- The name of the operator in a written tree. -/
def BinaryOperator.name : BinaryOperator → String
  | .add => "Add"
  | .subtract => "Subtract"
  | .multiply => "Multiply"
  | .divide => "Divide"
  | .modulo => "Modulo"
  | .equal => "Equal"
  | .notEqual => "NotEqual"
  | .strictEqual => "StrictEqual"
  | .strictNotEqual => "StrictNotEqual"
  | .less => "LessThan"
  | .lessEqual => "LessThanEqual"
  | .greater => "GreaterThan"
  | .greaterEqual => "GreaterThanEqual"
  | .bitAnd => "BitwiseAnd"
  | .bitOr => "BitwiseOr"
  | .bitXor => "BitwiseXor"
  | .shiftLeft => "LeftShift"
  | .shiftRight => "RightShift"
  | .shiftRightUnsigned => "UnsignedRightShift"
  | .isIn => "In"
  | .instanceOf => "InstanceOf"

/-- The operator with the given name in a written tree. -/
def BinaryOperator.ofName? : String → Option BinaryOperator
  | "Add" => some .add
  | "Subtract" => some .subtract
  | "Multiply" => some .multiply
  | "Divide" => some .divide
  | "Modulo" => some .modulo
  | "Equal" => some .equal
  | "NotEqual" => some .notEqual
  | "StrictEqual" => some .strictEqual
  | "StrictNotEqual" => some .strictNotEqual
  | "LessThan" => some .less
  | "LessThanEqual" => some .lessEqual
  | "GreaterThan" => some .greater
  | "GreaterThanEqual" => some .greaterEqual
  | "BitwiseAnd" => some .bitAnd
  | "BitwiseOr" => some .bitOr
  | "BitwiseXor" => some .bitXor
  | "LeftShift" => some .shiftLeft
  | "RightShift" => some .shiftRight
  | "UnsignedRightShift" => some .shiftRightUnsigned
  | "In" => some .isIn
  | "InstanceOf" => some .instanceOf
  | _ => none

theorem BinaryOperator.ofName?_name (op : BinaryOperator) : ofName? op.name = some op := by
  cases op <;> rfl

/-- The name of the operator in a written tree. -/
def LogicalOperator.name : LogicalOperator → String
  | .and => "And"
  | .or => "Or"

/-- The operator with the given name in a written tree. -/
def LogicalOperator.ofName? : String → Option LogicalOperator
  | "And" => some .and
  | "Or" => some .or
  | _ => none

theorem LogicalOperator.ofName?_name (op : LogicalOperator) : ofName? op.name = some op := by
  cases op <;> rfl

/-- The name of the operator in a written tree. -/
def AssignmentOperator.name : AssignmentOperator → String
  | .assign => "Assign"
  | .add => "AddAssign"
  | .subtract => "SubtractAssign"
  | .multiply => "MultiplyAssign"
  | .divide => "DivideAssign"
  | .modulo => "ModuloAssign"
  | .shiftLeft => "LeftShiftAssign"
  | .shiftRight => "RightShiftAssign"
  | .shiftRightUnsigned => "UnsignedRightShiftAssign"
  | .bitAnd => "BitwiseAndAssign"
  | .bitOr => "BitwiseOrAssign"
  | .bitXor => "BitwiseXorAssign"

/-- The operator with the given name in a written tree. -/
def AssignmentOperator.ofName? : String → Option AssignmentOperator
  | "Assign" => some .assign
  | "AddAssign" => some .add
  | "SubtractAssign" => some .subtract
  | "MultiplyAssign" => some .multiply
  | "DivideAssign" => some .divide
  | "ModuloAssign" => some .modulo
  | "LeftShiftAssign" => some .shiftLeft
  | "RightShiftAssign" => some .shiftRight
  | "UnsignedRightShiftAssign" => some .shiftRightUnsigned
  | "BitwiseAndAssign" => some .bitAnd
  | "BitwiseOrAssign" => some .bitOr
  | "BitwiseXorAssign" => some .bitXor
  | _ => none

theorem AssignmentOperator.ofName?_name (op : AssignmentOperator) : ofName? op.name = some op := by
  cases op <;> rfl

/-- The operator that a compound assignment applies before it stores; none for plain assignment. -/
def AssignmentOperator.binary? : AssignmentOperator → Option BinaryOperator
  | .assign => none
  | .add => some .add
  | .subtract => some .subtract
  | .multiply => some .multiply
  | .divide => some .divide
  | .modulo => some .modulo
  | .shiftLeft => some .shiftLeft
  | .shiftRight => some .shiftRight
  | .shiftRightUnsigned => some .shiftRightUnsigned
  | .bitAnd => some .bitAnd
  | .bitOr => some .bitOr
  | .bitXor => some .bitXor

end StackScript
