import StackScript.Tree.Operator

/-!
# Operations

What an instruction does, apart from its operands. Values and references to places share one stack.
-/

namespace StackScript

/-- The operations of the machine. -/
inductive Op where
  | pushUndefined
  | pushNull
  | pushTrue
  | pushFalse
  | pushNumber
  | pushString
  | pushRegExp
  | pushThis
  | pushName
  | pushFunction
  | pop
  | loadName
  | storeVar
  | resolveName
  | resolveIndex
  | deref
  | assign
  | getMember
  | getIndex
  | setProperty
  | newObject
  | newArray
  | add
  | sub
  | mul
  | div
  | mod
  | shl
  | shr
  | ushr
  | bitAnd
  | bitOr
  | bitXor
  | eq
  | ne
  | strictEq
  | strictNe
  | lt
  | le
  | gt
  | ge
  | isIn
  | instanceOf
  | neg
  | plus
  | not
  | bitNot
  | typeOf
  | typeOfRef
  | void
  | delete
  | preInc
  | preDec
  | postInc
  | postDec
  | jump
  | jumpIfFalse
  | jumpIfFalseOrPop
  | jumpIfTrueOrPop
  | call
  | callRef
  | construct
  | constructRef
  | escape
  | throwMisuse
  | ret
  deriving DecidableEq, Repr

namespace Op

/-- The word for the operation in a listing. -/
def mnemonic : Op → String
  | .pushUndefined => "push_undefined"
  | .pushNull => "push_null"
  | .pushTrue => "push_true"
  | .pushFalse => "push_false"
  | .pushNumber => "push_number"
  | .pushString => "push_string"
  | .pushRegExp => "push_regexp"
  | .pushThis => "push_this"
  | .pushName => "push_name"
  | .pushFunction => "push_function"
  | .pop => "pop"
  | .loadName => "load_name"
  | .storeVar => "store_var"
  | .resolveName => "resolve_name"
  | .resolveIndex => "resolve_index"
  | .deref => "deref"
  | .assign => "assign"
  | .getMember => "get_member"
  | .getIndex => "get_index"
  | .setProperty => "set_property"
  | .newObject => "new_object"
  | .newArray => "new_array"
  | .add => "add"
  | .sub => "sub"
  | .mul => "mul"
  | .div => "div"
  | .mod => "mod"
  | .shl => "shl"
  | .shr => "shr"
  | .ushr => "ushr"
  | .bitAnd => "bit_and"
  | .bitOr => "bit_or"
  | .bitXor => "bit_xor"
  | .eq => "eq"
  | .ne => "ne"
  | .strictEq => "strict_eq"
  | .strictNe => "strict_ne"
  | .lt => "lt"
  | .le => "le"
  | .gt => "gt"
  | .ge => "ge"
  | .isIn => "in"
  | .instanceOf => "instanceof"
  | .neg => "neg"
  | .plus => "plus"
  | .not => "not"
  | .bitNot => "bit_not"
  | .typeOf => "typeof"
  | .typeOfRef => "typeof_ref"
  | .void => "void"
  | .delete => "delete"
  | .preInc => "pre_inc"
  | .preDec => "pre_dec"
  | .postInc => "post_inc"
  | .postDec => "post_dec"
  | .jump => "jump"
  | .jumpIfFalse => "jump_if_false"
  | .jumpIfFalseOrPop => "jump_if_false_or_pop"
  | .jumpIfTrueOrPop => "jump_if_true_or_pop"
  | .call => "call"
  | .callRef => "call_ref"
  | .construct => "new"
  | .constructRef => "new_ref"
  | .escape => "escape"
  | .throwMisuse => "throw_error"
  | .ret => "return"

/-- All operations, in their order. -/
def all : List Op :=
  [.pushUndefined, .pushNull, .pushTrue, .pushFalse, .pushNumber, .pushString, .pushRegExp,
    .pushThis, .pushName, .pushFunction, .pop, .loadName, .storeVar, .resolveName, .resolveIndex,
    .deref, .assign, .getMember, .getIndex, .setProperty, .newObject, .newArray, .add, .sub,
    .mul, .div, .mod, .shl, .shr, .ushr, .bitAnd, .bitOr, .bitXor, .eq, .ne, .strictEq,
    .strictNe, .lt, .le, .gt, .ge, .isIn, .instanceOf, .neg, .plus, .not, .bitNot, .typeOf,
    .typeOfRef, .void, .delete, .preInc, .preDec, .postInc, .postDec, .jump, .jumpIfFalse,
    .jumpIfFalseOrPop, .jumpIfTrueOrPop, .call, .callRef, .construct, .constructRef, .escape,
    .throwMisuse, .ret]

/-- The operation with the given word. -/
def ofMnemonic? (word : String) : Option Op :=
  all.find? fun op => op.mnemonic == word

/-- The operation may go on somewhere else than at the next instruction. -/
def isJump : Op → Bool
  | .jump | .jumpIfFalse | .jumpIfFalseOrPop | .jumpIfTrueOrPop => true
  | _ => false

end Op

/-- The operation that applies a binary operator to the two topmost values. -/
def BinaryOperator.op : BinaryOperator → Op
  | .add => .add
  | .subtract => .sub
  | .multiply => .mul
  | .divide => .div
  | .modulo => .mod
  | .equal => .eq
  | .notEqual => .ne
  | .strictEqual => .strictEq
  | .strictNotEqual => .strictNe
  | .less => .lt
  | .lessEqual => .le
  | .greater => .gt
  | .greaterEqual => .ge
  | .bitAnd => .bitAnd
  | .bitOr => .bitOr
  | .bitXor => .bitXor
  | .shiftLeft => .shl
  | .shiftRight => .shr
  | .shiftRightUnsigned => .ushr
  | .isIn => .isIn
  | .instanceOf => .instanceOf

end StackScript
