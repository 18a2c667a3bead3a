import StackScript.Tree.Operator

/-!
# Script trees

Expressions, statements and programs of the script language. A name is its text, and a dotted and a
computed property access are two kinds of expression. The small parts of a statement or an
expression (a property of an object literal, a declarator, a clause of a switch) are parametrised
over the trees inside them, so that the two main types are the only recursive ones.
-/

namespace StackScript

/-- A value that is written out. -/
inductive Literal where
  | number (value : Float)
  | string (text : String)
  | regExp (pattern flags : String)
  | boolean (value : Bool)
  | null
  | undefined

/-- The key of a property in an object literal. -/
inductive PropertyKey where
  | name (text : String)
  | string (text : String)
  | number (value : Float)

/-- A property in an object literal. -/
structure Property (ε : Type) where
  key : PropertyKey
  value : ε

/-- A declared name, with its first value if it has one. -/
structure Declarator (ε : Type) where
  name : String
  init : Option ε

/-- What stands first in the head of a `for` loop. -/
inductive LoopHead (ε : Type) where
  | declaration (declarators : List (Declarator ε))
  | expression (value : ε)

/-- One case of a `switch`; the default case has no test. -/
structure Clause (ε σ : Type) where
  test : Option ε
  body : List σ

/-- The handler of a `try`: the name that holds what was thrown, and what to do with it. -/
structure Handler (σ : Type) where
  param : String
  body : List σ

mutual

/-- What has a value. -/
inductive Expression where
  | literal (value : Literal)
  | name (text : String)
  | thisValue
  | function (name : Option String) (params : List String) (body : List Statement)
  | array (elements : List (Option Expression))
  | object (properties : List (Property Expression))
  | member (object : Expression) (name : String)
  | index (object key : Expression)
  | call (callee : Expression) (arguments : List Expression)
  | construct (callee : Expression) (arguments : List Expression)
  | unary (operator : UnaryOperator) (argument : Expression)
  | update (operator : UpdateOperator) (argument : Expression) (before : Bool)
  | binary (operator : BinaryOperator) (left right : Expression)
  | logical (operator : LogicalOperator) (left right : Expression)
  | assignment (operator : AssignmentOperator) (target value : Expression)
  | conditional (test consequent alternate : Expression)
  | sequence (expressions : List Expression)

/-- What is carried out. -/
inductive Statement where
  | block (body : List Statement)
  | expression (value : Expression)
  | declaration (declarators : List (Declarator Expression))
  | ifElse (test : Expression) (consequent : Statement) (alternate : Option Statement)
  | whileLoop (test : Expression) (body : Statement)
  | doWhile (body : Statement) (test : Expression)
  | forLoop (init : Option (LoopHead Expression)) (test update : Option Expression)
      (body : Statement)
  | empty
  | forIn (head : LoopHead Expression) (object : Expression) (body : Statement)
  | ret (value : Option Expression)
  | breakTo (label : Option String)
  | continueTo (label : Option String)
  | throw (value : Expression)
  | tryCatch (block : List Statement) (handler : Option (Handler Statement))
      (finalizer : Option (List Statement))
  | switch (subject : Expression) (clauses : List (Clause Expression Statement))
  | withObject (object : Expression) (body : Statement)
  | labeled (label : String) (body : Statement)
  | function (name : String) (params : List String) (body : List Statement)

end

/-- Statements, one after the other. -/
structure Program where
  body : List Statement

/-- A function literal, as code that refers to it carries it. -/
structure Function where
  name : Option String
  params : List String
  body : List Statement

/-- References are the expressions that can be assigned to: a name, or a property. -/
def Expression.isReference : Expression → Bool
  | .name _ | .member .. | .index .. => true
  | _ => false

/-- The word by which messages name the statement. -/
def Statement.kind : Statement → String
  | .block .. => "block"
  | .expression .. => "expression"
  | .declaration .. => "var"
  | .ifElse .. => "if"
  | .whileLoop .. => "while"
  | .doWhile .. => "do-while"
  | .forLoop .. => "for"
  | .empty => "empty"
  | .forIn .. => "for-in"
  | .ret .. => "return"
  | .breakTo .. => "break"
  | .continueTo .. => "continue"
  | .throw .. => "throw"
  | .tryCatch .. => "try"
  | .switch .. => "switch"
  | .withObject .. => "with"
  | .labeled .. => "labeled"
  | .function .. => "function"

end StackScript
