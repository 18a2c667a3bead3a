import StackScript.Proofs.Segment.Operands

/-!
# The names in an expression

Each name that an expression mentions outside of function literals is added to the pool once, when
the code that needs it is emitted, and one instruction refers to it. So the places of the names, in
the order of the instructions, are consecutive, and the texts there are the names of the expression
in the order in which it is evaluated.
-/

namespace StackScript

mutual

/-- The names in an expression, in the order in which they are looked at. The value of an assignment
    to what cannot be assigned to is never looked at, and the names in a function are looked at when
    it is called. -/
def Expression.names : Expression → List String
  | .literal _ | .thisValue | .function .. => []
  | .name text => [text]
  | .array elements => namesOfElements elements
  | .object properties => namesOfProperties properties
  | .member object name => object.names ++ [name]
  | .index object key => object.names ++ key.names
  | .call callee arguments
  | .construct callee arguments => callee.names ++ namesOfExpressions arguments
  | .unary _ argument | .update _ argument _ => argument.names
  | .binary _ left right | .logical _ left right => left.names ++ right.names
  | .assignment _ target value => target.names ++ if target.isReference then value.names else []
  | .conditional test consequent alternate => test.names ++ (consequent.names ++ alternate.names)
  | .sequence expressions => namesOfExpressions expressions

/-- The names in each of the expressions. -/
def namesOfExpressions : List Expression → List String
  | [] => []
  | value :: rest => value.names ++ namesOfExpressions rest

/-- The names in each element of an array literal. -/
def namesOfElements : List (Option Expression) → List String
  | [] => []
  | some value :: rest => value.names ++ namesOfElements rest
  | none :: rest => namesOfElements rest

/-- The key of a property is looked at after its value. -/
def namesOfProperties : List (Property Expression) → List String
  | [] => []
  | ⟨key, value⟩ :: rest => value.names ++ key.text :: namesOfProperties rest

end

namespace Segment

/-- The segment adds the given names, and its instructions refer to them one after the other. -/
structure Refers (s : Segment) (texts : List String) : Prop where
  names : s.names = texts
  handles : ∀ o n, (s.place o n).flatMap Instruction.handles = List.range' n texts.length

section Refers

variable {a b : Segment} {texts texts' : List String}

theorem refers_plain {i : Instruction} {fixed : i.isFixed = true} (nameless : i.handles = []) :
    (plain i fixed).Refers [] where
  names := rfl
  handles o n := by simp [place, nameless]

theorem refers_named {op : Op} (text : String) {extra : Option Operand} {goesOn : op.goesOn = true}
    (nameless : extra.bind Operand.handle? = none) :
    (named op text extra goesOn).Refers [text] where
  names := rfl
  handles o n := by simp [place, Instruction.handles, nameless, Operand.handle?]

theorem refers_nothing : nothing.Refers [] :=
  ⟨rfl, fun _ _ => rfl⟩

theorem Refers.seq (first : a.Refers texts) (second : b.Refers texts') :
    (a.seq b).Refers (texts ++ texts') where
  names := by rw [Segment.names, first.names, second.names]
  handles o n := by
    rw [place, List.flatMap_append, first.handles, second.handles, first.names, List.length_append,
      List.range'_append_1]

/-- An operation without a name, behind a part. -/
theorem Refers.closed (first : a.Refers texts) (second : b.Refers []) : (a.seq b).Refers texts := by
  have whole := first.seq second
  rw [List.append_nil] at whole
  exact whole

theorem Refers.skip (operator : LogicalOperator) (body : a.Refers texts) :
    (skip operator a).Refers texts where
  names := body.names
  handles o n := by
    rw [place, List.flatMap_cons, body.handles]
    rfl

theorem Refers.branch (keeps : Bool) (consequent : a.Refers texts) (alternate : b.Refers texts') :
    (branch keeps a b).Refers (texts ++ texts') where
  names := by rw [Segment.names, consequent.names, alternate.names]
  handles o n := by
    have jumps (op : Op) (t : Nat) : (Instruction.jumpTo op t).handles = [] := rfl
    rw [place, List.flatMap_append, List.flatMap_cons, List.flatMap_cons, jumps, jumps,
      consequent.handles, alternate.handles, consequent.names, List.length_append, List.nil_append,
      List.nil_append, List.range'_append_1]

end Refers

end Segment

open Segment

theorem Literal.refers (value : Literal) : value.segment.Refers [] := by
  cases value with
  | boolean b => cases b <;> exact refers_plain rfl
  | _ => exact refers_plain rfl

mutual

/-- The code of an expression adds its names, in the order in which they are looked at, and refers
    to each once. -/
theorem Expression.refers : (e : Expression) → e.segment.Refers e.names
  | .literal value => value.refers
  | .name text => refers_named text rfl
  | .thisValue => refers_plain rfl
  | .function .. => refers_plain rfl
  | .array elements => (elements_refer elements).closed (refers_plain rfl)
  | .object properties => (refers_plain rfl).seq (properties_refer properties)
  | .member object name => object.refers.seq (refers_named name rfl)
  | .index object key => object.refers.seq (key.refers.closed (refers_plain rfl))
  | .call callee arguments | .construct callee arguments => by
    rw [Expression.segment, Expression.names]
    split
    · rename_i place
      exact (callee.reference_refers false place).seq
        ((expressions_refer arguments).closed (refers_plain rfl))
    · exact callee.refers.seq ((expressions_refer arguments).closed (refers_plain rfl))
  | .unary .minus argument | .unary .plus argument | .unary .not argument | .unary .bitNot argument
  | .unary .void argument => argument.refers.closed (refers_plain rfl)
  | .unary .delete argument | .unary .typeof argument | .update _ argument _ => by
    rw [Expression.segment, Expression.names]
    split
    · rename_i place
      exact (argument.reference_refers false place).closed (refers_plain rfl)
    · exact argument.refers.closed (refers_plain rfl)
  | .binary operator left right => left.refers.seq (right.refers.closed (refers_plain rfl))
  | .logical operator left right => left.refers.seq (right.refers.skip operator)
  | .assignment operator target value => by
    rw [Expression.segment, Expression.names]
    split
    · rename_i place
      apply (target.reference_refers true place).seq
      split
      · exact value.refers.closed (refers_plain rfl)
      · exact (refers_plain rfl).seq
          (value.refers.closed ((refers_plain rfl).closed (refers_plain rfl)))
    · exact target.refers.seq (refers_plain rfl)
  | .conditional test consequent alternate =>
    test.refers.seq (consequent.refers.branch true ((refers_plain rfl).seq alternate.refers))
  | .sequence expressions => sequence_refers expressions

theorem Expression.reference_refers : (e : Expression) → (create : Bool) → e.isReference = true →
    (e.referenceSegment create).Refers e.names
  | .name text, _, _ => refers_named text rfl
  | .member object name, _, _ =>
    object.refers.seq ((refers_named name rfl).closed (refers_plain rfl))
  | .index object key, _, _ => object.refers.seq (key.refers.closed (refers_plain rfl))

theorem expressions_refer : (list : List Expression) →
    (expressionsSegment list).Refers (namesOfExpressions list)
  | [] => refers_nothing
  | value :: rest => value.refers.seq (expressions_refer rest)

theorem sequence_refers : (list : List Expression) →
    (sequenceSegment list).Refers (namesOfExpressions list)
  | [] => refers_plain rfl
  | [value] => by
    rw [sequenceSegment, namesOfExpressions, namesOfExpressions, List.append_nil]
    exact value.refers
  | value :: next :: rest =>
    value.refers.seq ((refers_plain rfl).seq (sequence_refers (next :: rest)))

theorem elements_refer : (list : List (Option Expression)) →
    (elementsSegment list).Refers (namesOfElements list)
  | [] => refers_nothing
  | some value :: rest => value.refers.seq (elements_refer rest)
  | none :: rest => (refers_plain rfl).seq (elements_refer rest)

theorem properties_refer : (list : List (Property Expression)) →
    (propertiesSegment list).Refers (namesOfProperties list)
  | [] => refers_nothing
  | ⟨key, value⟩ :: rest =>
    value.refers.seq ((refers_named key.text rfl).seq (properties_refer rest))

end

end StackScript
