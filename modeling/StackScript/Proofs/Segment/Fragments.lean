import StackScript.Proofs.Segment.Regions

/-!
# The parts of a tree in its code

The code of a tree is made of the code of its parts, in one piece each, and of single instructions
between them. What has no code of its own is no part: the body of a function, a loop that is left to
the tree walker, the value of an assignment to what is no reference.
-/

namespace StackScript

/-- A tree with code of its own. -/
inductive Fragment where
  | value (e : Expression)
  /-- The place that a reference stands for. -/
  | place (e : Expression) (create : Bool)
  | statement (s : Statement)

namespace Fragment

/-- The code of the tree. -/
def segment : Fragment → Segment
  | .value e => e.segment
  | .place e create => e.referenceSegment create
  | .statement s => s.segment

/-- The number of instructions. -/
def size (f : Fragment) : Nat :=
  f.segment.size

/-- What code is made of. -/
inductive Item where
  /-- A single instruction. -/
  | own
  | tree (f : Fragment)

/-- The number of instructions. -/
def Item.size : Item → Nat
  | .own => 1
  | .tree f => f.size

/-- The operand of what works on a place if there is one. -/
def ofOperand (e : Expression) : Fragment :=
  if e.isReference then .place e false else .value e

/-- Trees one after the other, of which only the last leaves its value. -/
def inTurn : List Fragment → List Item
  | [] => [.own]
  | [f] => [.tree f]
  | f :: next :: rest => .tree f :: .own :: inTurn (next :: rest)

/-- An element of an array literal; a hole is one instruction. -/
def ofElement : Option Expression → Item
  | none => .own
  | some e => .tree (.value e)

/-- The values of an object literal, each set behind its code. -/
def ofProperties : List (Property Expression) → List Item
  | [] => []
  | ⟨_, e⟩ :: rest => .tree (.value e) :: .own :: ofProperties rest

/-- The initial values of declared names, each stored behind its code. -/
def ofDeclarators : List (Declarator Expression) → List Item
  | [] => [.own]
  | ⟨_, none⟩ :: rest => ofDeclarators rest
  | ⟨_, some e⟩ :: rest => .tree (.value e) :: .own :: ofDeclarators rest

/-- What begins a `for`. -/
def ofHead : LoopHead Expression → List Item
  | .declaration declarators => ofDeclarators declarators
  | .expression e => [.tree (.value e)]

/-- A part whose value is dropped, if it is there. -/
def dropped : Option (List Item) → List Item
  | none => []
  | some items => items ++ [.own]

/-- What the code of an expression is made of. -/
def ofExpression : Expression → List Item
  | .literal _ | .name _ | .thisValue | .function .. => [.own]
  | .array elements => elements.map ofElement ++ [.own]
  | .object properties => .own :: ofProperties properties
  | .member object _ => [.tree (.value object), .own]
  | .index object key => [.tree (.value object), .tree (.value key), .own]
  | .call callee arguments | .construct callee arguments =>
    .tree (ofOperand callee) :: (arguments.map fun e => .tree (.value e)) ++ [.own]
  | .unary .delete argument | .unary .typeof argument
  | .update _ argument _ => [.tree (ofOperand argument), .own]
  | .unary _ argument => [.tree (.value argument), .own]
  | .binary _ left right => [.tree (.value left), .tree (.value right), .own]
  | .logical _ left right => [.tree (.value left), .own, .tree (.value right)]
  | .assignment operator target e =>
    if target.isReference then
      .tree (.place target true) ::
        match operator.binary? with
        | none => [.tree (.value e), .own]
        | some _ => [.own, .tree (.value e), .own, .own]
    else [.tree (.value target), .own]
  | .conditional test consequent alternate =>
    [.tree (.value test), .own, .tree (.value consequent), .own, .own, .tree (.value alternate)]
  | .sequence expressions => inTurn (expressions.map .value)

/-- What the code for a place is made of. -/
def ofPlace : Expression → List Item
  | .name _ => [.own]
  | .member object _ => [.tree (.value object), .own, .own]
  | .index object key => [.tree (.value object), .tree (.value key), .own]
  | _ => []

/-- What the code of a statement is made of. What is handed over is one instruction. -/
def ofStatement : Statement → List Item
  | .block body => inTurn (body.map .statement)
  | .expression e => [.tree (.value e)]
  | .declaration declarators => ofDeclarators declarators
  | .ifElse test consequent alternate =>
    [.tree (.value test), .own, .tree (.statement consequent), .own,
      match alternate with
      | some s => .tree (.statement s)
      | none => .own]
  | .whileLoop test body =>
    if body.needsWalker then [.own]
    else [.own, .tree (.value test), .own, .own, .tree (.statement body), .own]
  | .doWhile body test =>
    if body.needsWalker then [.own]
    else [.tree (.statement body), .tree (.value test), .own, .own, .own]
  | .forLoop init test update body =>
    if body.needsWalker then [.own]
    else
      let round :=
        .own :: .tree (.statement body) :: dropped (update.map fun e => [.tree (.value e)])
      dropped (init.map ofHead) ++ .own ::
        match test with
        | some e => .tree (.value e) :: .own :: round ++ [.own]
        | none => round ++ [.own]
  | _ => [.own]

/-- What the code of a tree is made of. -/
def items : Fragment → List Item
  | .value e => ofExpression e
  | .place e _ => ofPlace e
  | .statement s => ofStatement s

/-- Among the items there is a tree, and before it are those many instructions. -/
inductive Holds (g : Fragment) : List Item → Nat → Prop
  | here {rest : List Item} : Holds g (.tree g :: rest) 0
  | later {item : Item} {rest : List Item} {k : Nat} : Holds g rest k →
      Holds g (item :: rest) (item.size + k)

/-- A tree occurs in another, and its code begins those many instructions into the code of the
    other. -/
inductive Contains (whole : Fragment) : Fragment → Nat → Prop
  | refl : Contains whole whole 0
  | inside {f g : Fragment} {q k : Nat} : Contains whole f q → Holds g f.items k →
      Contains whole g (q + k)

/-! ## Layouts -/

/-- The number of instructions of the items. -/
def width : List Item → Nat
  | [] => 0
  | item :: rest => item.size + width rest

theorem width_append (xs ys : List Item) : width (xs ++ ys) = width xs + width ys := by
  induction xs with
  | nil => exact (Nat.zero_add _).symm
  | cons item xs ih => rw [List.cons_append, width, width, ih, Nat.add_assoc]

/-- A tree is among the first items, or among the others behind them. -/
theorem holds_append {g : Fragment} {xs ys : List Item} {k : Nat} (h : Holds g (xs ++ ys) k) :
    Holds g xs k ∨ ∃ m, Holds g ys m ∧ k = width xs + m := by
  induction xs generalizing k with
  | nil => exact .inr ⟨k, h, (Nat.zero_add k).symm⟩
  | cons item xs ih =>
    cases h with
    | here => exact .inl .here
    | later h =>
      rcases ih h with first | ⟨m, second, rfl⟩
      · exact .inl (.later first)
      · exact .inr ⟨m, second, (Nat.add_assoc ..).symm⟩

/-- The segment is made of these items, in this order. -/
inductive Lays : Segment → List Item → Prop
  | tree (f : Fragment) : Lays f.segment [.tree f]
  | plain {i : Instruction} {fixed : i.isFixed = true} : Lays (.plain i fixed) [.own]
  | named {op : Op} {text : String} {extra : Option Operand} {goesOn : op.goesOn = true} :
      Lays (.named op text extra goesOn) [.own]
  | unused {texts : List String} : Lays (.unused texts) []
  | seq {a b : Segment} {xs ys : List Item} : Lays a xs → Lays b ys → Lays (a.seq b) (xs ++ ys)
  | skip {operator : LogicalOperator} {a : Segment} {xs : List Item} : Lays a xs →
      Lays (.skip operator a) (.own :: xs)
  | branch {keeps : Bool} {a b : Segment} {xs ys : List Item} :
      Lays a xs → Lays b ys → Lays (.branch keeps a b) (.own :: (xs ++ .own :: ys))
  | cycle {a b : Segment} {xs ys : List Item} : Lays a xs → Lays b ys →
      Lays (.cycle a b) (xs ++ .own :: (ys ++ [.own]))
  | forever {a : Segment} {xs : List Item} : Lays a xs → Lays (.forever a) (xs ++ [.own])

/-- A segment is as long as its items. -/
theorem Lays.size_eq {s : Segment} {items : List Item} (h : Lays s items) :
    s.size = width items := by
  induction h with
  | tree f => rfl
  | plain => rfl
  | named => rfl
  | unused => rfl
  | seq _ _ ih₁ ih₂ => rw [Segment.size, width_append, ih₁, ih₂]
  | skip _ ih => rw [Segment.size, width, ih, Item.size, Nat.add_comm]
  | branch _ _ ih₁ ih₂ =>
    simp only [Segment.size, width, width_append, Item.size, ih₁, ih₂]
    omega
  | cycle _ _ ih₁ ih₂ =>
    simp only [Segment.size, width, width_append, Item.size, ih₁, ih₂]
    omega
  | forever _ ih => simp only [Segment.size, width, width_append, Item.size, ih]

open Segment in
/-- A tree among the items is a region of the segment. -/
theorem Lays.encloses {s : Segment} {items : List Item} (h : Lays s items) {g : Fragment} {k : Nat}
    (holds : Holds g items k) : s.Encloses k g.segment := by
  induction h generalizing k with
  | tree f =>
    cases holds with
    | here => exact .refl _
    | later none => cases none
  | plain =>
    cases holds with
    | later none => cases none
  | named =>
    cases holds with
    | later none => cases none
  | unused => cases holds
  | seq first _ ih₁ ih₂ =>
    rcases holds_append holds with inner | ⟨m, inner, rfl⟩
    · exact (ih₁ inner).first
    · rw [← first.size_eq]
      exact (ih₂ inner).second
  | skip _ ih =>
    cases holds with
    | later inner => exact (ih inner).skipped
  | branch first _ ih₁ ih₂ =>
    cases holds with
    | later behind =>
      rcases holds_append behind with inner | ⟨m, last, rfl⟩
      · exact (ih₁ inner).consequent
      · cases last with
        | later inner =>
          rw [← first.size_eq, ← Nat.add_assoc, ← Nat.add_assoc]
          exact (ih₂ inner).alternate
  | cycle first _ ih₁ ih₂ =>
    rcases holds_append holds with inner | ⟨m, behind, rfl⟩
    · exact (ih₁ inner).test
    · cases behind with
      | later middle =>
        rcases holds_append middle with inner | ⟨m, last, rfl⟩
        · rw [← first.size_eq, ← Nat.add_assoc]
          exact (ih₂ inner).body
        · cases last with
          | later none => cases none
  | forever _ ih =>
    rcases holds_append holds with inner | ⟨m, last, rfl⟩
    · exact (ih inner).round
    · cases last with
      | later none => cases none

/-! ## The layout of each tree -/

theorem lays_value (e : Expression) : Lays e.segment [.tree (.value e)] :=
  .tree (.value e)

theorem lays_statement (s : Statement) : Lays s.segment [.tree (.statement s)] :=
  .tree (.statement s)

theorem lays_place (e : Expression) (create : Bool) :
    Lays (e.referenceSegment create) [.tree (.place e create)] :=
  .tree (.place e create)

theorem lays_elements (elements : List (Option Expression)) :
    Lays (elementsSegment elements) (elements.map ofElement) := by
  induction elements with
  | nil =>
    rw [elementsSegment]
    exact .unused
  | cons element rest ih =>
    cases element with
    | none =>
      rw [elementsSegment]
      exact .seq .plain ih
    | some e =>
      rw [elementsSegment]
      exact .seq (lays_value e) ih

theorem lays_properties (properties : List (Property Expression)) :
    Lays (propertiesSegment properties) (ofProperties properties) := by
  induction properties with
  | nil =>
    rw [propertiesSegment]
    exact .unused
  | cons property rest ih =>
    rw [propertiesSegment]
    exact .seq (lays_value property.value) (.seq .named ih)

theorem lays_expressions (expressions : List Expression) :
    Lays (expressionsSegment expressions) (expressions.map fun e => .tree (.value e)) := by
  induction expressions with
  | nil =>
    rw [expressionsSegment]
    exact .unused
  | cons e rest ih =>
    rw [expressionsSegment]
    exact .seq (lays_value e) ih

/-- The expressions of a sequence, with what drops the values between them. -/
theorem lays_sequence (expressions : List Expression) :
    Lays (sequenceSegment expressions) (inTurn (expressions.map .value)) := by
  induction expressions with
  | nil =>
    rw [sequenceSegment]
    exact .plain
  | cons e rest ih =>
    cases rest with
    | nil =>
      rw [sequenceSegment]
      exact lays_value e
    | cons next rest =>
      rw [sequenceSegment]
      exact .seq (lays_value e) (.seq .plain ih)

/-- The statements of a block, with what drops the values between them. -/
theorem lays_block (body : List Statement) :
    Lays (blockSegment body) (inTurn (body.map .statement)) := by
  induction body with
  | nil =>
    rw [blockSegment]
    exact .plain
  | cons s rest ih =>
    cases rest with
    | nil =>
      rw [blockSegment]
      exact lays_statement s
    | cons next rest =>
      rw [blockSegment]
      exact .seq (lays_statement s) (.seq .plain ih)

theorem lays_declarators (declarators : List (Declarator Expression)) :
    Lays (declaratorsSegment declarators) (ofDeclarators declarators) := by
  induction declarators with
  | nil => exact .plain
  | cons declarator rest ih =>
    obtain ⟨name, init⟩ := declarator
    cases init with
    | none => exact ih
    | some e => exact .seq (lays_value e) (.seq .named ih)

theorem lays_head (head : LoopHead Expression) : Lays head.segment (ofHead head) := by
  cases head with
  | declaration declarators => exact lays_declarators declarators
  | expression e => exact lays_value e

/-- A part of a loop that need not be there. -/
theorem lays_dropped {α : Type} {segment : α → Segment} {items : α → List Item}
    (h : ∀ a, Lays (segment a) (items a))
    (part : Option α) : Lays (droppedSegment (part.map segment)) (dropped (part.map items)) := by
  cases part with
  | none => exact .unused
  | some a => exact .seq (h a) .plain

theorem lays_alternate (alternate : Option Statement) :
    Lays (alternateSegment alternate) [match alternate with
      | some s => .tree (.statement s)
      | none => .own] := by
  cases alternate with
  | none =>
    rw [alternateSegment]
    exact .plain
  | some s =>
    rw [alternateSegment]
    exact lays_statement s

theorem lays_literal (value : Literal) : Lays value.segment [.own] := by
  cases value with
  | boolean b => cases b <;> exact .plain
  | _ => exact .plain

/-- An operand that is taken as a place if it is a reference, before the rest of the code. -/
theorem lays_operand (e : Expression) {a b : Segment} {xs : List Item} (ha : Lays a xs)
    (hb : Lays b xs) :
    Lays (if e.isReference then (e.referenceSegment false).seq a else e.segment.seq b)
      (.tree (ofOperand e) :: xs) := by
  unfold ofOperand
  split
  · exact .seq (lays_place e false) ha
  · exact .seq (lays_value e) hb

/-- The items of each kind of expression. -/
theorem lays_expression (e : Expression) : Lays e.segment (ofExpression e) := by
  cases e with
  | literal value =>
    rw [Expression.segment]
    exact lays_literal value
  | name text =>
    rw [Expression.segment]
    exact .named
  | thisValue =>
    rw [Expression.segment]
    exact .plain
  | function name params body =>
    rw [Expression.segment]
    exact .plain
  | array elements =>
    rw [Expression.segment]
    exact .seq (lays_elements elements) .plain
  | object properties =>
    rw [Expression.segment]
    exact .seq .plain (lays_properties properties)
  | member object name =>
    rw [Expression.segment]
    exact .seq (lays_value object) .named
  | index object key =>
    rw [Expression.segment]
    exact .seq (lays_value object) (.seq (lays_value key) .plain)
  | call callee arguments | construct callee arguments =>
    rw [Expression.segment]
    exact lays_operand callee (.seq (lays_expressions arguments) .plain)
      (.seq (lays_expressions arguments) .plain)
  | unary operator argument =>
    cases operator with
    | delete | typeof =>
      rw [Expression.segment]
      exact lays_operand argument .plain .plain
    | _ =>
      rw [Expression.segment]
      · exact .seq (lays_value argument) .plain
      all_goals simp
  | update operator argument before =>
    rw [Expression.segment]
    exact lays_operand argument .plain .plain
  | binary operator left right =>
    rw [Expression.segment]
    exact .seq (lays_value left) (.seq (lays_value right) .plain)
  | logical operator left right =>
    rw [Expression.segment]
    exact .seq (lays_value left) (.skip (lays_value right))
  | assignment operator target e =>
    rw [Expression.segment, ofExpression]
    split
    · apply Lays.seq (lays_place target true)
      cases operator.binary? with
      | none => exact .seq (lays_value e) .plain
      | some binary => exact .seq .plain (.seq (lays_value e) (.seq .plain .plain))
    · exact .seq (lays_value target) .plain
  | conditional test consequent alternate =>
    rw [Expression.segment]
    exact .seq (lays_value test)
      (.branch (lays_value consequent) (.seq .plain (lays_value alternate)))
  | sequence expressions =>
    rw [Expression.segment]
    exact lays_sequence expressions

/-- The items of each kind of place. -/
theorem lays_reference (e : Expression) (create : Bool) :
    Lays (e.referenceSegment create) (ofPlace e) := by
  cases e with
  | name text =>
    rw [Expression.referenceSegment]
    exact .named
  | member object name =>
    rw [Expression.referenceSegment]
    exact .seq (lays_value object) (.seq .named .plain)
  | index object key =>
    rw [Expression.referenceSegment]
    exact .seq (lays_value object) (.seq (lays_value key) .plain)
  | _ =>
    rw [Expression.referenceSegment]
    · exact .unused
    all_goals simp

/-- A loop that is handed over is one instruction. -/
theorem lays_loop (s : Statement) (texts : List String) :
    Lays ((Segment.unused texts).seq (.escape s)) [.own] :=
  .seq .unused .plain

/-- The items of each kind of statement. -/
theorem lays_tree (s : Statement) : Lays s.segment (ofStatement s) := by
  cases s with
  | block body =>
    rw [Statement.segment]
    exact lays_block body
  | expression e =>
    rw [Statement.segment]
    exact lays_value e
  | declaration declarators =>
    rw [Statement.segment]
    exact lays_declarators declarators
  | ifElse test consequent alternate =>
    rw [Statement.segment]
    exact .seq (lays_value test) (.branch (lays_statement consequent) (lays_alternate alternate))
  | whileLoop test body =>
    rw [Statement.segment, ofStatement]
    split
    · exact lays_loop _ _
    · exact .seq .plain (.cycle (lays_value test) (.seq .plain (lays_statement body)))
  | doWhile body test =>
    rw [Statement.segment, ofStatement]
    split
    · exact lays_loop _ _
    · exact .cycle (.seq (lays_statement body) (lays_value test)) .plain
  | forLoop init test update body =>
    rw [Statement.segment, ofStatement]
    split
    · exact lays_loop _ _
    · have round := Lays.seq (lays_statement body) (lays_dropped lays_value update)
      apply Lays.seq (lays_dropped lays_head init)
      cases test with
      | none => exact .seq .plain (.forever (.seq .plain round))
      | some e => exact .seq .plain (.cycle (lays_value e) (.seq .plain round))
  | empty =>
    rw [Statement.segment]
    exact .plain
  | _ =>
    rw [Statement.segment_of_isForeign rfl]
    exact .plain

/-- The code of a tree is made of its items. -/
theorem lays_items (f : Fragment) : Lays f.segment f.items := by
  cases f with
  | value e => exact lays_expression e
  | place e create => exact lays_reference e create
  | statement s => exact lays_tree s

/-- A tree that occurs in another is a region of its code. -/
theorem Contains.encloses {whole g : Fragment} {q : Nat} (h : whole.Contains g q) :
    whole.segment.Encloses q g.segment := by
  induction h with
  | refl => exact .refl _
  | inside _ holds ih => exact ih.trans ((lays_items _).encloses holds)

end Fragment

end StackScript
