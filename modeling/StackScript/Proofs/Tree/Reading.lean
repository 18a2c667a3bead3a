import StackScript.Proofs.Tree.Spellings
import StackScript.Tree.Reader

/-!
# Reading trees back

The readers of trees understand every spelling of every tree whose numbers are read back from their
text, whatever the height of the tree. A reader for trees up to some height is enough for values
that are not nested deeper than that, since each level of a tree is a variant and a variant with
data opens an object.
-/

namespace StackScript.Reader

open Number (ReadsBack)

section

variable {α : Type} {n : Nat} {read : Nat → Reader α} {spelling : Spelling} {a : α}

/-- The reader for each height understands what is not nested as deep. -/
def ReadsAt (read : Nat → Reader α) (spelling : Spelling) (a : α) : Prop :=
  ∀ n, Reads n (read n) spelling a

/-- There is nothing to understand below a nesting of zero. -/
theorem readsAt_of_succ (h : ∀ n, Reads (n + 1) (read (n + 1)) spelling a) : ReadsAt read spelling a
  | 0 => ⟨(h 0).sound, fun _ _ _ small => absurd small (Nat.not_lt_zero _)⟩
  | n + 1 => h n

/-- The depth of a value is enough height for it. -/
theorem ReadsAt.bounded (h : ReadsAt read spelling a) : Reads n (bounded read) spelling a where
  sound := (h 0).sound
  understands value d spelled _ :=
    (h (value.depth + 1)).understands value d spelled
      (Nat.lt_succ_of_le ((h 0).sound _ _ spelled).2)

/-- Each item by the reader for one height. -/
theorem reads_each {items : List Spelling} {as : List α}
    (each : List.Forall₂ (ReadsAt read) items as) :
    List.Forall₂ (Reads n (read n)) items as :=
  each.imp fun _ _ h => h n

end

/-! ## Small parts -/

section

variable {n : Nat}

/-- A name is read from its record. -/
theorem reads_identifier (name : String) : Reads n identifier (.identifier name) name :=
  Fits.map (.field (reads_string name) .nil) (by simp) rfl

theorem reads_identifier? : (name : Option String) →
    Reads n (optional identifier) (.identifier? name) name
  | none => reads_optional_none identifier
  | some name => (reads_identifier name).optional ((refusesNull_record _).map _)

theorem reads_identifiers (names : List String) :
    Reads n (list identifier) (.identifiers names) names := by
  refine reads_list ?_
  induction names with
  | nil => exact .nil
  | cons name names ih => exact .cons (reads_identifier name) ih

/-- A literal is read, a number among them if it is read back. -/
theorem reads_literal {l : Literal} (h : EachNumber.literal ReadsBack l) :
    Reads n literal (.literal l) l := by
  refine Reads.mono ?_ (Nat.le_succ n)
  cases l with
  | number value => exact ((reads_number h).map Literal.number).tagged rfl
  | string text => exact ((reads_string text).map Literal.string).tagged rfl
  | regExp pattern flags =>
    exact Fits.variant (.field (reads_string pattern) <|
      .field (reads_string flags) .nil) (by simp) rfl rfl
  | boolean value => exact ((reads_bool value).map Literal.boolean).tagged rfl
  | null => exact reads_bare rfl
  | undefined => exact reads_bare rfl

/-- The key of a property is read. -/
theorem reads_propertyKey {key : PropertyKey} (h : EachNumber.propertyKey ReadsBack key) :
    Reads n propertyKey (.propertyKey key) key := by
  refine Reads.mono ?_ (Nat.le_succ n)
  cases key with
  | name text => exact ((reads_identifier text).map PropertyKey.name).tagged rfl
  | string text => exact ((reads_string text).map PropertyKey.string).tagged rfl
  | number value => exact ((reads_number h).map PropertyKey.number).tagged rfl

/-- An operator is a variant without data. -/
theorem reads_operator {α : Type} {find : String → Option α} {name : String} {operator : α}
    (found : find name = some operator) : Reads n (names find) (.Bare name) operator :=
  reads_bare (by rw [found]; rfl)

end

/-! ## Parts with trees in them -/

section

variable {ε σ : Type} {n : Nat} {value : Reader ε} {statement : Reader σ} {spelling : Spelling}

/-- A property is read when its value is. -/
theorem reads_property {a : ε} {key : PropertyKey} (named : EachNumber.propertyKey ReadsBack key)
    (h : Reads n value spelling a) :
    Reads n (property value) (.Record [Spelling.field "key" (.propertyKey key),
      Spelling.field "value" spelling]) ⟨key, a⟩ :=
  Fits.map (.field (reads_propertyKey named) <| .field h .nil) (by simp) rfl

theorem reads_memberName (name : String) :
    Reads n (memberKey value) (.Tagged "Identifier" (.identifier name)) (.inl name) :=
  (((reads_identifier name).map Sum.inl).tagged rfl).mono (Nat.le_succ n)

theorem reads_memberIndex {a : ε} (h : Reads n value spelling a) :
    Reads n (memberKey value) (.Tagged "Expression" spelling) (.inr a) :=
  ((h.map Sum.inr).tagged rfl).mono (Nat.le_succ n)

/-- A declared name is read when its initial value is. -/
theorem reads_declarator {init : Option ε} (name : String)
    (h : Reads n (optional value) spelling init) :
    Reads n (declarator value) (.Record [Spelling.field "id" (.identifier name),
      Spelling.optionalField "init" spelling])
      ⟨name, init⟩ :=
  Fits.map (.field (reads_identifier name) <| .optionalField h .nil) (by simp) rfl

theorem reads_declarators {items : List Spelling} {ds : List (Declarator ε)}
    (each : List.Forall₂ (Reads n (declarator value)) items ds) :
    Reads n (declarators value) (.Record [Spelling.field "declarations" (.array items)]) ds :=
  Fits.map (.field (reads_list each) .nil) (by simp) rfl

/-- A block is read when its statements are. -/
theorem reads_block {items : List Spelling} {body : List σ}
    (each : List.Forall₂ (Reads n statement) items body) :
    Reads n (block statement) (.Record [Spelling.field "body" (.array items)]) body :=
  Fits.map (.field (reads_list each) .nil) (by simp) rfl

theorem reads_clause {test : Option ε} {items : List Spelling} {body : List σ}
    (h : Reads n (optional value) spelling test)
    (each : List.Forall₂ (Reads n statement) items body) :
    Reads n (clause value statement)
      (.Record [Spelling.optionalField "test" spelling, Spelling.field "consequent" (.array items)])
        ⟨test, body⟩ :=
  Fits.map (.optionalField h <| .field (reads_list each) .nil) (by simp) rfl

theorem reads_handler (param : String) {items : List Spelling} {body : List σ}
    (each : List.Forall₂ (Reads n statement) items body) :
    Reads n (handler statement)
      (.Record [Spelling.field "param" (.identifier param),
        Spelling.field "body" (.Record [Spelling.field "body" (.array items)])])
      ⟨param, body⟩ :=
  Fits.map (.field (reads_identifier param) <| .field (reads_block each) .nil) (by simp) rfl

end

/-- Null is no expression, so that a missing one can be told from one that is there. -/
theorem refusesNull_expression : (height : Nat) → RefusesNull (expression height)
  | 0 => fun _ => rfl
  | _ + 1 => refusesNull_variant _

/-- Null is no statement. -/
theorem refusesNull_statement : (height : Nat) → RefusesNull (statement height)
  | 0 => fun _ => rfl
  | _ + 1 => refusesNull_variant _

/-! ## Trees -/

mutual

/-- Each kind of expression is a variant, and its parts are read by the reader for the next lower
    height. -/
theorem readsAt_expression : (e : Expression) → EachNumber.expression ReadsBack e →
    ReadsAt expression (.expression e) e
  | .literal value, h => readsAt_of_succ fun n =>
    ((reads_literal h).map Expression.literal).tagged rfl
  | .name text, _ => readsAt_of_succ fun n =>
    ((reads_identifier text).map Expression.name).tagged rfl
  | .thisValue, _ => readsAt_of_succ fun n => reads_bare rfl
  | .function name params body, h => readsAt_of_succ fun n =>
    Fits.variant (.optionalField (reads_identifier? name) <| .field (reads_identifiers params) <|
      .field (reads_list (reads_each (readsAt_statements body h))) .nil) (by simp) rfl rfl
  | .array elems, h => readsAt_of_succ fun n =>
    Fits.variant (.field (reads_list (reads_elements elems h n)) .nil) (by simp) rfl rfl
  | .object props, h => readsAt_of_succ fun n =>
    Fits.variant (.field (reads_list (reads_properties props h n)) .nil) (by simp) rfl rfl
  | .member object name, h => readsAt_of_succ fun n =>
    Fits.variant (.field (readsAt_expression object h n) <|
      .field (reads_memberName name) .nil) (by simp) rfl rfl
  | .index object key, h => readsAt_of_succ fun n =>
    Fits.variant (.field (readsAt_expression object h.1 n) <|
      .field (reads_memberIndex (readsAt_expression key h.2 n)) .nil) (by simp) rfl rfl
  | .call callee arguments, h => readsAt_of_succ fun n =>
    Fits.variant (.field (readsAt_expression callee h.1 n) <|
      .field (reads_list (reads_each (readsAt_expressions arguments h.2))) .nil) (by simp) rfl rfl
  | .construct callee arguments, h => readsAt_of_succ fun n =>
    Fits.variant (.field (readsAt_expression callee h.1 n) <|
      .field (reads_list (reads_each (readsAt_expressions arguments h.2))) .nil) (by simp) rfl rfl
  | .unary operator argument, h => readsAt_of_succ fun n =>
    Fits.variant (.field (reads_operator operator.ofName?_name) <|
      .field (readsAt_expression argument h n) .nil) (by simp) rfl rfl
  | .update operator argument before, h => readsAt_of_succ fun n =>
    Fits.variant (.field (reads_operator operator.ofName?_name) <|
      .field (readsAt_expression argument h n) <| .field (reads_bool before) .nil) (by simp) rfl rfl
  | .binary operator left right, h => readsAt_of_succ fun n =>
    Fits.variant (.field (reads_operator operator.ofName?_name) <|
      .field (readsAt_expression left h.1 n) <|
        .field (readsAt_expression right h.2 n) .nil) (by simp) rfl rfl
  | .logical operator left right, h => readsAt_of_succ fun n =>
    Fits.variant (.field (reads_operator operator.ofName?_name) <|
      .field (readsAt_expression left h.1 n) <|
        .field (readsAt_expression right h.2 n) .nil) (by simp) rfl rfl
  | .assignment operator target value, h => readsAt_of_succ fun n =>
    Fits.variant (.field (reads_operator operator.ofName?_name) <|
      .field (readsAt_expression target h.1 n) <|
        .field (readsAt_expression value h.2 n) .nil) (by simp) rfl rfl
  | .conditional test consequent alternate, h => readsAt_of_succ fun n =>
    Fits.variant (.field (readsAt_expression test h.1 n) <|
      .field (readsAt_expression consequent h.2.1 n) <|
      .field (readsAt_expression alternate h.2.2 n) .nil) (by simp) rfl rfl
  | .sequence items, h => readsAt_of_succ fun n =>
    Fits.variant (.field (reads_list (reads_each (readsAt_expressions items h))) .nil)
      (by simp) rfl rfl

theorem reads_expression? : (e : Option Expression) → EachNumber.expression? ReadsBack e →
    (n : Nat) → Reads n (optional (expression n)) (.expression? e) e
  | none, _, _ => reads_optional_none _
  | some e, h, n => (readsAt_expression e h n).optional (refusesNull_expression n)

theorem readsAt_expressions : (es : List Expression) → EachNumber.expressions ReadsBack es →
    List.Forall₂ (ReadsAt expression) (Spelling.expressions es) es
  | [], _ => .nil
  | e :: es, h => .cons (readsAt_expression e h.1) (readsAt_expressions es h.2)

/-- A hole is read as a missing expression. -/
theorem reads_elements : (es : List (Option Expression)) → EachNumber.elements ReadsBack es →
    (n : Nat) → List.Forall₂ (Reads n (optional (expression n))) (Spelling.elements es) es
  | [], _, _ => .nil
  | some e :: es, h, n =>
    .cons ((readsAt_expression e h.1 n).optional (refusesNull_expression n))
      (reads_elements es h.2 n)
  | none :: es, h, n => .cons (reads_optional_none _) (reads_elements es h n)

theorem reads_properties : (ps : List (Property Expression)) → EachNumber.properties ReadsBack ps →
    (n : Nat) → List.Forall₂ (Reads n (property (expression n))) (Spelling.properties ps) ps
  | [], _, _ => .nil
  | ⟨_, value⟩ :: ps, h, n =>
    .cons (reads_property h.1 (readsAt_expression value h.2.1 n)) (reads_properties ps h.2.2 n)

theorem reads_eachDeclarator : (ds : List (Declarator Expression)) →
    EachNumber.declarators ReadsBack ds →
    (n : Nat) → List.Forall₂ (Reads n (declarator (expression n))) (Spelling.declarators ds) ds
  | [], _, _ => .nil
  | ⟨name, init⟩ :: ds, h, n =>
    .cons (reads_declarator name (reads_expression? init h.1 n)) (reads_eachDeclarator ds h.2 n)

theorem reads_loopHead : (head : LoopHead Expression) → EachNumber.loopHead ReadsBack head →
    (n : Nat) → Reads n (loopHead (expression n)) (.loopHead head) head
  | .declaration ds, h, n =>
    (((reads_declarators (reads_eachDeclarator ds h n)).map LoopHead.declaration).tagged rfl).mono
      (Nat.le_succ n)
  | .expression value, h, n =>
    (((readsAt_expression value h n).map LoopHead.expression).tagged rfl).mono (Nat.le_succ n)

theorem reads_loopHead? : (head : Option (LoopHead Expression)) →
    EachNumber.loopHead? ReadsBack head →
    (n : Nat) → Reads n (optional (loopHead (expression n))) (.loopHead? head) head
  | none, _, _ => reads_optional_none _
  | some head, h, n => (reads_loopHead head h n).optional (refusesNull_variant _)

/-- The same of each kind of statement. -/
theorem readsAt_statement : (s : Statement) → EachNumber.statement ReadsBack s →
    ReadsAt statement (.statement s) s
  | .block body, h => readsAt_of_succ fun n =>
    ((reads_block (reads_each (readsAt_statements body h))).map Statement.block).tagged rfl
  | .expression value, h => readsAt_of_succ fun n =>
    Fits.variant (.field (readsAt_expression value h n) .nil) (by simp) rfl rfl
  | .declaration decls, h => readsAt_of_succ fun n =>
    ((reads_declarators (reads_eachDeclarator decls h n)).map Statement.declaration).tagged rfl
  | .ifElse test consequent alternate, h => readsAt_of_succ fun n =>
    Fits.variant (.field (readsAt_expression test h.1 n) <|
      .field (readsAt_statement consequent h.2.1 n) <|
      .optionalField (reads_statement? alternate h.2.2 n) .nil) (by simp) rfl rfl
  | .whileLoop test body, h => readsAt_of_succ fun n =>
    Fits.variant (.field (readsAt_expression test h.1 n) <|
      .field (readsAt_statement body h.2 n) .nil) (by simp) rfl rfl
  | .doWhile body test, h => readsAt_of_succ fun n =>
    Fits.variant (.field (readsAt_statement body h.1 n) <|
      .field (readsAt_expression test h.2 n) .nil) (by simp) rfl rfl
  | .forLoop init test update body, h => readsAt_of_succ fun n =>
    Fits.variant (.optionalField (reads_loopHead? init h.1 n) <|
      .optionalField (reads_expression? test h.2.1 n) <|
        .optionalField (reads_expression? update h.2.2.1 n) <|
      .field (readsAt_statement body h.2.2.2 n) .nil) (by simp) rfl rfl
  | .empty, _ => readsAt_of_succ fun n => reads_bare rfl
  | .forIn head object body, h => readsAt_of_succ fun n =>
    Fits.variant (.field (reads_loopHead head h.1 n) <|
      .field (readsAt_expression object h.2.1 n) <|
      .field (readsAt_statement body h.2.2 n) .nil) (by simp) rfl rfl
  | .ret value, h => readsAt_of_succ fun n =>
    Fits.variant (.optionalField (reads_expression? value h n) .nil) (by simp) rfl rfl
  | .breakTo label, _ => readsAt_of_succ fun n =>
    ((reads_identifier? label).map Statement.breakTo).tagged rfl
  | .continueTo label, _ => readsAt_of_succ fun n =>
    ((reads_identifier? label).map Statement.continueTo).tagged rfl
  | .throw value, h => readsAt_of_succ fun n =>
    Fits.variant (.field (readsAt_expression value h n) .nil) (by simp) rfl rfl
  | .tryCatch body handler finalizer, h => readsAt_of_succ fun n =>
    Fits.variant (.field (reads_block (reads_each (readsAt_statements body h.1))) <|
      .optionalField (reads_handler? handler h.2.1 n) <|
      .optionalField (reads_block? finalizer h.2.2 n) .nil) (by simp) rfl rfl
  | .switch subject cases, h => readsAt_of_succ fun n =>
    Fits.variant (.field (readsAt_expression subject h.1 n) <|
      .field (reads_list (reads_clauses cases h.2 n)) .nil) (by simp) rfl rfl
  | .withObject object body, h => readsAt_of_succ fun n =>
    Fits.variant (.field (readsAt_expression object h.1 n) <|
      .field (readsAt_statement body h.2 n) .nil) (by simp) rfl rfl
  | .labeled label body, h => readsAt_of_succ fun n =>
    Fits.variant (.field (reads_identifier label) <|
      .field (readsAt_statement body h n) .nil) (by simp) rfl rfl
  | .function name params body, h => readsAt_of_succ fun n =>
    Fits.variant (.field (reads_identifier name) <| .field (reads_identifiers params) <|
      .field (reads_list (reads_each (readsAt_statements body h))) .nil) (by simp) rfl rfl

theorem reads_statement? : (s : Option Statement) → EachNumber.statement? ReadsBack s →
    (n : Nat) → Reads n (optional (statement n)) (.statement? s) s
  | none, _, _ => reads_optional_none _
  | some s, h, n => (readsAt_statement s h n).optional (refusesNull_statement n)

theorem readsAt_statements : (b : List Statement) → EachNumber.statements ReadsBack b →
    List.Forall₂ (ReadsAt statement) (Spelling.statements b) b
  | [], _ => .nil
  | s :: b, h => .cons (readsAt_statement s h.1) (readsAt_statements b h.2)

theorem reads_handler? : (handler : Option (Handler Statement)) →
    EachNumber.handler? ReadsBack handler →
    (n : Nat) → Reads n (optional (Reader.handler (statement n))) (.handler? handler) handler
  | none, _, _ => reads_optional_none _
  | some ⟨param, body⟩, h, _ =>
    (reads_handler param (reads_each (readsAt_statements body h))).optional
      ((refusesNull_record _).map _)

theorem reads_block? : (body : Option (List Statement)) → EachNumber.block? ReadsBack body →
    (n : Nat) → Reads n (optional (block (statement n))) (.block? body) body
  | none, _, _ => reads_optional_none _
  | some body, h, _ =>
    (reads_block (reads_each (readsAt_statements body h))).optional ((refusesNull_record _).map _)

theorem reads_clauses : (cases : List (Clause Expression Statement)) →
    EachNumber.clauses ReadsBack cases →
    (n : Nat) → List.Forall₂ (Reads n (clause (expression n) (statement n)))
    (Spelling.clauses cases) cases
  | [], _, _ => .nil
  | ⟨test, body⟩ :: cases, h, n =>
    .cons (reads_clause (reads_expression? test h.1 n) (reads_each (readsAt_statements body h.2.1)))
      (reads_clauses cases h.2.2 n)

end

/-- The reader of expressions understands each of them, whatever its height. -/
theorem reads_expression {e : Expression} (h : EachNumber.expression ReadsBack e) (n : Nat) :
    Reads n Expression.reader (.expression e) e :=
  (readsAt_expression e h).bounded

/-- The reader of statements understands each of them, whatever its height. -/
theorem reads_statement {s : Statement} (h : EachNumber.statement ReadsBack s) (n : Nat) :
    Reads n Statement.reader (.statement s) s :=
  (readsAt_statement s h).bounded

/-- A program is a record of its statements, which are each read up to their own height. -/
theorem reads_program {p : Program} (h : EachNumber.statements ReadsBack p.body) (n : Nat) :
    Reads n Program.reader (.program p) p :=
  (reads_block ((readsAt_statements p.body h).imp fun _ _ h => h.bounded)).map Program.mk

end StackScript.Reader
