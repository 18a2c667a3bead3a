import StackScript.Proofs.Machine.Control
import StackScript.Proofs.Meaning.Growth
import StackScript.Proofs.Meaning.Literals

/-!
# Expressions without effects

An expression in which nothing is called, constructed, assigned or updated leaves the names, the
native functions and all objects as they are. It may make objects, and it sets properties, but only
of objects that it has made itself: each property that is set belongs to the object of the same
literal. What a function literal does is done when it is called.
-/

namespace StackScript

mutual

/-- Outside of function literals nothing is called, constructed, assigned or updated. -/
def Expression.isEffectFree : Expression → Bool
  | .literal _ | .name _ | .thisValue | .function .. => true
  | .array elements => elementsAreEffectFree elements
  | .object properties => propertiesAreEffectFree properties
  | .member object _ => object.isEffectFree
  | .index object key => object.isEffectFree && key.isEffectFree
  | .unary _ argument => argument.isEffectFree
  | .binary _ left right | .logical _ left right => left.isEffectFree && right.isEffectFree
  | .conditional test consequent alternate =>
    test.isEffectFree && (consequent.isEffectFree && alternate.isEffectFree)
  | .sequence expressions => expressionsAreEffectFree expressions
  | .call .. | .construct .. | .assignment .. | .update .. => false

/-- Each of the expressions is without effect. -/
def expressionsAreEffectFree : List Expression → Bool
  | [] => true
  | value :: rest => value.isEffectFree && expressionsAreEffectFree rest

/-- Each element of an array literal is without effect; a hole is. -/
def elementsAreEffectFree : List (Option Expression) → Bool
  | [] => true
  | some value :: rest => value.isEffectFree && elementsAreEffectFree rest
  | none :: rest => elementsAreEffectFree rest

/-- The value of each property of an object literal is without effect. -/
def propertiesAreEffectFree : List (Property Expression) → Bool
  | [] => true
  | ⟨_, value⟩ :: rest => value.isEffectFree && propertiesAreEffectFree rest

end

/-! ## Machines that agree on what there was -/

namespace Machine

/-- The second machine has the names, the native functions and the calls of the first, and the same
    objects below `n`. It may have more objects. -/
structure Spares (n : Nat) (m m' : Machine) : Prop where
  globals : m'.globals = m.globals
  natives : m'.natives = m.natives
  calls : m'.calls = m.calls
  grown : m.objects.size ≤ m'.objects.size
  objects : ∀ id < n, m'.objects[id]? = m.objects[id]?

variable {n : Nat} {m m' m'' : Machine}

theorem Spares.refl (n : Nat) (m : Machine) : m.Spares n m :=
  ⟨rfl, rfl, rfl, Nat.le_refl _, fun _ _ => rfl⟩

/-- One change after another. -/
theorem Spares.trans (first : m.Spares n m') (second : m'.Spares n m'') : m.Spares n m'' where
  globals := second.globals.trans first.globals
  natives := second.natives.trans first.natives
  calls := second.calls.trans first.calls
  grown := Nat.le_trans first.grown second.grown
  objects id below := (second.objects id below).trans (first.objects id below)

/-- A new object is none of those that there were. -/
theorem spares_allocate (properties : Bindings) (enough : n ≤ m.objects.size) :
    m.Spares n (m.allocate properties) where
  globals := rfl
  natives := rfl
  calls := rfl
  grown := by simp [allocate]
  objects id below := by
    have there : id < m.objects.size := Nat.lt_of_lt_of_le below enough
    simp [allocate, Array.getElem?_push, Nat.ne_of_lt there]

/-- An object behind the others is changed. -/
theorem spares_of_setProperty_eq_ok {id : Nat} {key : String} {value : Value} (behind : n ≤ id)
    (done : m.setProperty id key value = .ok m') : m.Spares n m' := by
  unfold setProperty at done
  split at done
  · cases done
    refine ⟨rfl, rfl, rfl, by simp, fun id' below => ?_⟩
    have other : id ≠ id' := by omega
    simp [Array.getElem?_modify, other]
  · cases done

end Machine

/-! ## Evaluation that spares objects -/

namespace Evaluate

variable {α β : Type} {n : Nat} {x y : Evaluate α} {f : α → Evaluate β} {p : α → Prop}
  {p' : β → Prop}

/-- What is left when evaluation has ended in any way. -/
def Leaves (n : Nat) (p : α → Prop) (m : Machine) : EStateM.Result Stop Machine α → Prop
  | .ok a m' => m.Spares n m' ∧ p a
  | .error _ m' => m.Spares n m'

/-- Evaluation that spares the first `n` objects, if there are as many, and gives what has the
    property. -/
def Harmless (n : Nat) (x : Evaluate α) (p : α → Prop) : Prop :=
  ∀ m : Machine, n ≤ m.objects.size → Leaves n p m (x m)

/-- One evaluation after another. -/
theorem Harmless.bind (first : Harmless n x p) (second : ∀ a, p a → Harmless n (f a) p') :
    Harmless n (x >>= f) p' := by
  intro m enough
  have half := first m enough
  cases result : x m with
  | error stop m' =>
    rw [result] at half
    rw [bind_of_eq_error result]
    exact half
  | ok a m' =>
    rw [result] at half
    rw [bind_of_eq_ok result]
    obtain ⟨spares, given⟩ := half
    have rest := second a given m' (Nat.le_trans enough spares.grown)
    cases result' : f a m' with
    | ok b m'' =>
      rw [result'] at rest
      exact ⟨spares.trans rest.1, rest.2⟩
    | error stop m'' =>
      rw [result'] at rest
      exact spares.trans rest

theorem Harmless.ite {c : Prop} [Decidable c] (h : Harmless n x p) (h' : Harmless n y p) :
    Harmless n (if c then x else y) p := by
  split
  · exact h
  · exact h'

theorem harmless_pure {a : α} (h : p a) : Harmless n (pure a) p :=
  fun m _ => ⟨.refl n m, h⟩

theorem harmless_throw (stop : Stop) : Harmless n (throw stop : Evaluate α) p :=
  fun m _ => .refl n m

/-- Reading a place changes nothing. -/
theorem harmless_read (r : Reference) : Harmless n (read r) fun _ => True := by
  intro m enough
  unfold read
  rw [get_bind]
  cases m.read r with
  | ok value => exact harmless_pure trivial m enough
  | error stop => exact harmless_throw stop m enough

theorem harmless_typeOf (r : Reference) : Harmless n (typeOf r) fun _ => True := by
  intro m enough
  unfold typeOf
  rw [get_bind]
  cases m.read r with
  | ok value => exact harmless_pure trivial m enough
  | error stop =>
    cases stop with
    | outcome o => exact harmless_pure trivial m enough
    | fault why => exact harmless_throw _ m enough

theorem harmless_property (object : Value) (key : String) :
    Harmless n (property object key) fun _ => True := by
  intro m enough
  unfold property
  rw [get_bind]
  cases m.property object key with
  | ok value => exact harmless_pure trivial m enough
  | error why => exact harmless_throw _ m enough

theorem harmless_placeOf (object : Value) (key : String) :
    Harmless n (placeOf object key) fun _ => True := by
  cases object with
  | object id => exact harmless_pure trivial
  | _ => exact harmless_throw _

/-- A new object comes behind all others. -/
theorem harmless_allocate (properties : Bindings) : Harmless n (allocate properties) (n ≤ ·) :=
  fun _ enough => ⟨Machine.spares_allocate properties enough, enough⟩

/-- A property of a new object is set. -/
theorem harmless_setProperty {id : Nat} (behind : n ≤ id) (key : String) (value : Value) :
    Harmless n (setProperty id key value) fun _ => True := by
  intro m enough
  unfold setProperty
  rw [get_bind]
  cases done : m.setProperty id key value with
  | ok m' => exact ⟨Machine.spares_of_setProperty_eq_ok behind done, trivial⟩
  | error why => exact harmless_throw _ m enough

end Evaluate

open Evaluate

section Operators

variable {n : Nat}

theorem Literal.harmless (value : Literal) : Harmless n value.eval fun _ => True := by
  cases value with
  | regExp => exact harmless_throw _
  | _ => exact harmless_pure trivial

/-- An operator of two operands changes nothing. -/
theorem BinaryOperator.harmless (operator : BinaryOperator) (left right : Value) :
    Harmless n (operator.apply left right) fun _ => True := by
  cases operator <;> first | exact harmless_pure trivial | exact harmless_throw _

/-- An operator of one operand changes nothing. -/
theorem UnaryOperator.harmless (operator : UnaryOperator) (value : Value) :
    Harmless n (operator.apply value) fun _ => True := by
  cases operator <;> first | exact harmless_pure trivial | exact harmless_throw _

end Operators

mutual

/-- An expression without effect changes only objects that it has made itself. -/
theorem Expression.harmless {n : Nat} : (e : Expression) → e.isEffectFree = true →
    Harmless n e.eval fun _ => True
  | .literal value, _ => value.harmless
  | .name _, _ => harmless_read _
  | .thisValue, _ => harmless_pure trivial
  | .function .., _ => harmless_throw _
  | .array elements, free =>
    (harmless_evalElements elements free).bind fun _ _ => (harmless_allocate _).bind fun _ _ =>
      harmless_pure trivial
  | .object properties, free =>
    (harmless_allocate _).bind fun _ behind =>
      (harmless_evalProperties behind properties free).bind fun _ _ => harmless_pure trivial
  | .member object _, free => (object.harmless free).bind fun _ _ => harmless_property _ _
  | .index object key, free =>
    (object.harmless (Bool.and_eq_true_iff.mp free).1).bind fun _ _ =>
      (key.harmless (Bool.and_eq_true_iff.mp free).2).bind fun _ _ => harmless_property _ _
  | .unary .delete argument, free => by
    rw [Expression.eval]
    cases found : argument.place? with
    | some place => exact (argument.harmless_place? free found).bind fun _ _ => harmless_throw _
    | none => exact (argument.harmless free).bind fun _ _ => harmless_throw _
  | .unary .typeof argument, free => by
    rw [Expression.eval]
    cases found : argument.place? with
    | some place => exact (argument.harmless_place? free found).bind fun r _ => harmless_typeOf r
    | none => exact (argument.harmless free).bind fun _ _ => UnaryOperator.harmless _ _
  | .unary .minus argument, free | .unary .plus argument, free | .unary .not argument, free
  | .unary .bitNot argument, free | .unary .void argument, free =>
    (argument.harmless free).bind fun _ _ => UnaryOperator.harmless _ _
  | .binary operator left right, free =>
    (left.harmless (Bool.and_eq_true_iff.mp free).1).bind fun _ _ =>
      (right.harmless (Bool.and_eq_true_iff.mp free).2).bind fun _ _ => operator.harmless _ _
  | .logical _ left right, free =>
    (left.harmless (Bool.and_eq_true_iff.mp free).1).bind fun _ _ =>
      .ite (harmless_pure trivial) (right.harmless (Bool.and_eq_true_iff.mp free).2)
  | .conditional test consequent alternate, free =>
    have ⟨tested, chosen⟩ := Bool.and_eq_true_iff.mp free
    (test.harmless tested).bind fun _ _ =>
      .ite (consequent.harmless (Bool.and_eq_true_iff.mp chosen).1)
        (alternate.harmless (Bool.and_eq_true_iff.mp chosen).2)
  | .sequence expressions, free => harmless_evalSequence expressions free
  | .call .., free | .construct .., free | .assignment .., free
  | .update .., free => Bool.noConfusion free
termination_by structural e => e

theorem Expression.harmless_place? {n : Nat} : (e : Expression) → e.isEffectFree = true →
    {place : Evaluate Reference} → e.place? = some place → Harmless n place fun _ => True
  | .name _, _, _, rfl => harmless_pure trivial
  | .member object _, free, _, rfl => (object.harmless free).bind fun _ _ => harmless_placeOf _ _
  | .index object key, free, _, rfl =>
    (object.harmless (Bool.and_eq_true_iff.mp free).1).bind fun _ _ =>
      (key.harmless (Bool.and_eq_true_iff.mp free).2).bind fun _ _ => harmless_placeOf _ _
termination_by structural e => e

theorem harmless_evalSequence {n : Nat} : (list : List Expression) →
    expressionsAreEffectFree list = true →
    Harmless n (evalSequence list) fun _ => True
  | [], _ => harmless_pure trivial
  | [value], free => value.harmless (Bool.and_eq_true_iff.mp free).1
  | value :: next :: rest, free =>
    (value.harmless (Bool.and_eq_true_iff.mp free).1).bind fun _ _ =>
      harmless_evalSequence (next :: rest) (Bool.and_eq_true_iff.mp free).2
termination_by structural list => list

theorem harmless_evalElements {n : Nat} : (list : List (Option Expression)) →
    elementsAreEffectFree list = true →
    Harmless n (evalElements list) fun _ => True
  | [], _ => harmless_pure trivial
  | some value :: rest, free =>
    (value.harmless (Bool.and_eq_true_iff.mp free).1).bind fun _ _ =>
      (harmless_evalElements rest (Bool.and_eq_true_iff.mp free).2).bind fun _ _ =>
        harmless_pure trivial
  | none :: rest, free => (harmless_evalElements rest free).bind fun _ _ => harmless_pure trivial
termination_by structural list => list

/-- The properties of an object literal are set in the object of the literal. -/
theorem harmless_evalProperties {n id : Nat} (behind : n ≤ id) :
    (list : List (Property Expression)) →
    propertiesAreEffectFree list = true → Harmless n (evalProperties id list) fun _ => True
  | [], _ => harmless_pure trivial
  | ⟨_, value⟩ :: rest, free =>
    (value.harmless (Bool.and_eq_true_iff.mp free).1).bind fun _ _ =>
      (harmless_setProperty behind _ _).bind fun _ _ =>
        harmless_evalProperties behind rest (Bool.and_eq_true_iff.mp free).2
termination_by structural list => list

end

/-! ## Runs -/

namespace CodeUnit

open Running

variable {u v : CodeUnit} {arena : Arena} {start : Nat}

/-- In the run of an entry point that is an expression, a property is set only of the object of the
    same literal. -/
theorem Adds.setsOwn {tree : Expression} (added : u.Adds (.expression tree) start v) {m : Machine}
    {k : Nat} {r : Running}
    (steps : Steps v.runnable k (entered m start) r) :
    SetsOwn (.value tree) v.runnable start (entered m start) k r := by
  have traced : Segment.Traced (.value tree) v.runnable start tree.segment 0 := tree.traced .refl
  have returns : v.runnable.instructions[start + 0 + tree.segment.size]? = some { op := .ret } :=
    added.stands.2
  cases traced _ ⟨added.stands.1, added.stands_names⟩ m [] k r steps with
  | inside own => exact own
  | left done reached onward =>
    -- Behind the expression there is nothing but the return.
    rename_i j k m' stack
    cases k with
    | zero =>
      obtain rfl : r = _ := onward
      exact setsOwn_of_getElem? returns (by decide)
    | succ k =>
      obtain ⟨mid, next, -⟩ := onward
      rw [Step.next_eq returns] at next
      exact absurd next (Step.execute_ret_ne_ok rfl)

/-- The run of the code of an expression without effects leaves the names and all objects that there
    were as they are, however it ends. Along the way properties are set only of objects that were
    made on the way, by the same literal. -/
theorem run_effectFree (tree : Expression) (free : tree.isEffectFree = true)
    (accepted : (u.compile (.expression tree) arena).result = .ok start) (m : Machine) :
    let v := (u.compile (.expression tree) arena).unit
    (∀ budget, ((entered m start).run v.runnable budget).stop ≠ .fault .outOfSteps →
      m.Spares m.objects.size ((entered m start).run v.runnable budget).machine) ∧
    ∀ k r, Steps v.runnable k (entered m start) r →
      SetsOwn (.value tree) v.runnable start (entered m start) k r := by
  intro v
  have added := adds_of_compile_eq_ok accepted
  refine ⟨fun budget real => ?_, fun k r => added.setsOwn⟩
  rw [← added.ended_eq_run m real]
  have left := tree.harmless free m (Nat.le_refl _)
  change m.Spares _ (tree.eval.ended m).machine
  unfold ended
  cases result : tree.eval m with
  | ok value m' =>
    rw [result] at left
    exact left.1
  | error stop m' =>
    rw [result] at left
    exact left

/-- A literal inside of another. -/
def nestedLiteral : Expression :=
  .object [⟨.string "outer", .object [⟨.string "inner", .name "a"⟩]⟩]

/-- A machine with one object, which a name stands for. -/
def oneObject : Machine :=
  { globals := [("a", .object 0)], objects := #[[("k", .null)]] }

/-- The object of the inner literal is there before its property is set, and is set in the object of
    the outer literal. -/
theorem run_effectFree_nestedLiteral :
    nestedLiteral.isEffectFree = true ∧
      (({} : CodeUnit).compile (.expression nestedLiteral) {}).result = .ok 0 ∧
      ∃ budget ended, (entered oneObject 0).run
          (({} : CodeUnit).compile (.expression nestedLiteral) {}).unit.runnable budget = ended ∧
        ended.stop = .outcome (.returned (.object 1)) ∧ oneObject.Spares 1 ended.machine ∧
        ∃ r, Steps (({} : CodeUnit).compile (.expression nestedLiteral) {}).unit.runnable 4
            (entered oneObject 0) r ∧
          r.Sets (({} : CodeUnit).compile (.expression nestedLiteral) {}).unit.runnable ∧
          SetsOwn (.value nestedLiteral)
            (({} : CodeUnit).compile (.expression nestedLiteral) {}).unit.runnable 0
            (entered oneObject 0) 4 r := by
  have accepted : (({} : CodeUnit).compile (.expression nestedLiteral) {}).result = .ok 0 := by
    decide +kernel
  have names : (({} : CodeUnit).compile (.expression nestedLiteral) {}).unit.names =
      some ⟨#["a", "inner", "outer"], 8⟩ := by
    decide +kernel
  have written : (({} : CodeUnit).compile (.expression nestedLiteral) {}).unit.instructions =
      #[{ op := .newObject }, { op := .newObject }, ⟨.loadName, some (.name 0), none⟩,
        ⟨.setProperty, some (.name 1), none⟩, ⟨.setProperty, some (.name 2), none⟩,
        { op := .ret }] :=
    Array.toList_inj.mp (adds_of_compile_eq_ok accepted).code
  have code : (({} : CodeUnit).compile (.expression nestedLiteral) {}).unit.runnable = ⟨_, _⟩ :=
    congrArg₂ Runnable.mk written names
  obtain ⟨spares, own⟩ := run_effectFree nestedLiteral rfl accepted oneObject
  generalize (({} : CodeUnit).compile (.expression nestedLiteral) {}).unit.runnable = c
    at code spares own ⊢
  subst code
  refine ⟨rfl, accepted, 6, _, rfl, rfl, spares 6 (fun stops => Stop.noConfusion stops), ?_⟩
  refine ⟨_, ⟨_, rfl, _, rfl, _, rfl, _, rfl, rfl⟩, ⟨_, rfl, rfl⟩,
    own 4 _ ⟨_, rfl, _, rfl, _, rfl, _, rfl, rfl⟩⟩

end CodeUnit

end StackScript
