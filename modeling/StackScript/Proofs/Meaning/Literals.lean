import StackScript.Proofs.Meaning.Endings
import StackScript.Proofs.Segment.Fragments
import StackScript.Proofs.Segment.InStep

/-!
# Object literals in code

The code of an object literal makes an object and then, behind the code of each value, sets a
property of what lies below that value on the stack. The code of a value leaves what lies below it
alone, so this is the object of the same literal, however deep literals are nested and wherever an
expression stops.

A run in a segment is followed part by part: as long as control has not left the part at its end,
whatever sets a property belongs to a literal in that part.
-/

namespace StackScript

open Evaluate

/-- In the code of an object literal with these properties, those many instructions behind the first
    one, a property is set. -/
def SetsAt (properties : List (Property Expression)) (p : Nat) : Prop :=
  ∃ before property after, properties = before ++ property :: after ∧
    p = (propertiesSegment before).size + property.value.segment.size

namespace Running

/-- The next instruction sets a property. -/
def Sets (code : Runnable) (r : Running) : Prop :=
  ∃ i, code.instructions[r.offset]? = some i ∧ i.op = .setProperty

/-- The code of the tree stands at `base`. The next instruction belongs to an object literal of the
    tree, whose code begins `q` instructions on, and the object below the value has the given
    number. -/
def SetsOf (whole : Fragment) (base q id : Nat) (r : Running) : Prop :=
  ∃ properties p v rest, whole.Contains (.value (.object properties)) q ∧ SetsAt properties p ∧
    r.offset = base + q + 1 + p ∧ r.stack = .value v :: .value (.object id) :: rest

/-- If a property is set next, after `k` steps, then of the object that the same literal made on the
    way. -/
def SetsOwn (whole : Fragment) (code : Runnable) (base : Nat) (first : Running) (k : Nat)
    (r : Running) : Prop :=
  r.Sets code → ∃ q j made, j < k ∧ Steps code j first made ∧ made.offset = base + q ∧
    code.instructions[made.offset]? = some { op := .newObject } ∧
      r.SetsOf whole base q made.machine.objects.size

variable {whole : Fragment} {code : Runnable} {base k : Nat} {first mid r : Running}

/-- Nothing is told of other instructions. -/
theorem setsOwn_of_getElem? {i : Instruction} (found : code.instructions[r.offset]? = some i)
    (other : i.op ≠ .setProperty) : SetsOwn whole code base first k r := by
  rintro ⟨i', found', sets⟩
  rw [found] at found'
  cases found'
  exact absurd sets other

/-- Steps that come before. -/
theorem SetsOwn.prepend {j : Nat} (steps : Steps code j first mid)
    (h : SetsOwn whole code base mid k r) :
    SetsOwn whole code base first (j + k) r := by
  intro sets
  obtain ⟨q, i, made, lt, reached, rest⟩ := h sets
  exact ⟨q, j + i, made, by omega, steps.trans reached, rest⟩

end Running

open Running

/-! ## Runs through a part of the code -/

/-- After `k` steps from the first state, the run is in a state of which something is told, or it
    has been at the destination with the stack and the machine of the result. -/
inductive Through (code : Runnable) (told : Nat → Running → Prop) (first : Running) (dest : Nat)
    (result : EStateM.Result Stop Machine (List Slot)) : Nat → Running → Prop
  | inside {k : Nat} {r : Running} (here : told k r) : Through code told first dest result k r
  | left {j k : Nat} {m : Machine} {stack : List Slot} {r : Running} (done : result = .ok stack m)
      (steps : Steps code j first ⟨m, stack, dest⟩) (onward : Steps code k ⟨m, stack, dest⟩ r) :
      Through code told first dest result (j + k) r

section Through

variable {code : Runnable} {told told' : Nat → Running → Prop} {first second r : Running}
  {dest mid k : Nat}
  {result : EStateM.Result Stop Machine (List Slot)}

/-- A weaker condition on the way. -/
theorem Through.mono (h : Through code told first dest result k r)
    (weaken : ∀ k r, told k r → told' k r) :
    Through code told' first dest result k r := by
  cases h with
  | inside here => exact .inside (weaken _ _ here)
  | left done steps onward => exact .left done steps onward

/-- Steps that come before. -/
theorem Through.prepend {j : Nat} (steps : Steps code j first second)
    (h : Through code (fun k r => told (j + k) r) second dest result k r) :
    Through code told first dest result (j + k) r := by
  cases h with
  | inside here => exact .inside here
  | left done steps' onward =>
    rw [← Nat.add_assoc]
    exact .left done (steps.trans steps') onward

/-- What is done in one part after the other. -/
theorem Through.bind {action : Evaluate (List Slot)} {rest : List Slot → Evaluate (List Slot)}
    {m : Machine}
    (h : Through code told first mid (action m) k r)
    (behind : ∀ j k stack m', action m = .ok stack m' → Steps code j first ⟨m', stack, mid⟩ →
      Steps code k ⟨m', stack, mid⟩ r →
        Through code (fun k r => told (j + k) r) ⟨m', stack, mid⟩ dest (rest stack m') k r) :
    Through code told first dest ((action >>= rest) m) k r := by
  cases h with
  | inside here => exact .inside here
  | left done steps onward =>
    rw [bind_of_eq_ok done]
    exact (behind _ _ _ _ done steps onward).prepend steps

/-- A jump to another place behind. -/
theorem Through.jump {t : Nat} (h : Through code told first mid result k r)
    (found : code.instructions[mid]? = some (.jumpTo .jump t))
    (before : ∀ k r, r.offset = mid → told k r) :
    Through code told first t result k r := by
  cases h with
  | inside here => exact .inside here
  | left done steps onward =>
    rename_i j k m stack
    cases k with
    | zero =>
      obtain rfl : r = _ := onward
      exact .inside (before _ _ rfl)
    | succ k =>
      obtain ⟨r', next, rest⟩ := onward
      rw [Step.next_jump found] at next
      cases next
      rw [Nat.add_comm k, ← Nat.add_assoc]
      exact .left done (steps.trans (steps_one (Step.next_jump found))) rest

end Through

namespace Segment

/-- Wherever the segment is entered, what sets a property inside of it is an object literal, and it
    is the object of that literal. The segment stands `q` instructions into the code of the tree. -/
def Traced (whole : Fragment) (code : Runnable) (base : Nat) (a : Segment) (q : Nat) : Prop :=
  ∀ n, a.HeldBy code (base + q) n → ∀ m stack k r, Steps code k ⟨m, stack, base + q⟩ r →
    Through code (SetsOwn whole code base ⟨m, stack, base + q⟩) ⟨m, stack, base + q⟩
      (base + q + a.size)
      (a.exec 0 stack m) k r

variable {whole : Fragment} {code : Runnable} {base q o n k : Nat} {a b : Segment} {m : Machine}
  {stack : List Slot}
  {r : Running} {told : Nat → Running → Prop}

/-- A single instruction: the run is before it or behind it. -/
theorem through_single (single : a.isSingle = true) (held : a.HeldBy code o n)
    (before : told 0 ⟨m, stack, o⟩)
    (steps : Steps code k ⟨m, stack, o⟩ r) :
    Through code told ⟨m, stack, o⟩ (o + 1) (a.exec 0 stack m) k r := by
  cases k with
  | zero =>
    obtain rfl : r = _ := steps
    exact .inside before
  | succ k =>
    obtain ⟨mid, next, rest⟩ := steps
    obtain ⟨i, found, goesOn, acts⟩ := exists_acts single held
    rw [← acts, Nat.add_comm k]
    cases done : (Step.execute code i).acts stack m with
    | ok stack' m' =>
      have step := Step.next_of_acts_eq_ok found goesOn done
      rw [next] at step
      cases step
      exact .left rfl (steps_one next) rest
    | error stop m' =>
      exact absurd next (Step.halts_of_acts_eq_error found goesOn done).2.next_ne_ok

/-- An instruction that sets no property. -/
theorem traced_plain {i : Instruction} {fixed : i.isFixed = true} (other : i.op ≠ .setProperty) :
    Traced whole code base (plain i fixed) q :=
  fun _ held _ _ _ _ => through_single rfl held (setsOwn_of_getElem? held.stands.1 other)

theorem traced_named {op : Op} {text : String} {extra : Option Operand} {goesOn : op.goesOn = true}
    (other : op ≠ .setProperty) : Traced whole code base (named op text extra goesOn) q :=
  fun _ held _ _ _ _ => through_single rfl held (setsOwn_of_getElem? held.stands.1 other)

theorem traced_nothing : Traced whole code base nothing q := by
  intro n held m stack k r steps
  rw [← Nat.zero_add k]
  exact .left rfl rfl steps

/-- One segment after the other. -/
theorem Traced.seq (first : Traced whole code base a q)
    (second : Traced whole code base b (q + a.size)) :
    Traced whole code base (a.seq b) q := by
  intro n held m stack k r steps
  obtain ⟨held₁, held₂⟩ := heldBy_seq.mp held
  refine (first n held₁ m stack k r steps).bind ?_
  intro j k stack' m' _ reached onward
  rw [size, ← Nat.add_assoc]
  rw [Nat.add_assoc] at held₂ reached onward ⊢
  exact (second _ held₂ m' stack' k r onward).mono fun _ _ own => own.prepend reached

/-- The run goes through a part that it enters with its first step. -/
theorem Traced.through_enter (h : Traced whole code base a q) (held : a.HeldBy code (base + q) n)
    {m' : Machine}
    {stack' : List Slot} (next : Step.next code ⟨m, stack, o⟩ = .ok () ⟨m', stack', base + q⟩)
    (steps : Steps code k ⟨m', stack', base + q⟩ r) :
    Through code (SetsOwn whole code base ⟨m, stack, o⟩) ⟨m, stack, o⟩ (base + q + a.size)
      (a.exec 0 stack' m')
      (k + 1) r := by
  rw [Nat.add_comm k]
  exact ((h n held m' stack' k r steps).mono fun _ _ own => own.prepend (steps_one next)).prepend
    (steps_one next)

/-- A body that may be skipped. -/
theorem Traced.skip (operator : LogicalOperator) (body : Traced whole code base a (q + 1)) :
    Traced whole code base (skip operator a) q := by
  intro n held m stack k r steps
  obtain ⟨found, stands⟩ := stands_skip.mp held.stands
  have other : operator.op ≠ .setProperty := by cases operator <;> simp [LogicalOperator.op]
  have hop : operator.op = .jumpIfFalse ∨ operator.op = .jumpIfFalseOrPop ∨
      operator.op = .jumpIfTrueOrPop := by
    cases operator <;> simp [LogicalOperator.op]
  have stop : base + q + (Segment.skip operator a).size = base + q + 1 + a.size := by
    rw [size]
    omega
  cases k with
  | zero =>
    obtain rfl : r = _ := steps
    exact .inside (setsOwn_of_getElem? found other)
  | succ k =>
    obtain ⟨mid, next, rest⟩ := steps
    obtain ⟨v, below, rfl⟩ := Step.exists_value_of_next hop found next
    have step := Step.next_skip operator (m := m) (v := v) found below
    rw [exec_skip, stop]
    by_cases decides : operator.decides v = true
    · rw [if_pos decides] at step ⊢
      rw [next] at step
      cases step
      rw [Nat.add_comm k]
      exact .left rfl (steps_one next) rest
    · rw [if_neg decides] at step ⊢
      rw [next] at step
      cases step
      exact body.through_enter ⟨stands, held.named⟩ next rest

/-- A choice. -/
theorem Traced.branch (keeps : Bool) (consequent : Traced whole code base a (q + 1))
    (alternate : Traced whole code base b (q + 1 + a.size + 1)) :
    Traced whole code base (branch keeps a b) q := by
  intro n held m stack k r steps
  obtain ⟨found, stands₁, toEnd, stands₂⟩ := stands_branch.mp held.stands
  obtain ⟨named₁, named₂⟩ := stands_append.mp held.named
  have other : branchOp keeps ≠ .setProperty := by cases keeps <;> simp [branchOp]
  have hop : branchOp keeps = .jumpIfFalse ∨ branchOp keeps = .jumpIfFalseOrPop ∨
      branchOp keeps = .jumpIfTrueOrPop := by
    cases keeps <;> simp [branchOp]
  have stop : base + q + (Segment.branch keeps a b).size =
      base + (q + 1 + a.size + 1) + b.size := by
    rw [size]
    omega
  have middle : base + q + 1 + a.size + 1 = base + (q + 1 + a.size + 1) := by omega
  cases k with
  | zero =>
    obtain rfl : r = _ := steps
    exact .inside (setsOwn_of_getElem? found other)
  | succ k =>
    obtain ⟨mid, next, rest⟩ := steps
    obtain ⟨v, below, rfl⟩ := Step.exists_value_of_next hop found next
    have step := Step.next_branch keeps (m := m) (v := v) found below
    rw [exec_branch, stop]
    rw [middle] at step toEnd stands₂
    cases truthy : v.truthy with
    | true =>
      rw [truthy, if_pos rfl, next] at step
      cases step
      refine Through.jump (consequent.through_enter ⟨stands₁, named₁⟩ next rest) toEnd ?_
      intro k r here
      exact setsOwn_of_getElem? (here ▸ toEnd) (by simp [Instruction.jumpTo])
    | false =>
      rw [truthy, if_neg Bool.false_ne_true, next] at step
      cases step
      exact alternate.through_enter ⟨stands₂, named₂⟩ next rest

end Segment

/-! ## Trees -/

open Segment

namespace Fragment

/-- The trees among the items, which begin `q` instructions into the code of the whole, occur in
    it. -/
def Lists (whole : Fragment) (items : List Item) (q : Nat) : Prop :=
  ∀ g k, Holds g items k → whole.Contains g (q + k)

variable {whole f : Fragment} {item : Item} {items : List Item} {q : Nat}

theorem Contains.lists (occurs : whole.Contains f q) : whole.Lists f.items q :=
  fun _ _ holds => occurs.inside holds

theorem Lists.head (lists : whole.Lists (.tree f :: items) q) : whole.Contains f q :=
  lists f 0 .here

theorem Lists.tail (lists : whole.Lists (item :: items) q) : whole.Lists items (q + item.size) := by
  intro g k holds
  rw [Nat.add_assoc]
  exact lists g _ (.later holds)

end Fragment

section Properties

variable {properties : List (Property Expression)} {property : Property Expression} {p : Nat}

theorem setsAt_cons : SetsAt (property :: properties) property.value.segment.size :=
  ⟨[], property, properties, rfl, (Nat.zero_add _).symm⟩

/-- The other properties are set behind the first. -/
theorem SetsAt.later (h : SetsAt properties p) :
    SetsAt (property :: properties) (property.value.segment.size + 1 + p) := by
  obtain ⟨before, property', after, rfl, rfl⟩ := h
  refine ⟨property :: before, property', after, rfl, ?_⟩
  rw [propertiesSegment]
  simp only [Segment.size, onName]
  omega

end Properties

section Trees

variable {whole : Fragment} {code : Runnable} {base q : Nat}

theorem Literal.traced (value : Literal) : Traced whole code base value.segment q := by
  cases value with
  | boolean b => cases b <;> exact traced_plain (by decide)
  | number | string | regExp => exact traced_plain (by simp)
  | null | undefined => exact traced_plain (by decide)

/-- An operand that is taken as a place if it is a reference, before the rest of the code. -/
theorem traced_operand {e : Expression} {a b : Segment} {items : List Fragment.Item}
    (lists : whole.Lists (.tree (Fragment.ofOperand e) :: items) q)
    (place : whole.Contains (.place e false) q →
      Traced whole code base (e.referenceSegment false) q)
    (value : whole.Contains (.value e) q → Traced whole code base e.segment q)
    (ha : ∀ q, whole.Lists items q → Traced whole code base a q)
    (hb : ∀ q, whole.Lists items q → Traced whole code base b q) :
    Traced whole code base
      (if e.isReference then (e.referenceSegment false).seq a else e.segment.seq b) q := by
  unfold Fragment.ofOperand at lists
  split
  · rename_i reference
    rw [if_pos reference] at lists
    exact (place lists.head).seq (ha _ lists.tail)
  · rename_i other
    rw [if_neg other] at lists
    exact (value lists.head).seq (hb _ lists.tail)

end Trees

mutual

/-- Each property that is set in the code of an expression is one of an object literal in it. -/
theorem Expression.traced {whole : Fragment} {code : Runnable} {base : Nat} :
    (e : Expression) → ∀ {q},
    whole.Contains (.value e) q → Traced whole code base e.segment q
  | .literal value, _, _ => value.traced
  | .name _, _, _ => traced_named (by decide)
  | .thisValue, _, _ => traced_plain (by decide)
  | .function .., _, _ => traced_plain (by simp)
  | .array elements, _, occurs =>
    (elements_traced elements [.own] occurs.lists).seq (traced_plain (by simp))
  | .object properties, q, occurs => by
    rw [Expression.segment]
    intro n held m stack k r steps
    obtain ⟨held₁, held₂⟩ := heldBy_seq.mp held
    have found : code.instructions[base + q]? = some { op := .newObject } := held₁.stands.1
    refine Through.bind (through_single rfl held₁ (setsOwn_of_getElem? found (by decide)) steps) ?_
    intro j k stack' m' done reached onward
    rw [exec_newObject] at done
    obtain ⟨id, _, allocated, same⟩ := exists_of_bind_eq_ok done
    cases same
    cases allocated
    have positive : 0 < j := by
      cases j with
      | zero => exact absurd (congrArg Running.offset reached) (by simp)
      | succ j => exact j.succ_pos
    have stop : base + q + ((Segment.op .newObject).seq (propertiesSegment properties)).size =
        base + (q + 1 + 0) + (propertiesSegment properties).size := by
      simp only [Segment.size, Segment.op]
      omega
    rw [stop]
    have behind :=
      properties_traced properties occurs (d := 0) (fun p sets => by rwa [Nat.zero_add])
      occurs.lists.tail held₂ onward
    refine behind.mono fun k r told => ?_
    rcases told with own | sets
    · exact own.prepend reached
    · exact fun _ => ⟨q, 0, ⟨m, stack, base + q⟩, by omega, rfl, rfl, found, sets⟩
  | .member object _, _, occurs => (object.traced occurs.lists.head).seq (traced_named (by decide))
  | .index object key, _, occurs =>
    (object.traced occurs.lists.head).seq
      ((key.traced occurs.lists.tail.head).seq (traced_plain (by decide)))
  | .call callee arguments, _, occurs =>
    traced_operand occurs.lists callee.traced_reference callee.traced
      (fun _ lists => (expressions_traced arguments [.own] lists).seq (traced_plain (by simp)))
      (fun _ lists => (expressions_traced arguments [.own] lists).seq (traced_plain (by simp)))
  | .construct callee arguments, _, occurs =>
    traced_operand occurs.lists callee.traced_reference callee.traced
      (fun _ lists => (expressions_traced arguments [.own] lists).seq (traced_plain (by simp)))
      (fun _ lists => (expressions_traced arguments [.own] lists).seq (traced_plain (by simp)))
  | .unary .delete argument, _, occurs | .unary .typeof argument, _, occurs =>
    traced_operand occurs.lists argument.traced_reference argument.traced
      (fun _ _ => traced_plain (by decide))
      (fun _ _ => traced_plain (by decide))
  | .unary .minus argument, _, occurs | .unary .plus argument, _, occurs
  | .unary .not argument, _, occurs
  | .unary .bitNot argument, _, occurs | .unary .void argument, _, occurs =>
    (argument.traced occurs.lists.head).seq (traced_plain (by decide))
  | .update operator argument before, _, occurs =>
    traced_operand occurs.lists argument.traced_reference argument.traced
      (fun _ _ => traced_plain (by cases operator <;> cases before <;> decide))
        (fun _ _ => traced_plain (by decide))
  | .binary operator left right, _, occurs =>
    (left.traced occurs.lists.head).seq
      ((right.traced occurs.lists.tail.head).seq (traced_plain (by cases operator <;> decide)))
  | .logical operator left right, _, occurs =>
    (left.traced occurs.lists.head).seq ((right.traced occurs.lists.tail.tail.head).skip operator)
  | .assignment operator target value, _, occurs => by
    have lists : whole.Lists (Fragment.ofExpression (.assignment operator target value)) _ :=
      occurs.lists
    rw [Expression.segment]
    rw [Fragment.ofExpression] at lists
    split
    · rename_i reference
      rw [if_pos reference] at lists
      refine (target.traced_reference lists.head).seq ?_
      have rest := lists.tail
      cases simple : operator.binary? with
      | none =>
        rw [simple] at rest
        exact (value.traced rest.head).seq (traced_plain (by decide))
      | some binary =>
        rw [simple] at rest
        exact (traced_plain (by decide)).seq ((value.traced rest.tail.head).seq
          ((traced_plain (by cases binary <;> decide)).seq (traced_plain (by decide))))
    · rename_i other
      rw [if_neg other] at lists
      exact (target.traced lists.head).seq (traced_plain (by decide))
  | .conditional test consequent alternate, _, occurs =>
    (test.traced occurs.lists.head).seq ((consequent.traced occurs.lists.tail.tail.head).branch true
      ((traced_plain (by decide)).seq
        (alternate.traced occurs.lists.tail.tail.tail.tail.tail.head)))
  | .sequence expressions, _, occurs => sequence_traced expressions occurs.lists
termination_by structural e => e

/-- The same of a place. -/
theorem Expression.traced_reference {whole : Fragment} {code : Runnable} {base : Nat} :
    (e : Expression) →
    ∀ {create q}, whole.Contains (.place e create) q →
      Traced whole code base (e.referenceSegment create) q
  | .name _, _, _, _ => traced_named (by decide)
  | .member object _, _, _, occurs =>
    (object.traced occurs.lists.head).seq
      ((traced_named (by decide)).seq (traced_plain (by decide)))
  | .index object key, _, _, occurs =>
    (object.traced occurs.lists.head).seq
      ((key.traced occurs.lists.tail.head).seq (traced_plain (by decide)))
  | .literal _, _, _, _ | .thisValue, _, _, _ | .function .., _, _, _ | .array _, _, _, _
  | .object _, _, _, _
  | .call .., _, _, _ | .construct .., _, _, _ | .unary .., _, _, _ | .update .., _, _, _
  | .binary .., _, _, _
  | .logical .., _, _, _ | .assignment .., _, _, _ | .conditional .., _, _, _
  | .sequence _, _, _, _ => traced_nothing
termination_by structural e => e

theorem expressions_traced {whole : Fragment} {code : Runnable} {base : Nat} :
    (list : List Expression) →
    ∀ rest {q}, whole.Lists ((list.map fun e => .tree (.value e)) ++ rest) q →
      Traced whole code base (expressionsSegment list) q
  | [], _, _, _ => traced_nothing
  | value :: list, rest, _, lists =>
    (value.traced lists.head).seq (expressions_traced list rest lists.tail)
termination_by structural list => list

theorem sequence_traced {whole : Fragment} {code : Runnable} {base : Nat} :
    (list : List Expression) →
    ∀ {q}, whole.Lists (Fragment.inTurn (list.map .value)) q →
      Traced whole code base (sequenceSegment list) q
  | [], _, _ => traced_plain (by decide)
  | [value], _, lists => value.traced lists.head
  | value :: next :: list, _, lists =>
    (value.traced lists.head).seq
      ((traced_plain (by decide)).seq (sequence_traced (next :: list) lists.tail.tail))
termination_by structural list => list

theorem elements_traced {whole : Fragment} {code : Runnable} {base : Nat} :
    (list : List (Option Expression)) →
    ∀ rest {q}, whole.Lists (list.map Fragment.ofElement ++ rest) q →
      Traced whole code base (elementsSegment list) q
  | [], _, _, _ => traced_nothing
  | some value :: list, rest, _, lists =>
    (value.traced lists.head).seq (elements_traced list rest lists.tail)
  | none :: list, rest, _, lists =>
    (traced_plain (by decide)).seq (elements_traced list rest lists.tail)
termination_by structural list => list

/-- Behind the first instruction of an object literal. The object that it made lies below all that
    is pushed. -/
theorem properties_traced {whole : Fragment} {code : Runnable} {base : Nat} :
    (list : List (Property Expression)) →
    ∀ {literal properties d}, whole.Contains (.value (.object properties)) literal →
      (∀ p, SetsAt list p → SetsAt properties (d + p)) →
      whole.Lists (Fragment.ofProperties list) (literal + 1 + d) →
      ∀ {n}, (propertiesSegment list).HeldBy code (base + (literal + 1 + d)) n → ∀ {id m stack k r},
        Steps code k ⟨m, .value (.object id) :: stack, base + (literal + 1 + d)⟩ r →
          Through code (fun k r => SetsOwn whole code base
              ⟨m, .value (.object id) :: stack, base + (literal + 1 + d)⟩ k r ∨
                r.SetsOf whole base literal id)
            ⟨m, .value (.object id) :: stack, base + (literal + 1 + d)⟩
            (base + (literal + 1 + d) + (propertiesSegment list).size)
            ((propertiesSegment list).exec 0 (.value (.object id) :: stack) m) k r
  | [], _, _, _, _, _, _, _, _, _, _, _, k, _, steps => by
    rw [← Nat.zero_add k]
    exact .left rfl rfl steps
  | ⟨key, value⟩ :: list, literal, properties, d, occurs, sets, lists, n, held, id, m, stack, k,
      r, steps => by
    rw [propertiesSegment] at held ⊢
    obtain ⟨held₁, held⟩ := heldBy_seq.mp held
    obtain ⟨held₂, held₃⟩ := heldBy_seq.mp held
    -- The code of the value, which leaves the value on the stack.
    refine Through.bind ((value.traced lists.head n held₁ m _ k r steps).mono fun _ _ => .inl) ?_
    intro j k stack₁ m₁ done reached onward
    rw [value.exec_segment] at done
    obtain ⟨v, _, -, same⟩ := exists_of_bind_eq_ok done
    cases same
    -- The instruction that sets the property.
    refine Through.bind (through_single rfl held₂ (.inr ?_) onward) ?_
    · exact ⟨properties, _, v, stack, occurs, sets _ setsAt_cons, by dsimp only; omega, rfl⟩
    intro j' k stack₂ m₂ done reached' onward
    rw [exec_setProperty] at done
    obtain ⟨_, _, -, same⟩ := exists_of_bind_eq_ok done
    cases same
    -- The other properties.
    have here : base + (literal + 1 + d) + value.segment.size + 1 =
        base + (literal + 1 + (d + (value.segment.size + 1))) := by omega
    have stop : base + (literal + 1 + d) +
        (value.segment.seq ((onName .setProperty key.text).seq (propertiesSegment list))).size =
          base + (literal + 1 + (d + (value.segment.size + 1))) +
            (propertiesSegment list).size := by
      simp only [Segment.size, onName]
      omega
    have lists' : whole.Lists (Fragment.ofProperties list)
        (literal + 1 + (d + (value.segment.size + 1))) := by
      have behind : whole.Lists (Fragment.ofProperties list)
          (literal + 1 + d + value.segment.size + 1) := lists.tail.tail
      rwa [Nat.add_assoc, Nat.add_assoc (literal + 1)] at behind
    have sets' (p : Nat) (h : SetsAt list p) :
        SetsAt properties (d + (value.segment.size + 1) + p) := by
      rw [Nat.add_assoc]
      exact sets _ h.later
    change (propertiesSegment list).HeldBy code
      (base + (literal + 1 + d) + value.segment.size + 1) _ at held₃
    rw [here] at held₃ onward reached' ⊢
    rw [stop]
    refine (properties_traced list occurs sets' lists' held₃ onward).mono fun k r told => ?_
    exact told.imp_left fun own => (own.prepend reached').prepend reached
termination_by structural list => list

end

end StackScript
