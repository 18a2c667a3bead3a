import StackScript.Proofs.Compile.Matching

/-!
# Equal trees are compiled alike

Trees are equal when they are built alike from equal numbers, texts and operators, and the two zeros
are equal numbers. So equal trees may differ, but compiling does not tell them apart: it decides
nothing by a number, and as keys of properties the two zeros have the same text.
-/

namespace StackScript

open Compile

/-! ## Keys -/

/-- Numbers are equal if they have the same parts, or if both are zero. -/
theorem Number.view_eq_or_of_same {x y : Float} (h : Number.same x y = true) :
    Number.view x = Number.view y ∨ Number.isZero x = true ∧ Number.isZero y = true := by
  unfold Number.same at h
  split at h
  · cases h
  · cases h
  · simpa using h

/-- Both zeros are the same key. -/
theorem PropertyKey.text_of_isZero {x : Float} (zero : Number.isZero x = true) :
    (PropertyKey.number x).text = "0" := by
  unfold PropertyKey.text
  cases view : Number.view x with
  | nan => simp [Number.isZero, view] at zero
  | infinite negative => simp [Number.isZero, view] at zero
  | finite negative mantissa exponent => simp [zero, view]

/-- The two zeros are the same key. -/
theorem PropertyKey.text_eq_of_same {k l : PropertyKey} (h : k.same l = true) :
    k.text = l.text := by
  cases k with
  | name s => cases l <;> simp_all [PropertyKey.same, PropertyKey.text]
  | string s => cases l <;> simp_all [PropertyKey.same, PropertyKey.text]
  | number x =>
    cases l with
    | number y =>
      rcases Number.view_eq_or_of_same h with view | ⟨zero, zero'⟩
      · simp only [PropertyKey.text, Number.isZero, Number.Style.text, view]
        rfl
      · rw [text_of_isZero zero, text_of_isZero zero']
    | _ => simp [PropertyKey.same] at h

/-! ## Trees -/

section Trees

variable {n : Nat}

/-- Equal literals compile alike. -/
theorem Literal.matching_compile {v w : Literal} (h : v.same w = true) :
    Matching n v.compile w.compile := by
  cases v with
  | number x =>
    cases w with
    | number y =>
      exact matching_emitWith .pushNumber (by simpa [Literal.same, Operand.same] using h)
    | _ => simp [Literal.same] at h
  | string s =>
    cases w with
    | string t =>
      obtain rfl : s = t := by simpa [Literal.same] using h
      exact (matching_copy s).bind fun text =>
        matching_emitWith .pushString (by simp [Operand.same])
    | _ => simp [Literal.same] at h
  | regExp p f =>
    cases w with
    | regExp q g =>
      obtain ⟨rfl, rfl⟩ : p = q ∧ f = g := by simpa [Literal.same] using h
      refine (matching_copy p).bind fun pattern => (matching_copy f).bind fun flags => ?_
      exact matching_emit (by simp [Instruction.same, Operand.same?, Operand.same])
    | _ => simp [Literal.same] at h
  | boolean a =>
    cases w with
    | boolean b =>
      obtain rfl : a = b := by simpa [Literal.same] using h
      cases a <;> exact matching_emitOp _
    | _ => simp [Literal.same] at h
  | null =>
    cases w with
    | null => exact matching_emitOp _
    | _ => simp [Literal.same] at h
  | undefined =>
    cases w with
    | undefined => exact matching_emitOp _
    | _ => simp [Literal.same] at h

/-- Equal expressions are both places, or neither is. -/
theorem Expression.isReference_of_same {x y : Expression} (h : x.same y = true) :
    x.isReference = y.isReference := by
  cases x <;> cases y <;> first | rfl | simp [Expression.same] at h

theorem length_of_sameExpressions : {xs ys : List Expression} → sameExpressions xs ys = true →
    xs.length = ys.length
  | [], [], _ => rfl
  | [], _ :: _, h => by simp [sameExpressions] at h
  | _ :: _, [], h => by simp [sameExpressions] at h
  | x :: xs, y :: ys, h => by
    simp only [sameExpressions, Bool.and_eq_true] at h
    rw [List.length_cons, List.length_cons, length_of_sameExpressions h.2]

theorem length_of_sameElements : {xs ys : List (Option Expression)} → sameElements xs ys = true →
    xs.length = ys.length
  | [], [], _ => rfl
  | [], _ :: _, h => by simp [sameElements] at h
  | some _ :: _, [], h | none :: _, [], h => by simp [sameElements] at h
  | some _ :: _, none :: _, h | none :: _, some _ :: _, h => by simp [sameElements] at h
  | some _ :: xs, some _ :: ys, h => by
    simp only [sameElements, Bool.and_eq_true] at h
    rw [List.length_cons, List.length_cons, length_of_sameElements h.2]
  | none :: xs, none :: ys, h => by
    simp only [sameElements] at h
    rw [List.length_cons, List.length_cons, length_of_sameElements h]

/-- There is no code for the place of what is none. -/
theorem Expression.compileReference_of_isReference_eq_false {x : Expression}
    (value : x.isReference = false) (create : Bool) : x.compileReference create = pure () := by
  cases x with
  | name text => cases value
  | member object name => cases value
  | index object key => cases value
  | _ => simp [Expression.compileReference, Expression.lowerReference]

/-- What a call and a construction have in common. -/
theorem matching_application {f g : Expression} {xs ys : List Expression} (equal : f.same g = true)
    (length : xs.length = ys.length) (value : Matching n f.compile g.compile)
    (place : Matching n (f.compileReference false) (g.compileReference false))
    (arguments : Matching n (compileExpressions xs) (compileExpressions ys)) (named plain : Op) :
    Matching n
      (do
        if f.isReference then f.compileReference false else f.compile
        compileExpressions xs
        emitCount (if f.isReference then named else plain) xs.length)
      (do
        if g.isReference then g.compileReference false else g.compile
        compileExpressions ys
        emitCount (if g.isReference then named else plain) ys.length) := by
  rw [Expression.isReference_of_same equal, length]
  split
  · exact place.bind fun _ => arguments.bind fun _ => matching_emitCount _ _
  · exact value.bind fun _ => arguments.bind fun _ => matching_emitCount _ _

mutual

/-- Equal expressions compile alike. -/
theorem Expression.matching_compile : (x y : Expression) → x.same y = true →
    Matching n x.compile y.compile
  | .literal v, y, h => by
    cases y with
    | literal w =>
      exact Literal.matching_compile (by simpa [Expression.same] using h)
    | _ => simp only [Expression.same, Bool.false_eq_true] at h
  | .name s, y, h => by
    cases y with
    | name t =>
      obtain rfl : s = t := by simpa [Expression.same] using h
      exact matching_emitName _ s
    | _ => simp only [Expression.same, Bool.false_eq_true] at h
  | .thisValue, y, h => by
    cases y with
    | thisValue =>
      exact matching_emitOp _
    | _ => simp only [Expression.same, Bool.false_eq_true] at h
  | .function f ps b, y, h => by
    cases y with
    | function g qs c =>
      exact matching_emitWith _ (by simpa [Expression.same, Operand.same, Function.same] using h)
    | _ => simp only [Expression.same, Bool.false_eq_true] at h
  | .array xs, y, h => by
    cases y with
    | array ys =>
      rw [Expression.same] at h
      rw [Expression.compile, Expression.compile, Expression.lower, Expression.lower,
        length_of_sameElements h]
      exact (elements_matching xs ys h).bind fun _ => matching_emitCount _ _
    | _ => simp only [Expression.same, Bool.false_eq_true] at h
  | .object ps, y, h => by
    cases y with
    | object qs =>
      rw [Expression.same] at h
      exact (matching_emitOp _).bind fun _ => properties_matching ps qs h
    | _ => simp only [Expression.same, Bool.false_eq_true] at h
  | .member o s, y, h => by
    cases y with
    | member p t =>
      simp only [Expression.same, Bool.and_eq_true, beq_iff_eq] at h
      obtain ⟨object, rfl⟩ := h
      exact (o.matching_compile p object).bind fun _ => matching_emitName _ _
    | _ => simp only [Expression.same, Bool.false_eq_true] at h
  | .index o k, y, h => by
    cases y with
    | index p l =>
      simp only [Expression.same, Bool.and_eq_true] at h
      refine (o.matching_compile p h.1).bind fun _ => ?_
      exact (k.matching_compile l h.2).bind fun _ => matching_emitOp _
    | _ => simp only [Expression.same, Bool.false_eq_true] at h
  | .call f xs, y, h => by
    cases y with
    | call g ys =>
      simp only [Expression.same, Bool.and_eq_true] at h
      exact matching_application h.1 (length_of_sameExpressions h.2) (f.matching_compile g h.1)
        (f.matching_compileReference g h.1 false) (expressions_matching xs ys h.2) _ _
    | _ => simp only [Expression.same, Bool.false_eq_true] at h
  | .construct f xs, y, h => by
    cases y with
    | construct g ys =>
      simp only [Expression.same, Bool.and_eq_true] at h
      exact matching_application h.1 (length_of_sameExpressions h.2) (f.matching_compile g h.1)
        (f.matching_compileReference g h.1 false) (expressions_matching xs ys h.2) _ _
    | _ => simp only [Expression.same, Bool.false_eq_true] at h
  | .unary op x, y, h => by
    cases y with
    | unary oq y =>
      simp only [Expression.same, Bool.and_eq_true, beq_iff_eq] at h
      obtain ⟨rfl, equal⟩ := h
      have value := x.matching_compile y equal
      have place := x.matching_compileReference y equal false
      cases op with
      | delete =>
        rw [Expression.compile, Expression.compile, Expression.lower, Expression.lower,
          Expression.isReference_of_same equal]
        split
        · exact place.bind fun _ => matching_emitOp _
        · exact value.bind fun _ => matching_misuse _
      | typeof =>
        rw [Expression.compile, Expression.compile, Expression.lower, Expression.lower,
          Expression.isReference_of_same equal]
        split
        · exact place.bind fun _ => matching_emitOp _
        · exact value.bind fun _ => matching_emitOp _
      | _ => exact value.bind fun _ => matching_emitOp _
    | _ => simp only [Expression.same, Bool.false_eq_true] at h
  | .update op x b, y, h => by
    cases y with
    | update oq y c =>
      simp only [Expression.same, Bool.and_eq_true, beq_iff_eq] at h
      obtain ⟨⟨rfl, equal⟩, rfl⟩ := h
      rw [Expression.compile, Expression.compile, Expression.lower, Expression.lower,
        Expression.isReference_of_same equal]
      split
      · exact (x.matching_compileReference y equal false).bind fun _ => matching_emitOp _
      · exact (x.matching_compile y equal).bind fun _ => matching_misuse _
    | _ => simp only [Expression.same, Bool.false_eq_true] at h
  | .binary op x₁ x₂, y, h => by
    cases y with
    | binary oq y₁ y₂ =>
      simp only [Expression.same, Bool.and_eq_true, beq_iff_eq] at h
      obtain ⟨⟨rfl, left⟩, right⟩ := h
      refine (x₁.matching_compile y₁ left).bind fun _ => ?_
      exact (x₂.matching_compile y₂ right).bind fun _ => matching_emitOp _
    | _ => simp only [Expression.same, Bool.false_eq_true] at h
  | .logical op x₁ x₂, y, h => by
    cases y with
    | logical oq y₁ y₂ =>
      simp only [Expression.same, Bool.and_eq_true, beq_iff_eq] at h
      obtain ⟨⟨rfl, left⟩, right⟩ := h
      refine (x₁.matching_compile y₁ left).bind fun _ =>
        (matching_reserveJump _).bind fun skip => ?_
      exact (x₂.matching_compile y₂ right).bind fun _ => matching_patchJump skip
    | _ => simp only [Expression.same, Bool.false_eq_true] at h
  | .assignment op x₁ x₂, y, h => by
    cases y with
    | assignment oq y₁ y₂ =>
      simp only [Expression.same, Bool.and_eq_true, beq_iff_eq] at h
      obtain ⟨⟨rfl, target⟩, value⟩ := h
      have right := x₂.matching_compile y₂ value
      rw [Expression.compile, Expression.compile, Expression.lower, Expression.lower,
        Expression.isReference_of_same target]
      split
      · refine (x₁.matching_compileReference y₁ target true).bind fun _ => ?_
        cases op.binary? with
        | none => exact right.bind fun _ => matching_emitOp _
        | some binary =>
          refine (matching_emitOp _).bind fun _ => right.bind fun _ => ?_
          exact (matching_emitOp _).bind fun _ => matching_emitOp _
      · exact (x₁.matching_compile y₁ target).bind fun _ => matching_misuse _
    | _ => simp only [Expression.same, Bool.false_eq_true] at h
  | .conditional t x₁ x₂, y, h => by
    cases y with
    | conditional u y₁ y₂ =>
      simp only [Expression.same, Bool.and_eq_true] at h
      obtain ⟨⟨test, consequent⟩, alternate⟩ := h
      refine (t.matching_compile u test).bind fun _ => ?_
      refine (matching_reserveJump _).bind fun toAlternate => ?_
      refine (x₁.matching_compile y₁ consequent).bind fun _ => ?_
      refine (matching_reserveJump _).bind fun toEnd => ?_
      refine (matching_patchJump toAlternate).bind fun _ => (matching_emitOp _).bind fun _ => ?_
      exact (x₂.matching_compile y₂ alternate).bind fun _ => matching_patchJump toEnd
    | _ => simp only [Expression.same, Bool.false_eq_true] at h
  | .sequence xs, y, h => by
    cases y with
    | sequence ys =>
      rw [Expression.same] at h
      exact sequence_matching xs ys h
    | _ => simp only [Expression.same, Bool.false_eq_true] at h
termination_by structural x => x

/-- So do equal places. -/
theorem Expression.matching_compileReference : (x y : Expression) → x.same y = true →
    (create : Bool) → Matching n (x.compileReference create) (y.compileReference create)
  | .name s, y, h, create => by
    cases y with
    | name t =>
      obtain rfl : s = t := by simpa [Expression.same] using h
      refine (matching_intern s).bind fun index => matching_emit ?_
      simp [Instruction.same, Operand.same?, Operand.same]
    | _ => simp only [Expression.same, Bool.false_eq_true] at h
  | .member o s, y, h, create => by
    cases y with
    | member p t =>
      simp only [Expression.same, Bool.and_eq_true, beq_iff_eq] at h
      obtain ⟨object, rfl⟩ := h
      refine (o.matching_compile p object).bind fun _ => ?_
      exact (matching_emitName _ s).bind fun _ => matching_emitOp _
    | _ => simp only [Expression.same, Bool.false_eq_true] at h
  | .index o k, y, h, create => by
    cases y with
    | index p l =>
      simp only [Expression.same, Bool.and_eq_true] at h
      refine (o.matching_compile p h.1).bind fun _ => ?_
      exact (k.matching_compile l h.2).bind fun _ => matching_emitOp _
    | _ => simp only [Expression.same, Bool.false_eq_true] at h
  | .literal _, y, h, _ | .thisValue, y, h, _ | .function .., y, h, _ | .array _, y, h, _
  | .object _, y, h, _ | .call .., y, h, _ | .construct .., y, h, _ | .unary .., y, h, _
  | .update .., y, h, _ | .binary .., y, h, _ | .logical .., y, h, _ | .assignment .., y, h, _
  | .conditional .., y, h, _ | .sequence _, y, h, _ => by
    have value := Expression.isReference_of_same h
    rw [Expression.compileReference_of_isReference_eq_false rfl,
      Expression.compileReference_of_isReference_eq_false value.symm]
    exact matching_pure ()
termination_by structural x => x

theorem expressions_matching : (xs ys : List Expression) → sameExpressions xs ys = true →
    Matching n (compileExpressions xs) (compileExpressions ys)
  | [], ys, h => by
    cases ys with
    | nil =>
      exact matching_pure ()
    | cons y ys => simp [sameExpressions] at h
  | x :: xs, ys, h => by
    cases ys with
    | nil => simp [sameExpressions] at h
    | cons y ys =>
      simp only [sameExpressions, Bool.and_eq_true] at h
      exact (x.matching_compile y h.1).bind fun _ => expressions_matching xs ys h.2
termination_by structural xs => xs

theorem sequence_matching : (xs ys : List Expression) → sameExpressions xs ys = true →
    Matching n (compileSequence xs) (compileSequence ys)
  | [], ys, h => by
    cases ys with
    | nil =>
      exact matching_emitOp _
    | cons y ys => simp [sameExpressions] at h
  | [x], ys, h => by
    match ys, h with
    | [], h => simp [sameExpressions] at h
    | [y], h =>
      simp only [sameExpressions, Bool.and_eq_true] at h
      exact x.matching_compile y h.1
    | _ :: _ :: _, h => simp [sameExpressions] at h
  | x :: next :: rest, ys, h => by
    match ys, h with
    | [], h => simp [sameExpressions] at h
    | [y], h => simp [sameExpressions] at h
    | y :: next' :: rest', h =>
      rw [sameExpressions, Bool.and_eq_true] at h
      refine (x.matching_compile y h.1).bind fun _ => (matching_emitOp _).bind fun _ => ?_
      exact sequence_matching (next :: rest) (next' :: rest') h.2
termination_by structural xs => xs

theorem elements_matching : (xs ys : List (Option Expression)) → sameElements xs ys = true →
    Matching n (compileElements xs) (compileElements ys)
  | [], ys, h => by
    cases ys with
    | nil =>
      exact matching_pure ()
    | cons y ys => simp [sameElements] at h
  | some x :: xs, ys, h => by
    match ys, h with
    | [], h => simp [sameElements] at h
    | none :: ys, h => simp [sameElements] at h
    | some y :: ys, h =>
      simp only [sameElements, Bool.and_eq_true] at h
      exact (x.matching_compile y h.1).bind fun _ => elements_matching xs ys h.2
  | none :: xs, ys, h => by
    match ys, h with
    | [], h => simp [sameElements] at h
    | some y :: ys, h => simp [sameElements] at h
    | none :: ys, h =>
      simp only [sameElements] at h
      exact (matching_emitOp _).bind fun _ => elements_matching xs ys h
termination_by structural xs => xs

theorem properties_matching : (ps qs : List (Property Expression)) → sameProperties ps qs = true →
    Matching n (compileProperties ps) (compileProperties qs)
  | [], qs, h => by
    cases qs with
    | nil =>
      exact matching_pure ()
    | cons q qs => simp [sameProperties] at h
  | ⟨k, x⟩ :: ps, qs, h => by
    cases qs with
    | nil => simp [sameProperties] at h
    | cons q qs =>
      obtain ⟨l, y⟩ := q
      simp only [sameProperties, Bool.and_eq_true] at h
      obtain ⟨⟨key, value⟩, rest⟩ := h
      rw [compileProperties, compileProperties, lowerProperties, lowerProperties,
        PropertyKey.text_eq_of_same key]
      refine (x.matching_compile y value).bind fun _ => (matching_emitName _ _).bind fun _ => ?_
      exact properties_matching ps qs rest
termination_by structural ps => ps

end

theorem declarators_matching : (ds es : List (Declarator Expression)) →
    sameDeclarators ds es = true → Matching n (compileDeclarators ds) (compileDeclarators es)
  | [], es, h => by
    cases es with
    | nil => exact matching_emitOp _
    | cons e es => simp [sameDeclarators] at h
  | ⟨s, x⟩ :: ds, es, h => by
    cases es with
    | nil => simp [sameDeclarators] at h
    | cons e es =>
      obtain ⟨t, y⟩ := e
      simp only [sameDeclarators, Bool.and_eq_true, beq_iff_eq] at h
      obtain ⟨⟨rfl, init⟩, rest⟩ := h
      have later := declarators_matching ds es rest
      match x, y, init with
      | none, none, _ => exact later
      | none, some y, init => simp [sameExpression?] at init
      | some x, none, init => simp [sameExpression?] at init
      | some x, some y, init =>
        refine (x.matching_compile y (by simpa [sameExpression?] using init)).bind fun _ => ?_
        exact (matching_emitName _ s).bind fun _ => later

theorem LoopHead.matching_compile {a b : LoopHead Expression} (h : sameLoopHead a b = true) :
    Matching n a.compile b.compile := by
  cases a with
  | declaration ds =>
    cases b with
    | declaration es => exact declarators_matching ds es (by simpa [sameLoopHead] using h)
    | expression y => simp [sameLoopHead] at h
  | expression x =>
    cases b with
    | declaration es => simp [sameLoopHead] at h
    | expression y => exact x.matching_compile y (by simpa [sameLoopHead] using h)

theorem dropped_matching {x y : Option Expression} (h : sameExpression? x y = true) :
    Matching n (compileDropped x) (compileDropped y) := by
  match x, y, h with
  | none, none, _ => exact matching_pure ()
  | none, some y, h => simp [sameExpression?] at h
  | some x, none, h => simp [sameExpression?] at h
  | some x, some y, h =>
    exact (x.matching_compile y (by simpa [sameExpression?] using h)).bind fun _ =>
      matching_emitOp _

/-- The rounds of a `for` compile alike. -/
theorem rounds_matching {t u v w : Option Expression} {b c : Compile Unit}
    (test : sameExpression? t u = true) (update : sameExpression? v w = true)
    (body : Matching n b c) :
    Matching n (lowerRounds .direct t v b) (lowerRounds .direct u w c) := by
  refine (matching_emitOp _).bind fun _ => matching_position.bind fun start => ?_
  have dropped := dropped_matching (n := n) update
  match t, u, test with
  | none, some u, test => simp [sameExpression?] at test
  | some t, none, test => simp [sameExpression?] at test
  | none, none, _ =>
    refine (matching_emitOp _).bind fun _ => body.bind fun _ => dropped.bind fun _ => ?_
    exact matching_jumpBack start
  | some t, some u, test =>
    refine (t.matching_compile u (by simpa [sameExpression?] using test)).bind fun _ => ?_
    refine (matching_reserveJump _).bind fun toEnd => (matching_emitOp _).bind fun _ => ?_
    refine body.bind fun _ => dropped.bind fun _ => (matching_jumpBack start).bind fun _ => ?_
    exact matching_patchJump toEnd

theorem for_matching {i j : Option (LoopHead Expression)} {t u v w : Option Expression}
    {b c : Compile Unit} (init : sameLoopHead? i j = true) (test : sameExpression? t u = true)
    (update : sameExpression? v w = true) (body : Matching n b c) :
    Matching n (lowerFor .direct i t v b) (lowerFor .direct j u w c) := by
  have rounds := rounds_matching test update body
  match i, j, init with
  | none, none, _ => exact rounds
  | none, some j, init => simp [sameLoopHead?] at init
  | some i, none, init => simp [sameLoopHead?] at init
  | some i, some j, init =>
    have head := LoopHead.matching_compile (n := n) (by simpa [sameLoopHead?] using init)
    exact head.bind fun _ => (matching_emitOp .pop).bind fun _ => rounds

/-- Equal statements both have code of their own, or neither has. -/
theorem Statement.isForeign_of_same {s t : Statement} (h : s.same t = true) :
    s.isForeign = t.isForeign := by
  cases s <;> cases t <;> first | rfl | simp only [Statement.same, Bool.false_eq_true] at h

mutual

/-- Equal statements compile alike. -/
theorem Statement.matching_compile : (s t : Statement) → s.same t = true →
    Matching n s.compile t.compile
  | .block b, t, h => by
    cases t with
    | block c =>
      rw [Statement.same] at h
      exact block_matching b c h
    | _ => simp only [Statement.same, Bool.false_eq_true] at h
  | .expression x, t, h => by
    cases t with
    | expression y =>
      rw [Statement.same] at h
      exact x.matching_compile y h
    | _ => simp only [Statement.same, Bool.false_eq_true] at h
  | .declaration ds, t, h => by
    cases t with
    | declaration es =>
      rw [Statement.same] at h
      exact declarators_matching ds es h
    | _ => simp only [Statement.same, Bool.false_eq_true] at h
  | .ifElse x a b, t, h => by
    cases t with
    | ifElse y c d =>
      simp only [Statement.same, Bool.and_eq_true] at h
      obtain ⟨⟨test, consequent⟩, alternate⟩ := h
      refine (x.matching_compile y test).bind fun _ => ?_
      refine (matching_reserveJump _).bind fun toAlternate => ?_
      refine (a.matching_compile c consequent).bind fun _ => ?_
      refine (matching_reserveJump _).bind fun toEnd =>
        (matching_patchJump toAlternate).bind fun _ => ?_
      exact (alternate_matching b d alternate).bind fun _ => matching_patchJump toEnd
    | _ => simp only [Statement.same, Bool.false_eq_true] at h
  | .whileLoop x b, t, h => by
    cases t with
    | whileLoop y c =>
      have equal := h
      simp only [Statement.same, Bool.and_eq_true] at h
      refine matching_loop equal rfl ?_
      refine (matching_emitOp _).bind fun _ => matching_position.bind fun start => ?_
      refine (x.matching_compile y h.1).bind fun _ => (matching_reserveJump _).bind fun toEnd => ?_
      refine (matching_emitOp _).bind fun _ => (b.matching_compile c h.2).bind fun _ => ?_
      exact (matching_jumpBack start).bind fun _ => matching_patchJump toEnd
    | _ => simp only [Statement.same, Bool.false_eq_true] at h
  | .doWhile b x, t, h => by
    cases t with
    | doWhile c y =>
      have equal := h
      simp only [Statement.same, Bool.and_eq_true] at h
      refine matching_loop equal rfl ?_
      refine matching_position.bind fun start => (b.matching_compile c h.1).bind fun _ => ?_
      refine (x.matching_compile y h.2).bind fun _ => (matching_reserveJump _).bind fun toEnd => ?_
      refine (matching_emitOp _).bind fun _ => (matching_jumpBack start).bind fun _ => ?_
      exact matching_patchJump toEnd
    | _ => simp only [Statement.same, Bool.false_eq_true] at h
  | .forLoop i x u b, t, h => by
    cases t with
    | forLoop j y v c =>
      have equal := h
      simp only [Statement.same, Bool.and_eq_true] at h
      obtain ⟨⟨⟨init, test⟩, update⟩, body⟩ := h
      exact matching_loop equal rfl (for_matching init test update (b.matching_compile c body))
    | _ => simp only [Statement.same, Bool.false_eq_true] at h
  | .empty, t, h => by
    cases t with
    | empty =>
      exact matching_emitOp _
    | _ => simp only [Statement.same, Bool.false_eq_true] at h
  | .forIn .., t, h | .ret .., t, h | .breakTo .., t, h | .continueTo .., t, h | .throw .., t, h
  | .tryCatch .., t, h | .switch .., t, h | .withObject .., t, h | .labeled .., t, h
  | .function .., t, h => by
    have foreign := Statement.isForeign_of_same h
    rw [Statement.compile_of_isForeign rfl, Statement.compile_of_isForeign foreign.symm]
    exact matching_escape h
termination_by structural s => s

theorem block_matching : (b c : List Statement) → sameStatements b c = true →
    Matching n (compileBlock b) (compileBlock c)
  | [], c, h => by
    cases c with
    | nil =>
      exact matching_emitOp _
    | cons t c => simp [sameStatements] at h
  | [s], c, h => by
    match c, h with
    | [], h => simp [sameStatements] at h
    | [t], h =>
      simp only [sameStatements, Bool.and_eq_true] at h
      exact s.matching_compile t h.1
    | _ :: _ :: _, h => simp [sameStatements] at h
  | s :: next :: rest, c, h => by
    match c, h with
    | [], h => simp [sameStatements] at h
    | [t], h => simp [sameStatements] at h
    | t :: next' :: rest', h =>
      rw [sameStatements, Bool.and_eq_true] at h
      refine (s.matching_compile t h.1).bind fun _ => (matching_emitOp _).bind fun _ => ?_
      exact block_matching (next :: rest) (next' :: rest') h.2
termination_by structural b => b

theorem alternate_matching : (a b : Option Statement) → sameStatement? a b = true →
    Matching n (compileAlternate a) (compileAlternate b)
  | none, b, h => by
    cases b with
    | none =>
      exact matching_emitOp _
    | some t => simp [sameStatement?] at h
  | some s, b, h => by
    cases b with
    | none => simp [sameStatement?] at h
    | some t =>
      rw [sameStatement?] at h
      exact s.matching_compile t h
termination_by structural a => a

end

end Trees

end StackScript
