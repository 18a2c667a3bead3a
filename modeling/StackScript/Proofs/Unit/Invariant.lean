import StackScript.Proofs.Compile.Lowering
import StackScript.Proofs.Unit.Isolated

/-!
# Invariants of code and names

What a single step of compiling cannot destroy holds of a unit at every time, however compiling
ended before: when memory ran out in the middle of a tree, when a loop was taken back, when a tree
was given up. The steps are few. An instruction is added that refers to no name and is no jump, or
one that refers to the name that was added last; a jump is added that does not know its target, or
one that leads back; a jump is patched.
-/

namespace StackScript

open Compile

/-- A property of code and names that the steps of compiling keep. -/
structure Invariant (I : List Instruction → List String → Prop) : Prop where
  fixed : ∀ {code names} {i : Instruction}, I code names → i.isFixed = true → i.handles = [] →
    I (code ++ [i]) names
  ret : ∀ {code names}, I code names → I (code ++ [{ op := .ret }]) names
  /-- A name is added, and memory runs out before the instruction is. -/
  interned : ∀ {code names} (text : String), I code names → I code (names ++ [text])
  named : ∀ {code names} {op : Op} (text : String) (extra : Option Operand),
    I code names → op.goesOn = true →
    extra.bind Operand.handle? = none →
    I (code ++ [{ op := op, operand := some (.name names.length), extra := extra }])
      (names ++ [text])
  reserved : ∀ {code names} {op : Op}, I code names → op.isJump = true →
    I (code ++ [{ op := op, operand := some .pending }]) names
  patched : ∀ {code names} (offset : Nat), I code names →
    I (code.modify offset fun i => { i with operand := some (.jump code.length) }) names
  /-- A jump back to where the code ended at an earlier time. -/
  back : ∀ {code names earlier names'}, I earlier names' → I code names → earlier <+: code →
    I (code ++ [.jumpTo .jump earlier.length]) names

namespace Invariant

variable {I : List Instruction → List String → Prop} (inv : Invariant I)

include inv

/-- Names that nothing refers to do no harm. -/
theorem more_names {code : List Instruction} {names : List String} (h : I code names)
    (texts : List String) :
    I code (names ++ texts) := by
  induction texts generalizing names with
  | nil =>
    rw [List.append_nil]
    exact h
  | cons text texts ih =>
    rw [List.append_cons]
    exact ih (inv.interned text h)

theorem of_prefix {code : List Instruction} {names names' : List String} (h : I code names)
    (more : names <+: names') :
    I code names' := by
  obtain ⟨texts, rfl⟩ := more
  exact inv.more_names h texts

/-- When the code that was added to a draft is taken back, what stands then stood before. -/
theorem rewound {d e : Draft} (h : I d.written d.added) (grown : d.Extends e) :
    I (e.code.rewind d.code.length).instructions.toList e.added := by
  have back : d.written = e.written.take d.written.length :=
    List.prefix_iff_eq_take.mp grown.written
  rw [toList_rewind, Draft.length_code]
  show I (e.written.take d.written.length) e.added
  rw [← back]
  exact inv.of_prefix h grown.added

end Invariant

namespace Compile

/-- Started from what extends a draft, the step keeps what was there, and the invariant, however it
    ends. -/
structure Maintains (I : List Instruction → List String → Prop) {α : Type} (d : Draft)
    (step : Compile α)
    (result : α → Prop) : Prop where
  extending : Extending d step result
  holds : ∀ e, d.Extends e → I e.written e.added → I (left (step e)).written (left (step e)).added

variable {I : List Instruction → List String → Prop} {α β : Type} {d : Draft}

/-- One step after another. -/
theorem Maintains.bind {step : Compile α} {rest : α → Compile β} {mid : α → Prop}
    {result : β → Prop}
    (first : Maintains I d step mid) (second : ∀ a, mid a → Maintains I d (rest a) result) :
    Maintains I d (step >>= rest) result where
  extending := first.extending.bind fun a h => (second a h).extending
  holds e extends₁ h := by
    have grown := first.extending e extends₁
    have held := first.holds e extends₁ h
    show I (left (EStateM.bind step rest e)).written (left (EStateM.bind step rest e)).added
    unfold EStateM.bind
    cases hstep : step e with
    | ok a f =>
      rw [hstep] at grown held
      exact (second a grown.1).holds f grown.2 held
    | error halt f =>
      rw [hstep] at held
      exact held

theorem maintains_pure {a : α} {result : α → Prop} (h : result a) :
    Maintains I d (pure a : Compile α) result :=
  ⟨extending_pure h, fun _ _ held => held⟩

/-- An instruction has been added, or there was no room for it. -/
theorem left_emit (i : Instruction) (e : Draft) :
    (left (emit i e)).added = e.added ∧
      ((left (emit i e)).written = e.written ++ [i] ∨ (left (emit i e)).written = e.written) := by
  have met : Meets (emit i) e (fun _ f => e.Grows [i] [] f) fun _ => True := meets_emit i
  by_cases room : e.code.hasRoom = true
  · simp only [Meets, emit, if_pos room] at met ⊢
    exact ⟨met.added.trans (List.append_nil _), .inl met.written⟩
  · simp only [emit, if_neg room]
    exact ⟨rfl, .inr rfl⟩

/-- An instruction that keeps the invariant. -/
theorem maintains_emit {i : Instruction} (h : ∀ e : Draft, d.Extends e → I e.written e.added →
    I (e.written ++ [i]) e.added) : Maintains I d (emit i) fun _ => True where
  extending := extending_emit i
  holds e extends₁ held := by
    obtain ⟨added, written | written⟩ := left_emit i e
    · rw [added, written]
      exact h e extends₁ held
    · rw [added, written]
      exact held

theorem maintains_position : Maintains I d position fun offset => d.written.length ≤ offset :=
  ⟨extending_position, fun _ _ held => held⟩

theorem maintains_copy (text : String) : Maintains I d (copy text) fun _ => True where
  extending := extending_copy text
  holds e _ held := by
    unfold copy
    cases e.arena.copy text with
    | ok copied => exact held
    | error region => exact held

section Steps

variable (inv : Invariant I)

include inv

theorem maintains_fixed {i : Instruction} (fixed : i.isFixed = true) (nameless : i.handles = []) :
    Maintains I d (emit i) fun _ => True :=
  maintains_emit fun _ _ held => inv.fixed held fixed nameless

/-- The target of a jump is the end of the code. -/
theorem maintains_patchJump {offset : Nat} (behind : d.written.length ≤ offset) :
    Maintains I d (patchJump offset) fun _ => True where
  extending := extending_patchJump behind
  holds e _ held := by
    show I (Draft.written { e with code := e.code.setOperand offset (some (.jump e.code.length)) })
        e.added
    rw [Draft.written_setOperand, Draft.length_code]
    exact inv.patched offset held

theorem maintains_reserveJump {op : Op} (jumps : op.isJump = true) :
    Maintains I d (reserveJump op) fun offset => d.written.length ≤ offset := by
  apply maintains_position.bind
  intro offset behind
  apply (maintains_emit fun _ _ held => inv.reserved held jumps).bind
  intro _ _
  exact maintains_pure behind

/-- A name, and the instruction that refers to it. Each of the two may run out of memory. -/
theorem maintains_named {op : Op} (text : String) {extra : Option Operand}
    (goesOn : op.goesOn = true)
    (nameless : extra.bind Operand.handle? = none) :
    Maintains I d (do
      let n ← intern text
      emit { op := op, operand := some (.name n), extra := extra }) fun _ => True where
  extending := (extending_intern text).bind fun _ _ => extending_emit _
  holds e _ held := by
    show I (left (EStateM.bind _ _ e)).written (left (EStateM.bind _ _ e)).added
    have met : Meets (intern text) e (fun n f => n = e.added.length ∧ e.Grows [] [text] f) fun _ =>
        True :=
      meets_intern text
    unfold EStateM.bind
    by_cases room : e.names.hasRoom = true
    · simp only [Meets, intern, if_pos room] at met ⊢
      obtain ⟨place, grown⟩ := met
      have interned := inv.interned text held
      have named := inv.named text extra held goesOn nameless
      rw [← place, ← grown.added] at named
      rw [← grown.added] at interned
      obtain ⟨added, written | written⟩ := left_emit
        { op := op, operand := some (.name e.names.length), extra := extra }
        (reportGrowth { e with names := e.names.push text } e.names.growth?)
      · rw [added, written, grown.written, List.append_nil]
        exact named
      · rw [added, written, grown.written, List.append_nil]
        exact interned
    · -- room may have been made for the name, which is no new name
      simp only [intern, if_neg room]
      show I (reportGrowth _ _).written (reportGrowth _ _).added
      rw [Draft.written, Draft.added, code_reportGrowth, names_reportGrowth,
        NamePool.entries_makeRoom]
      exact held

/-- A jump back leads to where the invariant held. -/
theorem maintains_back (held : I d.written d.added) :
    Maintains I d (emitWith .jump (.jump d.code.length)) fun _ => True := by
  apply maintains_emit
  intro f extends₂ held'
  rw [Draft.length_code]
  exact inv.back held held' extends₂.written

theorem maintains_escape (tree : Statement) : Maintains I d (escape tree) fun _ => True where
  extending := keeps_escape tree d
  holds e extends₁ held := by
    unfold escape
    by_cases escapes : e.escapes = true
    · rw [if_pos escapes]
      exact (maintains_fixed inv rfl rfl).holds e extends₁ held
    · rw [if_neg escapes]
      exact held

/-- What is taken back was added since the loop began; only names are left. -/
theorem maintains_loop (tree : Statement) {body : Compile Unit}
    (h : ∀ d, Maintains I d body fun _ => True) :
    Maintains I d (loop tree body) fun _ => True where
  extending := keeps_loop tree (fun d => (h d).extending) d
  holds e extends₁ held := by
    let inner : Draft := { e with escapes := false }
    have grown := (h inner).extending inner (.refl inner)
    have after := (h inner).holds inner (.refl inner) held
    unfold loop
    cases hbody : body inner with
    | ok _ f =>
      rw [hbody] at after
      exact after
    | error halt f =>
      rw [hbody] at after grown
      cases halt with
      | outOfMemory region => exact after
      | needsWalker =>
        apply (maintains_escape inv tree).holds _ (.refl _)
        exact inv.rewound (d := inner) held grown

/-- An invariant is kept whatever is compiled, and however that ends. -/
theorem maintains : Assembler.direct.Structured fun _ step =>
    ∀ d, Maintains I d step fun _ => True where
  nothing _ := maintains_pure trivial
  seq first second d := (first d).bind fun _ _ => second d
  emit fixed nameless _ := maintains_fixed inv fixed nameless
  named text _ goesOn nameless _ := maintains_named inv text goesOn nameless
  copied text _ _ rest d := (maintains_copy text).bind fun copied _ => rest copied d
  overflow _ := ⟨extending_throw _ _, fun _ _ held => held⟩
  skip jumps body d := by
    apply (maintains_reserveJump inv jumps).bind
    intro toEnd behind
    exact (body d).bind fun _ _ => maintains_patchJump inv behind
  branch _ _ _ _ _ jumps consequent alternate d := by
    apply (maintains_reserveJump inv jumps).bind
    intro toAlternate behind₁
    refine (consequent d).bind fun _ _ => (maintains_reserveJump inv rfl).bind ?_
    intro toEnd behind₂
    refine (maintains_patchJump inv behind₁).bind fun _ _ => ?_
    exact (alternate d).bind fun _ _ => maintains_patchJump inv behind₂
  cycle test body d := by
    refine ⟨keeps.cycle (fun d => (test d).extending) (fun d => (body d).extending) d, ?_⟩
    intro e _ held
    -- The target of the jump back is where the code ends now, so that the rounds are looked at from
    -- here on.
    have reserved : Maintains I e (reserveJump .jumpIfFalse) _ := maintains_reserveJump inv rfl
    have rounds := (test e).bind fun _ _ => reserved.bind fun _ behind =>
      (body e).bind fun _ _ => (maintains_back inv held).bind fun _ _ =>
        maintains_patchJump inv behind
    exact rounds.holds e (.refl e) held
  forever body d := by
    refine ⟨keeps.forever (fun d => (body d).extending) d, ?_⟩
    intro e _ held
    have rounds := (body e).bind fun _ _ => maintains_back inv held
    exact rounds.holds e (.refl e) held
  report _ _ := ⟨fun _ extends₁ => ⟨trivial, extends₁.reportGrowth (some _)⟩, fun _ _ held => held⟩
  escape tree _ := maintains_escape inv tree
  loop tree _ _ body _ := maintains_loop inv tree body
  ret _ := maintains_emit fun _ _ held => inv.ret held

end Steps

end Compile

/-! ## Units -/

namespace CodeUnit

variable {I : List Instruction → List String → Prop} (inv : Invariant I) {u : CodeUnit}

include inv

/-- The invariant holds after one call, whatever comes of it. -/
theorem compileOn_maintains (u : CodeUnit) (source : Source) {code : Code} {names : NamePool}
    (arena : Arena)
    (held : I code.instructions.toList names.entries.toList) :
    I (u.compileOn source code names arena).unit.instructions.toList
      (u.compileOn source code names arena).unit.pool := by
  let d : Draft := { code, names, arena, escapes := u.settings.allowEscape }
  have compiled := source.entry_related (maintains inv) d
  have grown := compiled.extending d (.refl d)
  have after := compiled.holds d (.refl d) held
  unfold compileOn
  simp only
  cases hstep : (do source.compile; emitOp .ret : Compile Unit) d with
  | ok _ e =>
    rw [hstep] at after
    exact after
  | error halt e =>
    rw [hstep] at after grown
    cases halt with
    | outOfMemory region => exact after
    | needsWalker => exact inv.rewound (d := d) held grown

/-- An invariant of the unit holds after a tree has been compiled, or could not be. -/
theorem compile_maintains (held : I u.instructions.toList u.pool) (source : Source)
    (arena : Arena) :
    I (u.compile source arena).unit.instructions.toList (u.compile source arena).unit.pool := by
  unfold compile
  cases hcode : u.ensureCode with
  | error region => exact held
  | ok code =>
    have same := ensureCode_eq_ok hcode
    cases hnames : u.ensureNames with
    | error region =>
      show I code.instructions.toList u.pool
      rw [same]
      exact held
    | ok names =>
      apply compileOn_maintains inv
      rw [same, ensureNames_eq_ok hnames]
      exact held

/-- The invariant holds after any calls. -/
theorem after_maintains (held : I u.instructions.toList u.pool) (calls : List (Source × Arena)) :
    I (u.after calls).instructions.toList (u.after calls).pool := by
  induction calls generalizing u with
  | nil => exact held
  | cons call calls ih =>
    obtain ⟨source, arena⟩ := call
    exact ih (compile_maintains inv held source arena)

end CodeUnit

end StackScript
