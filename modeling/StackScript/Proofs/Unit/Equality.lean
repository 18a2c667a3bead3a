import Mathlib.Data.List.Forall2
import StackScript.Proofs.Compile.Equality
import StackScript.Proofs.Unit.Isolated

/-!
# Equal sources

From the same state of a unit, equal trees are compiled with the same answer, to equal code and the
same names, also if they are given up or memory runs out in the middle.
-/

namespace StackScript

open Compile

/-! ## Lists of instructions -/

/-- Lists of instructions are equal when the instructions are, one by one. -/
abbrev Instruction.SameLists : List Instruction → List Instruction → Prop :=
  List.Forall₂ fun i j => i.same j = true

/-- The instructions behind the offset are equal one by one. -/
theorem Code.Matches.sameLists_drop {n : Nat} {c c' : Code} (h : c.Matches n c') :
    Instruction.SameLists (c.instructions.toList.drop n) (c'.instructions.toList.drop n) := by
  have length : c.instructions.toList.length = c'.instructions.toList.length := h.length
  rw [Instruction.SameLists, List.forall₂_iff_get]
  refine ⟨by rw [List.length_drop, List.length_drop, length], ?_⟩
  intro k inside inside'
  have here := h.new (n + k) (Nat.le_add_right n k)
  rw [← Array.getElem?_toList, ← Array.getElem?_toList, ← List.getElem?_drop, ← List.getElem?_drop,
    List.getElem?_eq_getElem inside, List.getElem?_eq_getElem inside'] at here
  cases here with
  | some same => exact same

/-! ## Sources -/

namespace Source

/-- Sources are equal when they are of one kind and hold equal trees. -/
def same : Source → Source → Bool
  | .expression x => fun | .expression y => x.same y | _ => false
  | .statements b asBlock => fun
    | .statements c asBlock' => sameStatements b c && asBlock == asBlock'
    | _ => false

theorem same_ofProgram (p q : Program) : (ofProgram p).same (ofProgram q) = p.same q := by
  simp [ofProgram, same, Program.same]

variable {n : Nat} {a b : Source}

theorem kind_of_same (h : a.same b = true) : a.kind = b.kind := by
  cases a <;> cases b <;> first | rfl | simp [same] at h

theorem length_of_sameStatements : {b c : List Statement} → sameStatements b c = true →
    b.length = c.length
  | [], [], _ => rfl
  | [], _ :: _, h => by simp [sameStatements] at h
  | _ :: _, [], h => by simp [sameStatements] at h
  | s :: b, t :: c, h => by
    simp only [sameStatements, Bool.and_eq_true] at h
    rw [List.length_cons, List.length_cons, length_of_sameStatements h.2]

theorem matching_statements {b c : List Statement} (h : sameStatements b c = true)
    (asBlock : Bool) :
    Matching n (Source.statements b asBlock).compile (Source.statements c asBlock).compile := by
  have whole := block_matching (n := n) b c h
  match b, c, h with
  | [], [], _ => exact whole
  | [], _ :: _, h => simp [sameStatements] at h
  | [_], [], h => simp [sameStatements] at h
  | [_], _ :: _ :: _, h => simp [sameStatements] at h
  | _ :: _ :: _, [], h => simp [sameStatements] at h
  | _ :: _ :: _, [_], h => simp [sameStatements] at h
  | [s], [t], h =>
    simp only [sameStatements, Bool.and_eq_true] at h
    exact s.matching_compile t h.1
  | s :: next :: rest, t :: next' :: rest', h =>
    rw [sameStatements, Bool.and_eq_true] at h
    cases asBlock with
    | true => exact whole
    | false =>
      simp only [Source.compile, Source.lower, length_of_sameStatements h.2]
      exact (matching_report _).bind fun _ => s.matching_compile t h.1

theorem matching_compile (h : a.same b = true) : Matching n a.compile b.compile := by
  match a, b, h with
  | .expression x, .expression y, h => exact x.matching_compile y h
  | .expression x, .statements _ _, h => simp [same] at h
  | .statements _ _, .expression y, h => simp [same] at h
  | .statements body asBlock, .statements body' asBlock', h =>
    simp only [same, Bool.and_eq_true, beq_iff_eq] at h
    obtain ⟨equal, rfl⟩ := h
    exact matching_statements equal asBlock

theorem matching_entry (h : a.same b = true) :
    Matching n (do a.compile; emitOp .ret) (do b.compile; emitOp .ret) :=
  (matching_compile h).bind fun _ => matching_emitOp .ret

end Source

/-! ## Units -/

namespace CodeUnit

variable {a b : Source}

/-- Two answers of a unit that are the same but for numbers and trees in the code that was added to
    the unit. -/
structure AnswersAlike (u : CodeUnit) (c c' : Compiled) : Prop where
  result : c.result = c'.result
  names : c.unit.names = c'.unit.names
  arena : c.arena = c'.arena
  events : c.events = c'.events
  added : Instruction.SameLists (c.unit.instructions.toList.drop u.length)
    (c'.unit.instructions.toList.drop u.length)

theorem answersAlike_refl {u : CodeUnit} {c : Compiled}
    (unchanged : c.unit.instructions = u.instructions) :
    u.AnswersAlike c c where
  result := rfl
  names := rfl
  arena := rfl
  events := rfl
  added := by
    have nothing : u.instructions.toList.drop u.length = [] :=
      List.drop_eq_nil_of_le (Nat.le_of_eq Array.length_toList)
    rw [unchanged, nothing]
    exact .nil

theorem compileOn_alike (u : CodeUnit) (equal : a.same b = true) (code : Code) (names : NamePool)
    (arena : Arena) :
    { u with code := some code }.AnswersAlike (u.compileOn a code names arena)
      (u.compileOn b code names arena) := by
  let d : Draft := { code, names, arena, escapes := u.settings.allowEscape }
  have ends := Source.matching_entry equal d d d.matches_refl
  simp only [compileOn]
  cases ha : (do a.compile; emitOp .ret : Compile Unit) d with
  | ok _ e =>
    cases hb : (do b.compile; emitOp .ret : Compile Unit) d with
    | error halt' e' =>
      rw [ha, hb] at ends
      cases ends
    | ok _ e' =>
      rw [ha, hb] at ends
      obtain ⟨-, h⟩ := ends
      refine ⟨rfl, congrArg some h.names, h.arena, ?_, h.code.sameLists_drop⟩
      dsimp only
      rw [Source.kind_of_same equal, h.events, h.code.length]
  | error halt e =>
    cases hb : (do b.compile; emitOp .ret : Compile Unit) d with
    | ok _ e' =>
      rw [ha, hb] at ends
      cases ends
    | error halt' e' =>
      rw [ha, hb] at ends
      obtain ⟨rfl, h⟩ := ends
      cases halt with
      | outOfMemory region =>
        exact ⟨rfl, congrArg some h.names, h.arena, h.events, h.code.sameLists_drop⟩
      | needsWalker =>
        have back := h.code.rewind (Nat.le_refl d.code.length)
        refine ⟨rfl, congrArg some h.names, h.arena, ?_, back.sameLists_drop⟩
        dsimp only
        rw [Source.kind_of_same equal, h.events]

/-- A unit gives equal sources the same answer. -/
theorem compile_alike (u : CodeUnit) (equal : a.same b = true) (arena : Arena) :
    u.AnswersAlike (u.compile a arena) (u.compile b arena) := by
  unfold compile
  cases hcode : u.ensureCode with
  | error region => exact answersAlike_refl rfl
  | ok code =>
    have same := ensureCode_eq_ok hcode
    cases hnames : u.ensureNames with
    | error region => exact answersAlike_refl same
    | ok names =>
      have alike := compileOn_alike { u with code := none, names := none } equal code names arena
      have length : code.instructions.size = u.length := congrArg Array.size same
      refine ⟨alike.result, alike.names, alike.arena, alike.events, ?_⟩
      rw [← length]
      exact alike.added

/-- The code that a unit had is at the front of both lists, so that they are equal if it is equal to
    itself. -/
theorem AnswersAlike.sameLists {u : CodeUnit} {c c' : Compiled} (alike : u.AnswersAlike c c')
    (kept : u.instructions.toList <+: c.unit.instructions.toList)
    (kept' : u.instructions.toList <+: c'.unit.instructions.toList)
    (reflexive : ∀ i ∈ u.instructions.toList, i.same i = true) :
    Instruction.SameLists c.unit.instructions.toList c'.unit.instructions.toList := by
  have length : u.instructions.toList.length = u.length := Array.length_toList
  have split {list : List Instruction} (front : u.instructions.toList <+: list) :
      list = u.instructions.toList ++ list.drop u.length := by
    obtain ⟨rest, rfl⟩ := front
    rw [← length, List.drop_left]
  rw [split kept, split kept']
  exact List.rel_append (List.forall₂_same.mpr reflexive) alike.added

/-- Compiling does not tell equal sources apart: from the same state of a unit, and however that
    ends, they have the same answer and add the same names and equal instructions behind those that
    were there. All instructions of the unit are then equal too, unless one of those that were there
    is not equal to itself, as is the case for a NaN. -/
theorem compile_equal_sources (u : CodeUnit) (arena : Arena) (a b : Source)
    (equal : a.same b = true) :
    let c := u.compile a arena
    let c' := u.compile b arena
    c.result = c'.result ∧ c.unit.pool = c'.unit.pool ∧ c.arena = c'.arena ∧
      u.instructions.toList <+: c.unit.instructions.toList ∧
      u.instructions.toList <+: c'.unit.instructions.toList ∧
      Instruction.SameLists (c.unit.instructions.toList.drop u.length)
        (c'.unit.instructions.toList.drop u.length) ∧
      ((∀ i ∈ u.instructions.toList, i.same i = true) →
        Instruction.SameLists c.unit.instructions.toList c'.unit.instructions.toList) := by
  intro c c'
  have alike := u.compile_alike equal arena
  have kept := (u.compile_extends a arena).code
  have kept' := (u.compile_extends b arena).code
  have pool : c.unit.pool = c'.unit.pool := by
    rw [CodeUnit.pool, CodeUnit.pool, alike.names]
  exact ⟨alike.result, pool, alike.arena, kept, kept', alike.added, alike.sameLists kept kept'⟩

/-- A number as the key and the value of a property, and then a statement that needs the tree
    walker. -/
def numberTwice (x : Float) : Program :=
  ⟨[.expression (.object [⟨.number x, .literal (.number x)⟩]), .ret none]⟩

/-- With either zero the property is called `0`, and the program is given up or runs out of memory
    in the same way. -/
theorem compile_equal_sources_zeros :
    let plus := Source.ofProgram (numberTwice 0.0)
    let minus := Source.ofProgram (numberTwice (-0.0))
    let strict : CodeUnit := { settings := { allowEscape := false } }
    let cramped : CodeUnit := { settings := { maxInstructions := some 2 } }
    plus.same minus = true ∧
      (strict.compile minus {}).result = (strict.compile plus {}).result ∧
      (strict.compile minus {}).unit.pool = (strict.compile plus {}).unit.pool ∧
      (cramped.compile minus {}).result = (cramped.compile plus {}).result ∧
      Instruction.SameLists (cramped.compile plus {}).unit.instructions.toList
        (cramped.compile minus {}).unit.instructions.toList := by
  intro plus minus strict cramped
  have equal : plus.same minus = true := by
    rw [Source.same_ofProgram]
    decide
  obtain ⟨given, names, -⟩ := compile_equal_sources strict {} plus minus equal
  obtain ⟨stopped, -, -, -, -, -, code⟩ := compile_equal_sources cramped {} plus minus equal
  refine ⟨equal, given.symm, names.symm, stopped.symm, code ?_⟩
  simp [cramped, CodeUnit.instructions]

end CodeUnit

end StackScript
