import StackScript.Compile.CodeUnit

/-!
# Blocks in blocks

A block that is not empty is compiled like its statements: they stand where the block stands, and
what is dropped between them is dropped between any two statements. So the statements of a block can
be taken out of it, and compiling does the same step by step, wherever it may stop.
-/

namespace StackScript

open Compile

/-! ## The code of a block -/

theorem compileBlock_singleton (s : Statement) : compileBlock [s] = s.compile :=
  rfl

theorem compile_block (body : List Statement) :
    (Statement.block body).compile = compileBlock body :=
  rfl

/-- Before more statements the value of the first one is dropped. -/
theorem compileBlock_cons (s : Statement) {rest : List Statement} (more : rest ≠ []) :
    compileBlock (s :: rest) = (do s.compile; emitOp .pop; compileBlock rest) := by
  cases rest with
  | nil => exact absurd rfl more
  | cons next rest => rfl

/-- The value of the last statement before the gap is dropped, as a value is between any two
    statements. -/
theorem compileBlock_append {body rest : List Statement} (some : body ≠ []) (more : rest ≠ []) :
    compileBlock (body ++ rest) = (do compileBlock body; emitOp .pop; compileBlock rest) := by
  induction body with
  | nil => exact absurd rfl some
  | cons s body ih =>
    cases body with
    | nil => rw [compileBlock_singleton, List.singleton_append, compileBlock_cons s more]
    | cons next body =>
      have inner : next :: body ≠ [] := List.cons_ne_nil _ _
      have whole : next :: body ++ rest ≠ [] := List.cons_ne_nil _ _
      rw [List.cons_append, compileBlock_cons s whole, ih inner, compileBlock_cons s inner]
      simp only [bind_assoc]

/-- A block at the start. -/
theorem compileBlock_block {body : List Statement} (some : body ≠ []) (rest : List Statement) :
    compileBlock (.block body :: rest) = compileBlock (body ++ rest) := by
  by_cases last : rest = []
  · rw [last, compileBlock_singleton, List.append_nil, compile_block]
  · rw [compileBlock_cons _ last, compileBlock_append some last, compile_block]

/-- The statements of a block can be taken out of it. -/
theorem compileBlock_flattened (before : List Statement) {body : List Statement} (some : body ≠ [])
    (rest : List Statement) :
    compileBlock (before ++ [.block body] ++ rest) = compileBlock (before ++ body ++ rest) := by
  rw [List.append_assoc, List.append_assoc, List.singleton_append]
  induction before with
  | nil => exact compileBlock_block some rest
  | cons s before ih =>
    have nested : before ++ .block body :: rest ≠ [] := by simp
    have flat : before ++ (body ++ rest) ≠ [] := by simp [some]
    rw [List.cons_append, List.cons_append, compileBlock_cons s nested,
      compileBlock_cons s flat, ih]

/-! ## Entry points -/

/-- However many statements there are, those that are taken as a block are compiled as a block. -/
theorem Source.compile_asBlock (body : List Statement) :
    (Source.statements body true).compile = compileBlock body := by
  cases body with
  | nil => rfl
  | cons s rest =>
    cases rest with
    | nil => rfl
    | cons next rest => rfl

namespace CodeUnit

/-- Compiling looks at nothing of a source but what it compiles to, and the word for it. -/
theorem compile_congr {source source' : Source} (same : source.compile = source'.compile)
    (alike : source.kind = source'.kind) (u : CodeUnit) (arena : Arena) :
    u.compile source arena = u.compile source' arena := by
  unfold compile compileOn
  rw [same, alike]

/-- Taking the statements of a block out of it changes nothing: the answer is the same, and so are
    the code, the names and the arena that are left, their capacities, and all that was reported,
    whether compiling came to its end or not. -/
theorem compile_flattened (u : CodeUnit) (arena : Arena) (before body rest : List Statement)
    (some : body ≠ []) :
    u.compile (.statements (before ++ [.block body] ++ rest) true) arena =
      u.compile (.statements (before ++ body ++ rest) true) arena := by
  have same : (Source.statements (before ++ [.block body] ++ rest) true).compile =
      (Source.statements (before ++ body ++ rest) true).compile := by
    rw [Source.compile_asBlock, Source.compile_asBlock, compileBlock_flattened before some rest]
  exact compile_congr same rfl u arena

/-- The limit cuts off the second statement of the block, in the loop that it is. -/
theorem compile_flattened_cutShort :
    let u : CodeUnit := { settings := { maxInstructions := some 6 } }
    let loop : Statement := .whileLoop (.name "b") (.expression (.name "c"))
    let nested := u.compile
      (.statements ([.expression (.name "a")] ++ [.block [.empty, loop]] ++ [.empty]) true) {}
    nested.result = .error (.outOfMemory .instructions) ∧ nested.unit.length = 6 ∧
      u.compile (.statements ([.expression (.name "a")] ++ [.empty, loop] ++ [.empty]) true) {} =
        nested := by
  refine ⟨?_, ?_, ?_⟩
  · rfl
  · rfl
  · exact (compile_flattened _ _ _ _ _ (List.cons_ne_nil _ _)).symm

end CodeUnit

end StackScript
