import StackScript.Proofs.Segment.Compiled

/-!
# Entry points

What compiling does to a unit: it adds the segment of the source and a return, or, if the source
needs the tree walker and may not be left to it, no code at all.
-/

namespace StackScript

open Compile

/-- The statements that are compiled: all of them if they are taken as a block, else the first. -/
def Source.selected (body : List Statement) (asBlock : Bool) : List Statement :=
  if asBlock then body else body.take 1

namespace Source

/-- The code of the source, without the return behind it. -/
def segment : Source → Segment
  | .expression tree => tree.segment
  | .statements body asBlock => blockSegment (selected body asBlock)

/-- One of the compiled statements needs the tree walker. -/
def needsWalker : Source → Bool
  | .expression _ => false
  | .statements body asBlock => blockNeedsWalker (selected body asBlock)

/-- The names that are added before it is found out that the source needs the tree walker. -/
def leftovers : Source → List String
  | .expression _ => []
  | .statements body asBlock => blockLeftovers (selected body asBlock)

/-- Reporting that statements are ignored changes neither code nor names. -/
theorem compile_eq (source : Source) :
    source.compile = (match source with
      | .expression tree => tree.compile
      | .statements body asBlock => compileBlock (selected body asBlock)) ∨
    ∃ first rest, source = .statements (first :: rest) false ∧
      source.compile = (do Compile.report (.ignoredStatements rest.length); first.compile) := by
  match source with
  | .expression tree => exact .inl rfl
  | .statements [] asBlock => left; cases asBlock <;> rfl
  | .statements [s] asBlock =>
    left
    cases asBlock <;> simp [Source.compile, Source.lower, selected, compileBlock, lowerBlock]
  | .statements (first :: next :: rest) true => exact .inl rfl
  | .statements (first :: next :: rest) false => exact .inr ⟨first, next :: rest, rfl, rfl⟩

theorem grows_report {d : Draft} (event : Event) (bail : Draft → Prop) :
    Meets (Compile.report event) d (fun _ e => d.Grows [] [] e) bail :=
  ⟨by simp [Draft.written], by simp [Draft.added], rfl⟩

theorem emits_compile (source : Source) (d : Draft)
    (h : d.escapes = true ∨ source.needsWalker = false) :
    Emits source.compile source.segment d := by
  obtain heq | ⟨first, rest, rfl, heq⟩ := source.compile_eq
  · rw [heq]
    cases source with
    | expression tree => exact tree.emits_compile d
    | statements body asBlock => exact block_emits _ d h
  · rw [heq]
    intro bail
    apply (grows_report _ bail).bind
    intro _ e grown
    have single := block_emits [first] e (grown.escapes ▸ h) bail
    rw [compileBlock, lowerBlock] at single
    apply single.mono
    · intro _ f grown'
      rw [grown.length_written, grown.length_added] at grown'
      exact grown.trans grown'
    · exact fun _ h => h

theorem stops_compile (source : Source) (d : Draft) (inside : d.escapes = false)
    (h : source.needsWalker = true) : Stops source.compile source.leftovers d := by
  obtain heq | ⟨first, rest, rfl, heq⟩ := source.compile_eq
  · rw [heq]
    cases source with
    | expression tree => cases h
    | statements body asBlock => exact block_stops _ d inside h
  · rw [heq]
    refine Stops.after (grows_report _) fun _ e he => ?_
    have single := block_stops [first] e (he.trans inside) h
    rwa [compileBlock, lowerBlock] at single

end Source

namespace CodeUnit

/-- The names of the unit in order. -/
def pool (u : CodeUnit) : List String :=
  match u.names with
  | some names => names.entries.toList
  | none => []

/-- The instructions of an entry point that is added to the unit. -/
def entry (u : CodeUnit) (source : Source) : List Instruction :=
  source.segment.place u.length u.pool.length ++ [{ op := .ret }]

variable {u : CodeUnit} {source : Source} {arena : Arena} {start : Nat}

/-- Compiling added an entry point to the unit. -/
structure Adds (u : CodeUnit) (source : Source) (start : Nat) (v : CodeUnit) : Prop where
  start_eq : start = u.length
  walked : u.settings.allowEscape = true ∨ source.needsWalker = false
  code : v.instructions.toList = u.instructions.toList ++ u.entry source
  names : v.pool = u.pool ++ source.segment.names
  settings : v.settings = u.settings

/-- Compiling was given up, and only names were added. -/
structure Leaves (u : CodeUnit) (source : Source) (v : CodeUnit) : Prop where
  walked : u.settings.allowEscape = false ∧ source.needsWalker = true
  code : v.instructions = u.instructions
  names : v.pool = u.pool ++ source.leftovers
  settings : v.settings = u.settings

/-- What the answer to compiling says about the unit, unless memory ran out. -/
def Answers (u : CodeUnit) (source : Source) (c : Compiled) : Prop :=
  match c.result with
  | .ok start => u.Adds source start c.unit
  | .error .needsWalker => u.Leaves source c.unit
  | .error (.outOfMemory _) => True

theorem ensureCode_eq_ok {code : Code} (h : u.ensureCode = .ok code) :
    code.instructions = u.instructions := by
  unfold ensureCode at h
  cases hc : u.code with
  | some c =>
    rw [hc] at h
    cases h
    simp [instructions, hc]
  | none =>
    rw [hc] at h
    rw [(Code.create_eq_ok.mp h).2]
    simp [instructions, hc]

theorem ensureNames_eq_ok {names : NamePool} (h : u.ensureNames = .ok names) :
    names.entries.toList = u.pool := by
  unfold ensureNames at h
  cases hp : u.names with
  | some p =>
    rw [hp] at h
    cases h
    simp [pool, hp]
  | none =>
    rw [hp] at h
    rw [(NamePool.create_eq_ok.mp h).2]
    simp [pool, hp]

/-- The step that compiles an entry point, with both ways in which it can end. -/
theorem meets_entry (source : Source) (d : Draft) :
    Meets (do source.compile; emitOp .ret : Compile Unit) d
      (fun _ e => (d.escapes = true ∨ source.needsWalker = false) ∧
        d.Grows (source.segment.place d.written.length d.added.length ++ [{ op := .ret }])
          source.segment.names e)
      (fun e => (d.escapes = false ∧ source.needsWalker = true) ∧ d.written <+: e.written ∧
        e.added = d.added ++ source.leftovers) := by
  by_cases walked : d.escapes = true ∨ source.needsWalker = false
  · apply (source.emits_compile d walked _).bind
    intro _ e grown
    apply (meets_emit _).mono
    · intro _ f grown'
      refine ⟨walked, ?_⟩
      simpa using grown.trans grown'
    · exact fun _ h => h
  · have inside : d.escapes = false := by
      rw [← Bool.not_eq_true]
      exact fun h => walked (.inl h)
    have foreign : source.needsWalker = true := by
      rw [← Bool.not_eq_false]
      exact fun h => walked (.inr h)
    apply (source.stops_compile d inside foreign).first.mono
    · exact fun _ _ => False.elim
    · rintro e ⟨longer, added, -⟩
      exact ⟨⟨inside, foreign⟩, longer, added⟩

theorem compileOn_answers {code : Code} {names : NamePool}
    (hcode : code.instructions = u.instructions) (hnames : names.entries.toList = u.pool)
    (arena : Arena) :
    u.Answers source
      ({ u with code := none, names := none }.compileOn source code names arena) := by
  let d : Draft := { code, names, arena, escapes := u.settings.allowEscape }
  have here : d.written = u.instructions.toList := by simp [d, Draft.written, hcode]
  have free : d.added = u.pool := by simp [d, Draft.added, hnames]
  have length : d.written.length = u.length := by simp [here, CodeUnit.length]
  have met := meets_entry source d
  rw [Meets, length, free] at met
  simp only [compileOn]
  cases hstep : (do source.compile; emitOp .ret : Compile Unit) d with
  | ok _ e =>
    rw [hstep] at met
    obtain ⟨walked, grown⟩ := met
    exact {
      start_eq := (Draft.length_code d).trans length
      walked := walked
      code := by
        rw [entry, ← here]
        exact grown.written
      names := by
        rw [← free]
        exact grown.added
      settings := rfl }
  | error halt e =>
    rw [hstep] at met
    cases halt with
    | outOfMemory region => exact trivial
    | needsWalker =>
      obtain ⟨walked, longer, added⟩ := met
      exact {
        walked := walked
        code := by
          apply Array.toList_inj.mp
          rw [← here, List.prefix_iff_eq_take.mp longer]
          exact (toList_rewind e.code code.length).trans (by rw [← Draft.length_code d]; rfl)
        names := added
        settings := rfl }

theorem compile_answers (u : CodeUnit) (source : Source) (arena : Arena) :
    u.Answers source (u.compile source arena) := by
  unfold compile
  cases hcode : u.ensureCode with
  | error region => exact trivial
  | ok code =>
    cases hnames : u.ensureNames with
    | error region => exact trivial
    | ok names => exact compileOn_answers (ensureCode_eq_ok hcode) (ensureNames_eq_ok hnames) arena

theorem adds_of_compile_eq_ok (h : (u.compile source arena).result = .ok start) :
    u.Adds source start (u.compile source arena).unit := by
  have answers := u.compile_answers source arena
  rwa [Answers, h] at answers

theorem leaves_of_compile_eq_error (h : (u.compile source arena).result = .error .needsWalker) :
    u.Leaves source (u.compile source arena).unit := by
  have answers := u.compile_answers source arena
  rwa [Answers, h] at answers

/-- Unless memory runs out, compiling adds an entry point where the code ended, or it is given
    up. -/
theorem adds_or_leaves (room : ∀ region,
    (u.compile source arena).result ≠ .error (.outOfMemory region)) :
    (u.compile source arena).result = .ok u.length ∧
        u.Adds source u.length (u.compile source arena).unit ∨
      (u.compile source arena).result = .error .needsWalker ∧
        u.Leaves source (u.compile source arena).unit := by
  cases h : (u.compile source arena).result with
  | ok start =>
    have added := adds_of_compile_eq_ok h
    obtain rfl := added.start_eq
    exact .inl ⟨rfl, added⟩
  | error e =>
    cases e with
    | needsWalker => exact .inr ⟨rfl, leaves_of_compile_eq_error h⟩
    | outOfMemory region => exact absurd h (room region)

variable {v : CodeUnit} {arena' : Arena}

/-- Two units in the same mode give the same kind of answer, unless memory runs out in one of
    them. -/
theorem both_add_or_leave (mode : u.settings.allowEscape = v.settings.allowEscape)
    (room : ∀ region, (u.compile source arena).result ≠ .error (.outOfMemory region))
    (room' : ∀ region, (v.compile source arena').result ≠ .error (.outOfMemory region)) :
    ((u.compile source arena).result = .ok u.length ∧
      (v.compile source arena').result = .ok v.length ∧
        u.Adds source u.length (u.compile source arena).unit ∧
        v.Adds source v.length (v.compile source arena').unit) ∨
      ((u.compile source arena).result = .error .needsWalker ∧
        (v.compile source arena').result = .error .needsWalker ∧
        u.Leaves source (u.compile source arena).unit ∧
        v.Leaves source (v.compile source arena').unit) := by
  rcases adds_or_leaves room with ⟨answer, added⟩ | ⟨answer, left⟩ <;>
    rcases adds_or_leaves room' with ⟨answer', added'⟩ | ⟨answer', left'⟩
  · exact .inl ⟨answer, answer', added, added'⟩
  · have walked := added.walked
    rw [mode, left'.walked.1, left'.walked.2] at walked
    simp at walked
  · have walked := added'.walked
    rw [← mode, left.walked.1, left.walked.2] at walked
    simp at walked
  · exact .inr ⟨answer, answer', left, left'⟩

/-- The return at the end of an entry point. -/
def stopOf (source : Source) (start : Nat) : Nat :=
  start + source.segment.size

theorem Adds.stands (added : u.Adds source start v) :
    Stands v.instructions start (source.segment.place start u.pool.length) ∧
      v.instructions[stopOf source start]? = some { op := .ret } := by
  have placed : Stands v.instructions u.instructions.toList.length (u.entry source) :=
    stands_of_toList_eq _ added.code
  rw [Array.length_toList] at placed
  rw [entry, stands_append, Segment.length_place, stands_cons] at placed
  obtain rfl := added.start_eq
  exact ⟨placed.1, placed.2.1⟩

theorem Adds.size_eq (added : u.Adds source start v) :
    v.instructions.size = stopOf source start + 1 := by
  have := congrArg List.length added.code
  rw [List.length_append, entry, List.length_append, Segment.length_place] at this
  simp only [Array.length_toList] at this
  rw [this, added.start_eq]
  rfl

theorem Adds.getElem?_of_lt (added : u.Adds source start v) {offset : Nat} (h : offset < start) :
    v.instructions[offset]? = u.instructions[offset]? := by
  rw [← Array.getElem?_toList, added.code, List.getElem?_append_left, Array.getElem?_toList]
  rw [Array.length_toList]
  exact Nat.lt_of_lt_of_eq h added.start_eq

end CodeUnit

end StackScript
