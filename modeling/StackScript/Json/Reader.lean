import StackScript.Json.Parser
import StackScript.Number.Reading

/-!
# Readers

A reader gives a JSON value a meaning, or names the first problem that it meets from left to right.
It is told how many arrays and objects may still be opened; a value that is only skipped does not
count.

A record is written as an object of its fields, in any order and with others among them, or as the
array of all its fields in their own order. A variant without data is written as its name; one with
data is an object with the name as its only key.
-/

namespace StackScript

/-- Why a value has no meaning. -/
inductive Problem where
  | missingField (name : String)
  | duplicateField (name : String)
  | unknownVariant (name : String)
  /-- Any other problem, among them everything that is not JSON. -/
  | invalid
  deriving DecidableEq, Repr

/-- The words for the problem. -/
def Problem.message : Problem → String
  | .missingField name => "missing field `" ++ name ++ "`"
  | .duplicateField name => "duplicate field `" ++ name ++ "`"
  | .unknownVariant name => "unknown variant `" ++ name ++ "`"
  | .invalid => "invalid"

/-- Reads a value when `room` more arrays and objects may be opened. -/
abbrev Reader (α : Type) := (room : Nat) → Json → Except Problem α

namespace Reader

variable {α β : Type}

/-- Reads a value and makes something else of it. -/
def map (f : α → β) (read : Reader α) : Reader β :=
  fun room value => (read room value).map f

/-- Reads a string that has content. -/
def string : Reader String
  | _, .string (some content) => .ok content
  | _, _ => .error .invalid

/-- Reads a truth value. -/
def bool : Reader Bool
  | _, .bool b => .ok b
  | _, _ => .error .invalid

/-- The nearest number is taken; numbers beyond the greatest binary number are refused. A reader of
    JSON that is less exact may miss the nearest number of a long spelling by its last bit. -/
def number : Reader Float
  | _, .number spelling =>
    match Number.ofText? spelling with
    | some x => if Number.isFinite x then .ok x else .error .invalid
    | none => .error .invalid
  | _, _ => .error .invalid

/-- `null` stands for a value that is absent. -/
def optional (read : Reader α) : Reader (Option α)
  | _, .null => .ok none
  | room, value => (read room value).map some

/-- Reads an array of values of one kind. -/
def list (read : Reader α) : Reader (List α)
  | room + 1, .array items => items.mapM (read room)
  | _, _ => .error .invalid

/-! ## Records -/

/-- The fields of a record, in the order in which they are declared. A field that may be absent has
    a value for that case. -/
inductive Fields : List Type → Type 1 where
  | nil : Fields []
  | cons {α : Type} {αs : List Type} (name : String) (read : Reader α) (absent : Option α)
      (rest : Fields αs) : Fields (α :: αs)

/-- A record's values. -/
@[reducible] def Values : List Type → Type
  | [] => Unit
  | α :: αs => α × Values αs

/-- A record's values as far as they are read. -/
@[reducible] def Slots : List Type → Type
  | [] => Unit
  | α :: αs => Option α × Slots αs

namespace Fields

variable {αs : List Type}

/-- No field is read yet. -/
def empty : {αs : List Type} → Fields αs → Slots αs
  | _, .nil => ()
  | _, .cons _ _ _ rest => (none, rest.empty)

/-- Takes the next member of an object. A key that is no field's is skipped with its value. -/
def take (room : Nat) (key : String) (value : Json) :
    {αs : List Type} → Fields αs → Slots αs → Except Problem (Slots αs)
  | _, .nil, () => if value.isSound then .ok () else .error .invalid
  | _, .cons name read _ rest, (slot, slots) =>
    if key = name then
      match slot with
      | some _ => .error (.duplicateField name)
      | none => (read room value).map fun a => (some a, slots)
    else (rest.take room key value slots).map fun slots => (slot, slots)

/-- Takes the members of an object from left to right. -/
def takeAll (room : Nat) (fields : Fields αs) :
    List (Option String × Json) → Slots αs → Except Problem (Slots αs)
  | [], slots => .ok slots
  | (none, _) :: _, _ => .error .invalid
  | (some key, value) :: rest, slots => do
    let slots ← fields.take room key value slots
    takeAll room fields rest slots

/-- The values when the object ends. -/
def close : {αs : List Type} → Fields αs → Slots αs → Except Problem (Values αs)
  | _, .nil, () => .ok ()
  | _, .cons name _ absent rest, (slot, slots) =>
    match slot.or absent with
    | some a => (rest.close slots).map fun values => (a, values)
    | none => .error (.missingField name)

/-- The values from an array of all fields. -/
def inOrder (room : Nat) : {αs : List Type} → Fields αs → List Json → Except Problem (Values αs)
  | _, .nil, [] => .ok ()
  | _, .nil, _ :: _ => .error .invalid
  | _, .cons .., [] => .error .invalid
  | _, .cons _ read _ rest, item :: items => do
    let a ← read room item
    let values ← rest.inOrder room items
    return (a, values)

end Fields

/-- Reads a record, from an object or from an array. -/
def record {αs : List Type} (fields : Fields αs) : Reader (Values αs)
  | room + 1, .object members => do
    let slots ← fields.takeAll room members fields.empty
    fields.close slots
  | room + 1, .array items => fields.inOrder room items
  | _, _ => .error .invalid

/-- A field that has to be there. -/
def field {αs : List Type} (name : String) (read : Reader α) (rest : Fields αs) :
    Fields (α :: αs) :=
  .cons name read none rest

/-- A field that may be missing or null. -/
def optionalField {αs : List Type} (name : String) (read : Reader α) (rest : Fields αs) :
    Fields (Option α :: αs) :=
  .cons name (optional read) (some none) rest

/-! ## Variants -/

/-- What the name of a variant calls for. -/
inductive Variant (α : Type) where
  | bare (value : α)
  | data (read : Reader α)

/-- Reads one of several variants, found by name. -/
def variant (find : String → Option (Variant α)) : Reader α
  | _, .string (some name) =>
    match find name with
    | some (.bare value) => .ok value
    | some (.data _) => .error .invalid
    | none => .error (.unknownVariant name)
  | room + 1, .object ((some name, payload) :: rest) => do
    let value ← match find name with
      | some (.bare value) =>
        match payload with
        | .null => .ok value
        | _ => .error .invalid
      | some (.data read) => read room payload
      | none => .error (.unknownVariant name)
    if rest.isEmpty then .ok value else .error .invalid
  | _, _ => .error .invalid

/-- A variant whose data is a record. -/
def fields {αs : List Type} (fields : Fields αs) (make : Values αs → α) : Option (Variant α) :=
  some (.data (map make (record fields)))

/-- Variants that have no data. -/
def names (find : String → Option α) : Reader α :=
  variant fun name => (find name).map .bare

end Reader

/-- Reads a whole text, in which at most `limit` arrays and objects may be open at once if a limit
    is given. -/
def Reader.text {α : Type} (read : Reader α) (limit : Option Nat) (text : String) :
    Except Problem α := do
  let document := Json.parse text
  let value ← read (limit.getD document.value.depth) document.value
  if document.alone then return value else throw .invalid

end StackScript
