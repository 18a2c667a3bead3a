/-!
# JSON values

A JSON text as it is written: members of an object keep their order and may repeat a key, and a
number keeps its spelling, since what number it is depends on who reads it.

A value may also be only as much of a text as makes sense. `Json.broken` stands where the text stops
being JSON, so that a reader that works from left to right meets the mistakes in the writing and the
mistakes in the meaning in the order in which they stand in the text.
-/

namespace StackScript

/-- A JSON value as it is written. -/
inductive Json where
  | null
  | bool (value : Bool)
  | number (spelling : String)
  /-- A string; it has no content if an escape in it is half of a pair, which no text can hold. -/
  | string (content : Option String)
  | array (items : List Json)
  | object (members : List (Option String × Json))
  | broken

namespace Json

/-- An object with the given members. -/
def record (members : List (String × Json)) : Json :=
  .object (members.map fun (key, value) => (some key, value))

/-- A string with the given content. -/
def ofString (content : String) : Json :=
  .string (some content)

mutual

/-- How many arrays and objects are open at the deepest place. -/
def depth : Json → Nat
  | .array items => depthItems items + 1
  | .object members => depthMembers members + 1
  | _ => 0

/-- The depth of the deepest item. -/
def depthItems : List Json → Nat
  | [] => 0
  | item :: rest => max (depth item) (depthItems rest)

/-- The depth of the deepest member. -/
def depthMembers : List (Option String × Json) → Nat
  | [] => 0
  | (_, value) :: rest => max (depth value) (depthMembers rest)

end

mutual

/-- The whole value was written as JSON. -/
def isSound : Json → Bool
  | .array items => soundItems items
  | .object members => soundMembers members
  | .broken => false
  | _ => true

/-- All items were written as JSON. -/
def soundItems : List Json → Bool
  | [] => true
  | item :: rest => isSound item && soundItems rest

/-- All members were written as JSON. -/
def soundMembers : List (Option String × Json) → Bool
  | [] => true
  | (_, value) :: rest => isSound value && soundMembers rest

end

/-- The value of the last member with this key. -/
def get? (key : String) : Json → Option Json
  | .object members => (members.reverse.find? fun member => member.1 = some key).map (·.2)
  | _ => none

end Json

end StackScript
