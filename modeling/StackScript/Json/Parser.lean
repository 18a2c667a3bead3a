import StackScript.Json.Lexer

/-!
# From tokens to a value

One state per place in a JSON text, and a step per token. The containers that are still open are a
list of frames, the innermost first, so a text of any depth is read in a loop. A token that cannot
stand where it does, or the end of the text, leaves `broken` in the place that is being read.
-/

namespace StackScript.Json

/-- A container that is still open: what it holds so far, the last item first, and for an object
    also the key whose value is being read. -/
inductive Frame where
  | array (items : List Json)
  | object (members : List (Option String × Json)) (key : Option String)

/-- The container with the value in the place that was being read. -/
def Frame.close : Frame → Json → Json
  | .array items, value => .array (value :: items).reverse
  | .object members key, value => .object ((key, value) :: members).reverse

/-- A place in a JSON text. -/
inductive Place where
  /-- A value has to come. -/
  | atValue (frames : List Frame)
  /-- Behind the opening bracket of an array. -/
  | atItems (frames : List Frame)
  /-- A key has to come; an object without members may also end. -/
  | atKey (members : List (Option String × Json)) (frames : List Frame)
  /-- Behind a key. -/
  | atColon (members : List (Option String × Json)) (key : Option String) (frames : List Frame)
  /-- Behind a value. -/
  | after (value : Json) (frames : List Frame)
  /-- The text is not JSON from some place on. -/
  | stuck (value : Json)
  /-- Something follows the whole value. -/
  | excess (value : Json)

/-- What is read of a text that breaks off where a value should be. -/
def breakOff (frames : List Frame) : Json :=
  frames.foldl (fun value frame => frame.close value) .broken

/-- What is read of a text that breaks off inside an array, behind the given items. -/
def breakItems (items : List Json) (frames : List Frame) : Json :=
  breakOff (.array items :: frames)

/-- What is read of a text that breaks off inside an object, behind the given members. -/
def breakMembers (members : List (Option String × Json)) (frames : List Frame) : Json :=
  breakOff (.object members none :: frames)

/-- A token where a value has to come. -/
def stepValue (frames : List Frame) : Token → Place
  | .null => .after .null frames
  | .bool b => .after (.bool b) frames
  | .number spelling => .after (.number spelling) frames
  | .string content => .after (.string content) frames
  | .openArray => .atItems frames
  | .openObject => .atKey [] frames
  | _ => .stuck (breakOff frames)

/-- A token behind a value. -/
def stepAfter (value : Json) : List Frame → Token → Place
  | [], _ => .excess value
  | .array items :: frames, .comma => .atValue (.array (value :: items) :: frames)
  | .array items :: frames, .closeArray => .after (.array (value :: items).reverse) frames
  | .array items :: frames, _ => .stuck (breakItems (value :: items) frames)
  | .object members key :: frames, .comma => .atKey ((key, value) :: members) frames
  | .object members key :: frames, .closeObject =>
    .after (.object ((key, value) :: members).reverse) frames
  | .object members key :: frames, _ => .stuck (breakMembers ((key, value) :: members) frames)

/-- Goes on with the next token. -/
def step : Place → Token → Place
  | .atValue frames, token => stepValue frames token
  | .atItems frames, .closeArray => .after (.array []) frames
  | .atItems frames, token => stepValue (.array [] :: frames) token
  | .atKey members frames, .string key => .atColon members key frames
  | .atKey [] frames, .closeObject => .after (.object []) frames
  | .atKey members frames, _ => .stuck (breakMembers members frames)
  | .atColon members key frames, .colon => .atValue (.object members key :: frames)
  | .atColon members key frames, _ => .stuck (breakOff (.object members key :: frames))
  | .after value frames, token => stepAfter value frames token
  | .stuck value, _ => .stuck value
  | .excess value, _ => .excess value

/-- A value that was read, and whether the text holds nothing else. -/
structure Document where
  value : Json
  alone : Bool

/-- What is read when the text ends at a place. -/
def Place.finish : Place → Document
  | .atValue frames => ⟨breakOff frames, true⟩
  | .atItems frames => ⟨breakItems [] frames, true⟩
  | .atKey members frames => ⟨breakMembers members frames, true⟩
  | .atColon members key frames => ⟨breakOff (.object members key :: frames), true⟩
  | .after value [] => ⟨value, true⟩
  | .after value (.array items :: frames) => ⟨breakItems (value :: items) frames, true⟩
  | .after value (.object members key :: frames) =>
    ⟨breakMembers ((key, value) :: members) frames, true⟩
  | .stuck value => ⟨value, true⟩
  | .excess value => ⟨value, false⟩

/-- Reads a text. -/
def parse (text : String) : Document :=
  ((lex text).foldl step (.atValue [])).finish

end StackScript.Json
