import StackScript.Json.Basic

/-!
# JSON tokens

The tokens of a JSON text, how each is spelled, and the tokens of a value. A value is printed
without any space between its tokens.
-/

namespace StackScript.Json

/-- The tokens of a JSON text. -/
inductive Token where
  | openArray
  | closeArray
  | openObject
  | closeObject
  | comma
  | colon
  | null
  | bool (value : Bool)
  | number (spelling : String)
  | string (content : Option String)
  /-- What follows in the text is no token. -/
  | broken
  deriving DecidableEq, Repr

/-- Four hexadecimal digits. -/
def hexUnit (n : Nat) : String :=
  let digits := Nat.toDigits 16 n
  String.ofList (List.replicate (4 - digits.length) '0' ++ digits)

/-- A character inside of a string, with a backslash where it needs one. -/
def escapeChar (c : Char) : String :=
  match c with
  | '"' => "\\\""
  | '\\' => "\\\\"
  | '\x08' => "\\b"
  | '\t' => "\\t"
  | '\n' => "\\n"
  | '\x0c' => "\\f"
  | '\r' => "\\r"
  | c => if c.toNat < 0x20 then "\\u" ++ hexUnit c.toNat else c.toString

/-- Half of a pair stands for a string without content. -/
def spellString : Option String → String
  | some content => content.toList.foldl (fun shown c => shown ++ escapeChar c) "\"" ++ "\""
  | none => "\"\\ud800\""

/-- The text of a token. -/
def Token.spell : Token → String
  | .openArray => "["
  | .closeArray => "]"
  | .openObject => "\x7b"
  | .closeObject => "\x7d"
  | .comma => ","
  | .colon => ":"
  | .null => "null"
  | .bool true => "true"
  | .bool false => "false"
  | .number spelling => spelling
  | .string content => spellString content
  | .broken => ""

mutual

/-- The tokens of the value, then those that follow it. -/
def tokens : Json → List Token → List Token
  | .null, rest => .null :: rest
  | .bool value, rest => .bool value :: rest
  | .number spelling, rest => .number spelling :: rest
  | .string content, rest => .string content :: rest
  | .array items, rest => .openArray :: itemTokens items (.closeArray :: rest)
  | .object members, rest => .openObject :: memberTokens members (.closeObject :: rest)
  | .broken, rest => .broken :: rest

/-- The tokens of an array between its brackets, then those that follow. -/
def itemTokens : List Json → List Token → List Token
  | [], rest => rest
  | [item], rest => tokens item rest
  | item :: next :: items, rest => tokens item (.comma :: itemTokens (next :: items) rest)

/-- The tokens of an object between its braces, then those that follow. -/
def memberTokens : List (Option String × Json) → List Token → List Token
  | [], rest => rest
  | [(key, value)], rest => .string key :: .colon :: tokens value rest
  | (key, value) :: next :: members, rest =>
    .string key :: .colon :: tokens value (.comma :: memberTokens (next :: members) rest)

end

/-- The value as text. -/
def render (value : Json) : String :=
  (value.tokens []).foldl (fun shown token => shown ++ token.spell) ""

end StackScript.Json
