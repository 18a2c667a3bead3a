import StackScript.Text.Formless

/-!
# Quoted text

Text between double quotes, as listings and descriptions show it: quotes, backslashes and the usual
control characters have short escapes, and any other character without a form of its own is shown by
its code point.
-/

namespace StackScript.Text

/-- The hexadecimal digits of a number. -/
def hexDigits (n : Nat) : String :=
  String.ofList (Nat.toDigits 16 n)

/-- A character inside of quotes. -/
def quotedChar (c : Char) : String :=
  match c with
  | '\x00' => "\\0"
  | '\t' => "\\t"
  | '\r' => "\\r"
  | '\n' => "\\n"
  | '"' => "\\\""
  | '\\' => "\\\\"
  | c => if isFormless c then "\\u\x7b" ++ hexDigits c.toNat ++ "\x7d" else c.toString

/-- The text in quotes. -/
def quote (text : String) : String :=
  text.toList.foldl (fun shown c => shown ++ quotedChar c) "\"" ++ "\""

end StackScript.Text
