/-!
# Layout of lines

Blank characters, trimming, alignment to a width, and the lines of a text. Widths count characters.
-/

namespace StackScript.Text

/-- The characters that Unicode counts as white space. -/
def isBlank (c : Char) : Bool :=
  let n := c.toNat
  (9 ≤ n && n ≤ 13) || n == 0x20 || n == 0x85 || n == 0xa0 || n == 0x1680 ||
    (0x2000 ≤ n && n ≤ 0x200a) || n == 0x2028 || n == 0x2029 || n == 0x202f || n == 0x205f ||
    n == 0x3000

/-- Drops the blanks at the beginning. -/
def trimLeft (text : List Char) : List Char :=
  text.dropWhile isBlank

/-- Drops the blanks at the end. -/
def trimRight (text : List Char) : List Char :=
  (text.reverse.dropWhile isBlank).reverse

/-- Blanks before a text, up to a width. -/
def alignRight (width : Nat) (text : String) : String :=
  String.ofList (List.replicate (width - text.length) ' ') ++ text

/-- Blanks behind a text, up to a width. -/
def alignLeft (width : Nat) (text : String) : String :=
  text ++ String.ofList (List.replicate (width - text.length) ' ')

/-- What stands before the first occurrence of the mark and what stands after it. -/
def cutAt? (mark : List Char) : List Char → Option (List Char × List Char)
  | [] => if mark.isEmpty then some ([], []) else none
  | c :: rest =>
    if mark.isPrefixOf (c :: rest) then some ([], (c :: rest).drop mark.length)
    else (cutAt? mark rest).map fun (before, after) => (c :: before, after)

/-- A line without the carriage return at its end. -/
def dropReturn (line : List Char) : List Char :=
  if line.getLast? = some '\r' then line.dropLast else line

/-- The pieces of a text between the marks in it: the first, and the others. -/
def pieces (mark : Char) (text : List Char) : List Char × List (List Char) :=
  text.foldr (fun c (piece, rest) => if c = mark then ([], piece :: rest) else (c :: piece, rest))
    ([], [])

/-- Lines from pieces: the last piece has no line feed after it, and is a line only if it is not
    empty. -/
def endLines : List (List Char) → List (List Char)
  | [] => []
  | [last] => if last.isEmpty then [] else [last]
  | line :: rest => dropReturn line :: endLines rest

/-- The lines of a text. A line feed ends a line, and a carriage return before it belongs to the
    end. -/
def lines (text : List Char) : List (List Char) :=
  let (first, rest) := pieces '\n' text
  endLines (first :: rest)

end StackScript.Text
