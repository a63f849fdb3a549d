/-!
# Lines

A file may end its lines in three ways. Reading one makes them all the same.
-/

namespace Scheme.Text

/-- Every carriage return, with the line feed after it if there is one, becomes one line feed. -/
def unifyLineEnds : List Char → List Char
  | [] => []
  | '\r' :: '\n' :: rest => '\n' :: unifyLineEnds rest
  | '\r' :: rest => '\n' :: unifyLineEnds rest
  | c :: rest => c :: unifyLineEnds rest

/-- The lines of a text, each without its line feed. What follows the last line feed is a line if
it is not empty. -/
def lines (text : List Char) : List (List Char) :=
  let rec go (line : List Char) : List Char → List (List Char)
    | [] => if line.isEmpty then [] else [line.reverse]
    | '\n' :: rest => line.reverse :: go [] rest
    | c :: rest => go (c :: line) rest
  go [] text

/-- The line without the line-end characters behind it. -/
def dropLineEnd (line : List Char) : List Char :=
  (line.reverse.dropWhile fun c => c == '\r' || c == '\n').reverse

end Scheme.Text
