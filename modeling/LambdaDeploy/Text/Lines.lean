import LambdaDeploy.Text.Cut

/-!
# Lines of a text

A line feed ends a line, and one carriage return right before it belongs to the
line end.  The text after the last line feed is a line of its own unless it is
empty, and keeps a carriage return.

* `lines` — the lines of a text, without their ends.
* `Line.number` — lines are counted from 1.
-/

namespace LambdaDeploy.Text

/-- The lines of a text, without their ends. -/
def lines (text : List Char) : List (List Char) :=
  let pieces := splitWhere (· == '\n') text
  let ended := pieces.dropLast.map fun line => (beforeSuffix? ['\r'] line).getD line
  match pieces.getLast? with
  | some (c :: rest) => ended ++ [c :: rest]
  | _ => ended

/-- A line together with its place in the text. -/
structure Line where
  /-- The first line of a text has number 1. -/
  number : Nat
  text : List Char
deriving DecidableEq, Repr

/-- The lines of a text, numbered from 1. -/
def numberedLines (text : List Char) : List Line :=
  (lines text).zipIdx.map fun (line, i) => ⟨i + 1, line⟩

/-- The line without the blanks around it. -/
def Line.trimmed (line : Line) : List Char := trim line.text

end LambdaDeploy.Text
