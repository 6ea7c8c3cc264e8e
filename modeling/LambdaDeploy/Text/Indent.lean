import LambdaDeploy.Text.Blank

/-!
# Indentation

The width of a line's indentation is counted in UTF-8 bytes.

* `indentWidth` — the bytes that the leading blanks of a line take.
* `dedent` — the lines without the indentation that all of them share, each
  ended by a line feed and without trailing blanks.
-/

namespace LambdaDeploy.Text

/-- The number of bytes that a text takes in UTF-8. -/
def byteLength (text : List Char) : Nat := text.foldr (fun c n => c.utf8Size + n) 0

/-- The number of bytes that the leading blanks of a line take. -/
def indentWidth (line : List Char) : Nat := byteLength (line.takeWhile isBlank)

/-- The text from byte `n` on, if a character or the end of the text is there. -/
def dropBytes? (n : Nat) : List Char → Option (List Char)
  | [] => if n = 0 then some [] else none
  | c :: text =>
    if n = 0 then some (c :: text)
    else if c.utf8Size ≤ n then dropBytes? (n - c.utf8Size) text
    else none

/-- The least indentation of the lines that are not blank, 0 if all are. -/
def commonIndent (lines : List (List Char)) : Nat :=
  (((lines.filter fun line => !isBlankLine line).map indentWidth).min?).getD 0

/-- A line without its first `indent` bytes and its trailing blanks.  A line that
cannot be cut there loses all its leading blanks. -/
def dedentLine (indent : Nat) (line : List Char) : List Char :=
  trimEnd ((dropBytes? indent line).getD (trimStart line))

/-- The lines without the indentation that they share, each ended by a line feed. -/
def dedent (lines : List (List Char)) : List Char :=
  let indent := commonIndent lines
  lines.flatMap fun line => dedentLine indent line ++ ['\n']

end LambdaDeploy.Text
