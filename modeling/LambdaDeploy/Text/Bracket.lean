import LambdaDeploy.Text.Cut

/-!
# Brackets

Three scans of a text that count brackets.

* `braceDelta` — how many more braces a line opens than it closes, braces
  inside string literals not counted.
* `matchingParen?` — where the parenthesis opened at a position is closed;
  `stripParens?` — what a pair of parentheses around the whole text encloses.
* `splitTop` — the pieces between the separators that stand outside brackets of
  any kind.
-/

namespace LambdaDeploy.Text

/-! ## Braces outside string literals -/

/-- Where a scan stands with respect to string literals. -/
inductive LiteralState where
  /-- Not in a literal. -/
  | outside
  /-- Between the quotes of a literal. -/
  | inside
  /-- In a literal, right after a backslash. -/
  | escaped
deriving DecidableEq, Repr

/-- One more character: a quote opens or closes a literal, and inside a literal
a backslash makes the next character an ordinary one. -/
def LiteralState.next : LiteralState → Char → LiteralState
  | .outside, c => if c = '"' then .inside else .outside
  | .inside, c => if c = '\\' then .escaped else if c = '"' then .outside else .inside
  | .escaped, _ => .inside

/-- What a character adds to the brace depth; inside a literal it adds nothing. -/
def braceValue (state : LiteralState) (c : Char) : Int :=
  if state = .outside then
    if c = '{' then 1 else if c = '}' then -1 else 0
  else 0

/-- Opening less closing braces of a text that is read in the given state. -/
def braceDeltaFrom : LiteralState → List Char → Int
  | _, [] => 0
  | state, c :: text => braceValue state c + braceDeltaFrom (state.next c) text

/-- Opening less closing braces of a text, those in string literals not counted. -/
def braceDelta (text : List Char) : Int := braceDeltaFrom .outside text

/-! ## Parentheses -/

/-- What a character adds to the depth of parentheses. -/
def parenValue (c : Char) : Int :=
  if c = '(' then 1 else if c = ')' then -1 else 0

/-- The offset of the first `)` that brings the depth to zero, when the text is
read at the given depth. -/
def closingParen? : Int → List Char → Option Nat
  | _, [] => none
  | depth, c :: text =>
    let depth := depth + parenValue c
    if c = ')' ∧ depth = 0 then some 0 else (closingParen? depth text).map (· + 1)

/-- The position of the `)` that closes the `(` at position `start`. -/
def matchingParen? (text : List Char) (start : Nat) : Option Nat :=
  (closingParen? 0 (text.drop start)).map (· + start)

/-- The text inside a pair of parentheses that encloses the whole of it and is
not empty. -/
def stripParens? (text : List Char) : Option (List Char) :=
  if 2 < text.length ∧ text.head? = some '(' ∧
      matchingParen? text 0 = some (text.length - 1) then
    some (text.drop 1).dropLast
  else none

theorem length_of_stripParens? {text inner : List Char}
    (h : stripParens? text = some inner) : inner.length + 2 = text.length := by
  unfold stripParens? at h
  split at h
  · rename_i hc
    cases h
    simp only [List.length_dropLast, List.length_drop]
    omega
  · cases h

/-! ## Separators outside brackets -/

/-- The opening brackets of the four kinds. -/
def isOpening (c : Char) : Bool := c == '(' || c == '<' || c == '{' || c == '['

/-- The closing brackets of the four kinds. -/
def isClosing (c : Char) : Bool := c == ')' || c == '>' || c == '}' || c == ']'

/-- What a character adds to the depth of brackets, counted without regard to
their kind. -/
def bracketValue (c : Char) : Int :=
  if isOpening c then 1 else if isClosing c then -1 else 0

/-- The pieces between the separators at depth zero, when the text is read at the
given depth.  A bracket is never a separator. -/
def splitTopFrom (sep : Char) : Int → List Char → List (List Char)
  | _, [] => [[]]
  | depth, c :: text =>
    if bracketValue c = 0 ∧ c = sep ∧ depth = 0 then [] :: splitTopFrom sep depth text
    else consFirst c (splitTopFrom sep (depth + bracketValue c) text)

/-- The pieces of a text between the separators that stand outside brackets. -/
def splitTop (sep : Char) (text : List Char) : List (List Char) := splitTopFrom sep 0 text

theorem length_le_of_mem_consFirst {c : Char} {n : Nat} {pieces : List (List Char)}
    (h : ∀ piece ∈ pieces, piece.length ≤ n) :
    ∀ piece ∈ consFirst c pieces, piece.length ≤ n + 1 := by
  intro piece hp
  cases pieces with
  | nil => simp_all [consFirst]
  | cons first others =>
    simp only [consFirst, List.mem_cons] at hp
    rcases hp with rfl | hp
    · simpa using h first (by simp)
    · exact Nat.le_succ_of_le (h piece (by simp [hp]))

theorem length_le_of_mem_splitTopFrom {sep : Char} {text : List Char} {depth : Int} :
    ∀ piece ∈ splitTopFrom sep depth text, piece.length ≤ text.length := by
  induction text generalizing depth with
  | nil => simp [splitTopFrom]
  | cons c text ih =>
    intro piece hp
    unfold splitTopFrom at hp
    split at hp
    · rcases List.mem_cons.1 hp with rfl | hp
      · simp
      · exact Nat.le_succ_of_le (ih piece hp)
    · exact length_le_of_mem_consFirst ih piece hp

/-- No piece is longer than the text it was cut from. -/
theorem length_le_of_mem_splitTop {sep : Char} {text piece : List Char}
    (h : piece ∈ splitTop sep text) : piece.length ≤ text.length :=
  length_le_of_mem_splitTopFrom piece h

end LambdaDeploy.Text
