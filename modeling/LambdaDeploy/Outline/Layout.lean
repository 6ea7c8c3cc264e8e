import LambdaDeploy.Outline.Declaration
import LambdaDeploy.Text.Bracket
import LambdaDeploy.Text.Lines

/-!
# The layout of an outline

An outline is a sequence of declarations and documents.  A document begins with a
header line and ends with the line that closes its braces; its lines are kept as
they are, without comments.  A comment is a line whose first character that is not
blank is a semicolon.

* `Layout.step` — what one more line does to the layout read so far.
* `Layout.ofLines` — the layout of a list of numbered lines.
-/

namespace LambdaDeploy.Outline

open Text

/-- The lines of a document without comments, between its header and the line that
closes it. -/
structure Block where
  name : String
  lines : List Line := []
deriving DecidableEq, Repr

/-- A document whose closing line is not read yet. -/
structure OpenBlock extends Block where
  /-- The number of the header line. -/
  header : Nat
  /-- Braces that are open, the document's own included. -/
  depth : Int := 1
deriving DecidableEq, Repr

/-- The part of an outline that is read so far. -/
structure Layout where
  scope : Scope
  blocks : List Block := []
  /-- The document that the next line belongs to. -/
  current : Option OpenBlock := none
deriving DecidableEq, Repr

/-- Reads a document header, without the word `document`: a name, which may stand
in quotes, and an opening brace. -/
def readDocumentName (text : List Char) : Except Fault String :=
  match beforeSuffix? ['{'] (trim text) with
  | none => .error .unopenedDocument
  | some name =>
    let name := trim name
    let name := ((afterPrefix? ['"'] name).bind (beforeSuffix? ['"'])).getD name
    if name = [] then .error .missingDocumentName else .ok (String.ofList name)

namespace Layout

/-- Before the first line, the package of a program has no name of its own. -/
def start : Layout := { scope := { package := ⟨"$anon", ".", "0.0.0"⟩ } }

/-- One more line outside documents: a comment, a document header or a
declaration. -/
def stepOutside (layout : Layout) (line : Line) : Except BuildError Layout :=
  let text := line.trimmed
  if text = [] ∨ text.head? = some ';' then .ok layout
  else
    match afterPrefix? "document ".toList text with
    | some rest =>
      match readDocumentName rest with
      | .ok name =>
        .ok { layout with current := some { name := name, header := line.number } }
      | .error fault => .error (.outline line.number fault)
    | none =>
      match declare layout.scope text with
      | .ok scope => .ok { layout with scope := scope }
      | .error fault => .error (.outline line.number fault)

/-- One more line inside a document: a comment, the closing line, or a line that
is kept. -/
def stepInside (layout : Layout) (block : OpenBlock) (line : Line) : Layout :=
  let text := line.trimmed
  if text.head? = some ';' then layout
  else
    let depth := block.depth + braceDelta text
    if depth ≤ 0 then
      { layout with blocks := layout.blocks ++ [block.toBlock], current := none }
    else
      { layout with
        current := some { block with lines := block.lines ++ [line], depth := depth } }

/-- One more line. -/
def step (layout : Layout) (line : Line) : Except BuildError Layout :=
  match layout.current with
  | none => layout.stepOutside line
  | some block => .ok (layout.stepInside block line)

/-- The layout after the last line, where no document may be open. -/
def finish (layout : Layout) : Except BuildError Layout :=
  match layout.current with
  | none => .ok layout
  | some block => .error (.outline block.header (.unclosedDocument block.name))

/-- The layout of an outline's lines. -/
def ofLines (lines : List Line) : Except BuildError Layout := do
  let layout ← lines.foldlM step start
  layout.finish

end Layout

end LambdaDeploy.Outline
