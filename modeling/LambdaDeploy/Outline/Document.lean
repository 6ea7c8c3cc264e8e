import LambdaDeploy.Outline.Header
import LambdaDeploy.Outline.Layout
import LambdaDeploy.Text.Indent

/-!
# The functions of a document

The lines of a document declare its functions one after the other.  Annotation
lines belong to the header that follows them.  A header that opens a body is
followed by the body's lines, each of them one statement, up to the line that
closes the body's braces.

* `Reading.step` — what one more line does to the functions read so far.
* `Block.functions` — the functions of a document's lines.
-/

namespace LambdaDeploy.Outline

open Text

/-- The place of a line: its number, and the column where its first character that
is not blank stands, counted in bytes from 1. -/
def place (document : String) (line : Line) : Location :=
  ⟨document, line.number, indentWidth line.text + 1⟩

/-- A function whose body is not closed yet. -/
structure OpenFunction where
  function : FunctionDecl
  /-- The number of the header line. -/
  header : Nat
  /-- Braces that are open, the body's own included. -/
  depth : Int := 1
deriving DecidableEq, Repr

/-- The part of a document that is read so far. -/
structure Reading where
  functions : List FunctionDecl := []
  /-- The annotations that wait for a header. -/
  annotations : List Annotation := []
  /-- Where the first of them stands. -/
  first : Option Location := none
  /-- The function that the next line belongs to. -/
  current : Option OpenFunction := none
deriving DecidableEq, Repr

namespace Reading

/-- One more line outside function bodies: a blank line, an annotation or a
header.  A function stands where its first annotation does. -/
def stepOutside (scope : Scope) (document : String) (reading : Reading) (line : Line) :
    Except BuildError Reading :=
  match line.trimmed with
  | [] => .ok reading
  | '@' :: text =>
    match readAnnotation scope text with
    | .error fault => .error (.outline line.number fault)
    | .ok a =>
      .ok { reading with
        annotations := reading.annotations ++ [a]
        first := some (reading.first.getD (place document line)) }
  | text =>
    match readHeader scope (reading.first.getD (place document line)) text with
    | .error fault => .error (.outline line.number fault)
    | .ok (f, hasBody) =>
      let f := { f with annotations := reading.annotations }
      if hasBody then
        .ok { functions := reading.functions
              current := some { function := f, header := line.number } }
      else .ok { functions := reading.functions ++ [f] }

/-- One more line inside a function body: the closing line, or a statement unless
the line is blank. -/
def stepInside (reading : Reading) (f : OpenFunction) (line : Line) : Reading :=
  let text := line.trimmed
  let depth := f.depth + braceDelta text
  if depth ≤ 0 then
    { reading with functions := reading.functions ++ [f.function], current := none }
  else
    let body := f.function.body ++ (if text = [] then [] else [.verbatim (String.ofList text)])
    { reading with
      current := some { f with function := { f.function with body := body }, depth := depth } }

/-- One more line. -/
def step (scope : Scope) (document : String) (reading : Reading) (line : Line) :
    Except BuildError Reading :=
  match reading.current with
  | none => reading.stepOutside scope document line
  | some f => .ok (reading.stepInside f line)

/-- The functions after the last line, where no body may be open and no annotation
may wait for a header. -/
def finish (reading : Reading) : Except BuildError (List FunctionDecl) :=
  match reading.current with
  | some f => .error (.outline f.header (.unclosedFunction f.function.name))
  | none =>
    if reading.annotations = [] then .ok reading.functions
    else .error (.outline ((reading.first.map (·.line)).getD 0) .annotationsWithoutFunction)

end Reading

/-- The functions that a document's lines declare. -/
def Block.functions (block : Block) (scope : Scope) : Except BuildError (List FunctionDecl) := do
  let reading ← block.lines.foldlM (Reading.step scope block.name) {}
  reading.finish

end LambdaDeploy.Outline
