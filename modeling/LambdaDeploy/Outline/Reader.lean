import LambdaDeploy.Outline.Document
import LambdaDeploy.Program.Basic

/-!
# Reading an outline

An outline is read in two passes over its lines: the first finds the declarations
and the documents, the second reads the documents, all of them in the scope of all
declarations.

* `Program.addBlock` — the program with one more document and its functions.
* `Program.ofOutline` — the program that an outline describes.
-/

namespace LambdaDeploy

namespace Program

/-- Adds functions to the end of a document, in order. -/
def addFunctions (program : Program) (document : DocumentId) :
    List FunctionDecl → Except BuildError Program
  | [] => .ok program
  | f :: functions => do
    let (_, program) ← program.addFunction document f
    addFunctions program document functions

/-- The program with one more document, read from the lines of a block.  The
document's text is that of the lines without their common indentation. -/
def addBlock (program : Program) (block : Outline.Block) : Except BuildError Program := do
  let functions ← block.functions program.toScope
  let source := String.ofList (Text.dedent (block.lines.map (·.text)))
  (program.addDocument block.name source).addFunctions program.documents.length functions

/-- The program that an outline describes. -/
def ofOutline (text : String) : Except BuildError Program := do
  let layout ← Outline.Layout.ofLines (Text.numberedLines text.toList)
  layout.blocks.foldlM addBlock (ofScope layout.scope)

end Program

end LambdaDeploy
