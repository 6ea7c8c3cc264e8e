import LambdaDeploy.Program.Basic

/-!
# Visiting the functions of a program

A visitor is a function that takes a state and a function declaration to a new
state and a new declaration.  A visit hands it every function of a program in
declaration order, and gives every document the written form of what came out.

* `Program.visit` — the visitor's last state and the program it leaves.
* `Program.commitSources` — the visit that leaves the functions alone, so that
  only the documents' texts change.
-/

namespace LambdaDeploy

/-- What is done to one function while a state is carried along. -/
abbrev Visitor (σ : Type) := σ → FunctionDecl → σ × FunctionDecl

namespace Program

variable {σ : Type}

/-- Puts what the visitor makes of the function with this id in its place; an
unknown id is passed over. -/
def visitFunction (visitor : Visitor σ) (acc : σ × Program) (id : FunctionId) : σ × Program :=
  match acc.2.function? id with
  | none => acc
  | some f =>
    let (state, f) := visitor acc.1 f
    (state, { acc.2 with functions := acc.2.functions.set id f })

/-- Gives a document its written form as its text. -/
def commitSource (program : Program) (id : DocumentId) : Program :=
  { program with
    documents := program.documents.modify id fun d =>
      { d with source := program.renderDocument id } }

/-- Visits the functions of a document in turn, then commits its text. -/
def visitDocument (visitor : Visitor σ) (acc : σ × Program) (entry : Document × DocumentId) :
    σ × Program :=
  let (state, program) := entry.1.functions.foldl (visitFunction visitor) acc
  (state, program.commitSource entry.2)

/-- Visits every document in turn. -/
def visit (visitor : Visitor σ) (state : σ) (program : Program) : σ × Program :=
  program.documents.zipIdx.foldl (visitDocument visitor) (state, program)

/-- Gives every document its written form as its text. -/
def commitSources (program : Program) : Program :=
  (program.visit (fun state f => (state, f)) ()).2

end Program

end LambdaDeploy
