import LambdaDeploy.Program.Basic

/-!
# Edits

Changes to a program are values: analysis collects them, and the caller decides
whether to apply them.  An edit is applied as a whole or not at all.

* `Mutation.check` — the document or function that a change is for exists.
* `Program.apply` — checks every change, then makes them in order, and gives the
  ids of the functions that were added.
-/

namespace LambdaDeploy

/-- One change of a program. -/
inductive Mutation where
  /-- Adds a function to the end of a document. -/
  | add (document : DocumentId) (function : FunctionDecl)
  /-- Gives a function another body. -/
  | replaceBody (function : FunctionId) (body : List Stmt)
  /-- Puts another function in the place of one, under the same id. -/
  | replaceFunction (function : FunctionId) (replacement : FunctionDecl)
deriving DecidableEq, Repr, Inhabited

/-- Changes in the order in which they are made. -/
abbrev Edit := List Mutation

/-- Refuses a change whose document or function the program does not have. -/
def Mutation.check (program : Program) : Mutation → Except BuildError Unit
  | add document _ =>
    if document < program.documents.length then .ok () else .error (.unknownDocument document)
  | replaceBody function _ | replaceFunction function _ =>
    if function < program.functions.length then .ok () else .error (.unknownFunction function)

namespace Program

/-- Makes one change.  The result has the id of the function that was added, if
the change adds one. -/
def mutate (program : Program) : Mutation → List FunctionId × Program
  | .add document function =>
    ([program.functions.length], program.appendFunction document function)
  | .replaceBody function body =>
    ([], { program with
      functions := program.functions.modify function fun f => { f with body := body } })
  | .replaceFunction function replacement =>
    ([], { program with
      functions := program.functions.modify function fun _ => replacement })

/-- Makes the changes in turn, and gathers the ids of the functions they add. -/
def mutateAll (program : Program) : Edit → List FunctionId × Program
  | [] => ([], program)
  | m :: edit =>
    let (added, program) := program.mutate m
    let (more, program) := mutateAll program edit
    (added ++ more, program)

/-- Refuses an edit that has a change which the program refuses; the first such
change is named. -/
def checkEdit (program : Program) : Edit → Except BuildError Unit
  | [] => .ok ()
  | m :: edit => do
    m.check program
    checkEdit program edit

/-- Applies an edit.  All changes are checked before the first is made.  The
result has the ids of the added functions, in the order of the edit. -/
def apply (program : Program) (edit : Edit) :
    Except BuildError (List FunctionId × Program) := do
  program.checkEdit edit
  return program.mutateAll edit

end Program

end LambdaDeploy
