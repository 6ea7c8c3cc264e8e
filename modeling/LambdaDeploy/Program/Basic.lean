import LambdaDeploy.BuildError
import LambdaDeploy.Program.Rendering

/-!
# Programs

A program is a scope, a list of documents and one list of functions.  A function
is known by its position in that list, its id, and a document holds the ids of
its functions.  Declaration order runs through the documents in turn, and through
the ids of each.

* `Program.declared` — the functions in declaration order, with their ids.
* `Program.findFunction?` — the first function of a name in declaration order.
* `Program.addFunction` — a new function gets the next id and goes to the end of
  its document.
* `Program.renderDocument` — the written form of a document: the imports, then
  its functions.
-/

namespace LambdaDeploy

/-- The position of a function in its program. -/
abbrev FunctionId := Nat

/-- The position of a document in its program. -/
abbrev DocumentId := Nat

/-- A document: the ids of its functions, and its text. -/
structure Document where
  name : String
  functions : List FunctionId := []
  source : String
deriving DecidableEq, Repr, Inhabited

/-- A program: what names refer to, and its documents with their functions. -/
structure Program extends Scope where
  documents : List Document := []
  /-- All functions, by id. -/
  functions : List FunctionDecl := []
deriving DecidableEq, Repr, Inhabited

namespace Program

/-- The program of a scope, without documents. -/
def ofScope (scope : Scope) : Program := { scope with }

/-- The program of a package that imports and declares nothing. -/
def empty (package : Package) : Program := ofScope { package := package }

/-! ## Looking up -/

/-- The function with this id. -/
def function? (program : Program) (id : FunctionId) : Option FunctionDecl :=
  program.functions[id]?

/-- The document with this id. -/
def document? (program : Program) (id : DocumentId) : Option Document :=
  program.documents[id]?

/-- The ids of all documents' functions, in declaration order. -/
def order (program : Program) : List FunctionId := program.documents.flatMap (·.functions)

/-- The functions in declaration order, each with its id. -/
def declared (program : Program) : List (FunctionId × FunctionDecl) :=
  program.order.filterMap fun id => (program.function? id).map fun f => (id, f)

/-- The id of the first function of this name, in declaration order. -/
def findFunction? (program : Program) (name : String) : Option FunctionId :=
  (program.declared.find? fun entry => entry.2.name == name).map (·.1)

/-- The first document that holds this id. -/
def documentOf? (program : Program) (id : FunctionId) : Option DocumentId :=
  program.documents.findIdx? fun document => document.functions.contains id

/-! ## Adding -/

/-- The program with one more import. -/
def addImport (program : Program) (i : Import) : Program :=
  { program with toScope := program.toScope.addImport i }

/-- The program with one more declared type. -/
def declareType (program : Program) (name : String) : Program :=
  { program with toScope := program.toScope.declareType name }

/-- The program with one more document, which has no functions yet. -/
def addDocument (program : Program) (name source : String) : Program :=
  { program with documents := program.documents ++ [{ name := name, source := source }] }

/-- The program with a function at the end of a document.  The function gets the
next id; a document that does not exist changes nothing but takes the id. -/
def appendFunction (program : Program) (document : DocumentId) (f : FunctionDecl) : Program :=
  { program with
    documents := program.documents.modify document fun d =>
      { d with functions := d.functions ++ [program.functions.length] }
    functions := program.functions ++ [f] }

/-- Adds a function to the end of a document, and gives its id. -/
def addFunction (program : Program) (document : DocumentId) (f : FunctionDecl) :
    Except BuildError (FunctionId × Program) :=
  if document < program.documents.length then
    .ok (program.functions.length, program.appendFunction document f)
  else .error (.unknownDocument document)

/-! ## Source text -/

/-- The written form of the functions with these ids under some imports: the
imports, one on each line, then the functions, each set off from what stands
before it by an empty line. -/
def renderListing (imports functions : List String) : String :=
  functions.foldl (fun out text => (if out = "" then out else out ++ "\n") ++ text)
    (String.join (imports.map (· ++ "\n")))

/-- The written form of a document; a document that does not exist has none. -/
def renderDocument (program : Program) (id : DocumentId) : String :=
  match program.document? id with
  | none => ""
  | some document =>
    renderListing (program.imports.map Scope.renderImport)
      ((document.functions.filterMap program.function?).map program.toScope.renderFunction)

end Program

end LambdaDeploy
