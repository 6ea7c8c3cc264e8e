import LambdaDeploy.Handler.Proxy
import LambdaDeploy.Handler.Signature
import LambdaDeploy.Program.Edit

/-!
# The entry point

As soon as a program has handlers, the body of its entry point is generated: it
registers each handler and then starts the dispatch.  What the user wrote there is
replaced.

* `Program.entryPoint?` — the function that has the entry point's name, unless it
  cannot be the entry point (`EntryPointConflict`).
* `Dispatcher.entryPointBody` — one registration for each handler in order, then
  the call that starts the dispatch.
* `Program.entryPointMutation` — the change that installs this body, and the
  names of the registered handlers.
-/

namespace LambdaDeploy

/-! ## The existing entry point -/

/-- A function has the entry point's name and cannot be the entry point. -/
inductive EntryPointConflict where
  /-- It is marked as a handler. -/
  | handler (name : String) (location : Location)
  /-- It takes parameters. -/
  | parameterized (name : String) (location : Location)
deriving DecidableEq, Repr

namespace EntryPointConflict

/-- Where the function is declared. -/
def location : EntryPointConflict → Location
  | handler _ place => place
  | parameterized _ place => place

/-- The wording of a conflict. -/
def message : EntryPointConflict → String
  | handler name _ =>
    "function '" ++ name ++ "' is an AWS lambda function and cannot also be the entry point"
  | parameterized name _ =>
    "function '" ++ name ++ "' takes parameters and cannot be the entry point"

/-- The error shown for a conflict. -/
def diagnostic (conflict : EntryPointConflict) : Diagnostic :=
  ⟨.error, conflict.location, conflict.message⟩

end EntryPointConflict

/-- The existing entry point.  The first function of that name is it, unless it is
marked as a handler or takes parameters. -/
def Program.entryPoint? (program : Program) (dispatcher : Dispatcher) :
    Except EntryPointConflict (Option (FunctionId × FunctionDecl)) :=
  match program.declared.find? fun entry => entry.2.name == dispatcher.entryPoint with
  | none => .ok none
  | some (id, f) =>
    if dispatcher.marks f then .error (.handler f.name f.location)
    else if !f.params.isEmpty || f.restParam.isSome then
      .error (.parameterized f.name f.location)
    else .ok (some (id, f))

/-- The warning shown when statements of the user are replaced. -/
def FunctionDecl.replacedBodyDiagnostic (f : FunctionDecl) : Diagnostic :=
  ⟨.warning, f.location,
    "statements in '" ++ f.name ++ "' are replaced by the generated handler registration"⟩

/-! ## The generated body -/

/-- A handler with its proxy. -/
structure Registration where
  handler : FunctionDecl
  proxy : FunctionDecl
deriving DecidableEq, Repr, Inhabited

/-- The type of a handler's second parameter.  A handler has at least two
parameters; a function with fewer is given `()`. -/
def FunctionDecl.payloadType (handler : FunctionDecl) : Ty :=
  match handler.params with
  | _ :: payload :: _ => payload.type
  | _ => .builtin .nil

namespace Dispatcher

/-- The statement that registers a handler: its name, its proxy and the type of
its payload are handed to the dispatcher package. -/
def registerStmt (dispatcher : Dispatcher) (package : Package) (i : Import)
    (r : Registration) : Except BuildError Stmt := do
  let call ← i.call dispatcher.registerFunction
    [.stringLiteral r.handler.name, .functionRef ⟨package, r.proxy.name⟩,
      .typeValue r.handler.payloadType]
    (.builtin .nil)
  return .expr call

/-- The statement that starts the dispatch. -/
def processStmt (dispatcher : Dispatcher) (i : Import) : Except BuildError Stmt := do
  let call ← i.call dispatcher.processFunction [] (.builtin .nil)
  return .expr call

/-- The body of the entry point: one registration for each handler, in order, then
the start of the dispatch. -/
def entryPointBody (dispatcher : Dispatcher) (package : Package) (i : Import)
    (registrations : List Registration) : Except BuildError (List Stmt) := do
  let registered ← registrations.mapM (dispatcher.registerStmt package i)
  let start ← dispatcher.processStmt i
  return registered ++ [start]

end Dispatcher

/-! ## Installing it -/

namespace Program

/-- A new entry point with this body; its location is the document alone. -/
def newEntryPoint (program : Program) (dispatcher : Dispatcher) (document : DocumentId)
    (body : List Stmt) : FunctionDecl :=
  let name := ((program.document? document).map (·.name)).getD ""
  { FunctionDecl.generated dispatcher.entryPoint { document := name } [] none with body := body }

/-- The change that installs the generated body: in the existing entry point, or
in a new one at the end of `document`.  The handlers' names are added to the
recorded ones once the body is complete; if it cannot be built they stay as they
are. -/
def entryPointMutation (program : Program) (dispatcher : Dispatcher) (i : Import)
    (registrations : List Registration) (existing : Option FunctionId)
    (document : DocumentId) (recorded : List String) :
    Except BuildError Mutation × List String :=
  match dispatcher.entryPointBody program.package i registrations with
  | .error e => (.error e, recorded)
  | .ok body =>
    let mutation :=
      match existing with
      | some id => .replaceBody id body
      | none => .add document (program.newEntryPoint dispatcher document body)
    (.ok mutation, recorded ++ registrations.map (·.handler.name))

end Program

end LambdaDeploy
