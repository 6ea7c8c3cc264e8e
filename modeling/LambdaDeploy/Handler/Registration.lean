import LambdaDeploy.Handler.EntryPoint
import LambdaDeploy.Program.Visit

/-!
# Registration of handlers

The analysis of a program finds the functions that are marked as handlers, sorts
out those with a wrong signature, and plans the generated code as an edit.  A run
applies the edit and writes out every document again.

* `Program.candidates` — the marked functions, in declaration order.
* `Program.analyze` — the edit with its diagnostics; the program stays as it is.
* `Program.register` — analysis, then the edit and new texts.  A run that
  registers nothing changes nothing.
-/

namespace LambdaDeploy

/-- How many functions an analysis looked at. -/
structure Statistics where
  /-- The functions marked as handlers. -/
  candidates : Nat := 0
  rejected : Nat := 0
  registered : Nat := 0
deriving DecidableEq, Repr, Inhabited

/-- The result of an analysis. -/
structure Analysis where
  edit : Edit := []
  /-- The names of the registered handlers, in order. -/
  generated : List String := []
  diagnostics : DiagnosticLog := {}
  statistics : Statistics := {}
deriving DecidableEq, Repr, Inhabited

namespace Program

/-! ## Finding handlers -/

/-- The functions that are marked as handlers, in declaration order. -/
def candidates (program : Program) (dispatcher : Dispatcher) :
    List (FunctionId × FunctionDecl) :=
  program.declared.filter fun entry => dispatcher.marks entry.2

/-- The candidates whose signature is that of a handler. -/
def handlers (program : Program) (dispatcher : Dispatcher) : List (FunctionId × FunctionDecl) :=
  (program.candidates dispatcher).filter fun entry =>
    dispatcher.accepts program.toScope entry.2

/-- One error for each candidate with another signature, in declaration order. -/
def rejections (program : Program) (dispatcher : Dispatcher) : List Diagnostic :=
  (program.candidates dispatcher).filterMap fun entry =>
    match dispatcher.checkSignature program.toScope entry.2 with
    | .ok () => none
    | .error violation => some (dispatcher.signatureDiagnostic entry.2 violation)

/-! ## Planning the generated code -/

/-- The change that installs the proxy of a handler: in the place of the first
function of that name, or at the end of the handler's document. -/
def proxyMutation (program : Program) (dispatcher : Dispatcher)
    (entry : FunctionId × FunctionDecl) : Mutation :=
  let proxy := dispatcher.proxy program.package entry.2
  match program.findFunction? proxy.name with
  | some existing => .replaceFunction existing proxy
  | none => .add ((program.documentOf? entry.1).getD 0) proxy

/-- The analysis of a program whose handlers can be registered: the proxies, the
entry point, and a warning if the entry point had statements of the user. -/
def plan (program : Program) (dispatcher : Dispatcher) (i : Import)
    (existing : Option (FunctionId × FunctionDecl)) (found : Analysis) :
    Except BuildError Analysis :=
  let handlers := program.handlers dispatcher
  let registrations := handlers.map fun entry =>
    { handler := entry.2, proxy := dispatcher.proxy program.package entry.2 : Registration }
  let document := (handlers.head?.bind fun entry => program.documentOf? entry.1).getD 0
  let warnings := (existing.toList.filter fun entry => entry.2.body.any Stmt.isVerbatim).map
    fun entry => entry.2.replacedBodyDiagnostic
  match program.entryPointMutation dispatcher i registrations (existing.map (·.1)) document
      found.generated with
  | (.error e, _) => .error e
  | (.ok entryPoint, generated) =>
    .ok { edit := handlers.map (program.proxyMutation dispatcher) ++ [entryPoint]
          generated := generated
          diagnostics := warnings.foldl DiagnosticLog.add found.diagnostics
          statistics := { found.statistics with registered := generated.length } }

/-- Finds the handlers of a program and plans their registration.  Candidates with
a wrong signature are reported and left out.  With no handler left, or with an
entry point that cannot be used, nothing is planned; a dispatcher package that is
not imported, or does not export what is needed, is an error. -/
def analyze (program : Program) (dispatcher : Dispatcher) : Except BuildError Analysis :=
  let candidates := program.candidates dispatcher
  let rejections := program.rejections dispatcher
  let found : Analysis :=
    { diagnostics := ⟨rejections⟩
      statistics := { candidates := candidates.length, rejected := rejections.length } }
  if (program.handlers dispatcher).isEmpty then .ok found
  else
    match program.importOf? dispatcher.org dispatcher.package with
    | none => .error (.dispatcherPackageUnresolved dispatcher.org dispatcher.package)
    | some i =>
      match program.entryPoint? dispatcher with
      | .error conflict =>
        .ok { found with diagnostics := found.diagnostics.add conflict.diagnostic }
      | .ok existing => program.plan dispatcher i existing found

/-! ## Registering -/

/-- Analyses a program, applies the edit and gives every document its written
form.  An empty edit leaves the program as it is, texts included. -/
def register (program : Program) (dispatcher : Dispatcher) :
    Except BuildError (Analysis × Program) := do
  let analysis ← program.analyze dispatcher
  if analysis.edit.isEmpty then return (analysis, program)
  let (_, edited) ← program.apply analysis.edit
  return (analysis, edited.commitSources)

end Program

end LambdaDeploy
