import LambdaDeploy.CommandLine.Arguments
import LambdaDeploy.Deployment.Packaging
import LambdaDeploy.Handler.Registration
import LambdaDeploy.Outline.Reader

/-!
# Running a command line

A build reads an outline and registers the handlers of the program.  It shows the
diagnostics, writes out the documents' texts if asked to, and then packages the
executable if there is one.  The first failure ends it.

* `Arguments.build` — one build.
* `runCommand` — a whole command line, with its exit code.
-/

namespace LambdaDeploy

variable {m : Type → Type} [Monad m] [FileStore m]

/-- A failure that ends a command. -/
inductive Failure where
  /-- An operation on the outline or on the emitted text failed. -/
  | file (cause : FileError)
  | build (e : BuildError)
deriving DecidableEq, Repr

/-- The wording of a failure. -/
def Failure.message : Failure → String
  | file cause => cause.message
  | build e => e.message

/-- The text of a file, which must be UTF-8. -/
def readText (path : Bytes) : m (Except FileError String) := do
  match ← FileStore.read path with
  | .error cause => return .error cause
  | .ok content =>
    match String.fromUTF8? content with
    | some text => return .ok text
    | none => return .error .notUtf8

/-- The deployment settings that a command line asks for. -/
def Arguments.deployment (arguments : Arguments) : Deployment :=
  let standard : Deployment := {}
  { standard with
    layer := arguments.layer.getD standard.layer
    memorySize := arguments.memorySize.getD standard.memorySize
    timeout := arguments.timeout.getD standard.timeout }

/-- The text of all documents, one after the other. -/
def Program.sources (program : Program) : String :=
  String.intercalate "\n" (program.documents.map (·.source))

/-- An operation on files whose failure ends a command. -/
def fileStep {α : Type} (operation : m (Except FileError α)) : ExceptT Failure m α := do
  match ← operation with
  | .ok a => return a
  | .error cause => throw (.file cause)

/-- A step of a build whose failure ends a command. -/
def buildStep {α : Type} (result : Except BuildError α) : ExceptT Failure m α :=
  match result with
  | .ok a => return a
  | .error e => throw (.build e)

variable [Terminal m]

/-- One build: outline, registration, diagnostics, emitted text, archive. -/
def Arguments.build (zip : ZipLibrary) (arguments : Arguments) : ExceptT Failure m Unit := do
  let dispatcher : Dispatcher := {}
  let text ← fileStep (readText (.ofText arguments.outline))
  let program ← buildStep (Program.ofOutline text)
  let (analysis, program) ← buildStep (program.register dispatcher)
  Terminal.reportAll (m := m) (analysis.diagnostics.entries.map fun d => d.text ++ "\n")
  if let some path := arguments.emit then
    fileStep (FileStore.write (.ofText path) program.sources.toUTF8)
  if let some executable := arguments.executable then
    let result ← (arguments.deployment.package zip dispatcher (.ofText executable) program
      analysis.generated : ExceptT BuildError m (Option Bytes)).run
    let _ ← buildStep result

/-- The line that names the program and its version. -/
def versionText : String := "lambdagen 0.1.0\n"

/-- What the program does, and its arguments. -/
def helpText : String :=
  "Register and package AWS Lambda handlers\n\n" ++
  "Usage: lambdagen [OPTIONS] <OUTLINE>\n\n" ++
  "Arguments:\n" ++
  "  <OUTLINE>  Program outline to process\n\n" ++
  "Options:\n" ++
  "      --executable <EXECUTABLE>    Compiled executable to package after analysis\n" ++
  "      --emit <EMIT>                " ++
    "Write the rewritten source of every document to this file\n" ++
  "      --memory-size <MEMORY_SIZE>  \n" ++
  "      --timeout <TIMEOUT>          \n" ++
  "      --layer <LAYER>              Layer ARN used in the printed create command\n" ++
  "  -h, --help                       Print help\n" ++
  "  -V, --version                    Print version\n"

/-- Runs a command line and gives its exit code: 0 for success, 1 for a failure of
the build, 2 for a wrong command line. -/
def runCommand (zip : ZipLibrary) (arguments : List String) : m UInt32 := do
  match Request.ofArguments arguments with
  | .error e =>
    Terminal.report ("error: " ++ e.message ++ "\n")
    return 2
  | .ok .version =>
    let _ ← Terminal.output versionText
    return 0
  | .ok .help =>
    let _ ← Terminal.output helpText
    return 0
  | .ok (.build arguments) =>
    match ← (arguments.build zip : ExceptT Failure m Unit).run with
    | .ok () => return 0
    | .error failure =>
      Terminal.report ("Error: " ++ failure.message ++ "\n")
      return 1

end LambdaDeploy
