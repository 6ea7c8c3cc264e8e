import LambdaDeploy.FileSystem.Error
import LambdaDeploy.Outline.Fault
import LambdaDeploy.Text.Utf8

/-!
# Build errors

The failures that stop a build.  A handler with a wrong signature is not among
them: it is reported by a `Diagnostic` and left out.

* `BuildError.message` — the wording of each failure.
-/

namespace LambdaDeploy

/-- A failure that stops a build. -/
inductive BuildError where
  /-- The program has handlers but does not import the dispatcher package. -/
  | dispatcherPackageUnresolved (org package : String)
  /-- The dispatcher package does not export a function that is needed. -/
  | dispatcherSymbolUnresolved (package symbol : String)
  | unknownFunction (id : Nat)
  | unknownDocument (id : Nat)
  /-- An operation on files failed while the archive was made. -/
  | packaging (path : Bytes) (cause : FileError)
  /-- The library refused to make the archive, for this reason. -/
  | archive (path : Bytes) (reason : String)
  /-- The executable's path does not end in a name, or the name is no text. -/
  | invalidExecutable (path : Bytes)
  /-- A line of the outline is refused. -/
  | outline (line : Nat) (fault : Outline.Fault)
deriving DecidableEq, Repr

/-- The wording of a failure. -/
def BuildError.message : BuildError → String
  | dispatcherPackageUnresolved org package =>
    "Dispatcher package " ++ org ++ "/" ++ package ++ " cannot be resolved"
  | dispatcherSymbolUnresolved package symbol =>
    "Symbol " ++ symbol ++ " not found in dispatcher package " ++ package
  | unknownFunction id => "Function #" ++ toString id ++ " does not exist in the program"
  | unknownDocument id => "Document #" ++ toString id ++ " does not exist in the program"
  | packaging path cause =>
    "Error generating AWS lambda zip file " ++ path.display ++ ": " ++ cause.message
  | archive path reason =>
    "Error writing AWS lambda zip archive " ++ path.display ++ ": " ++ reason
  | invalidExecutable path => "Executable path " ++ path.display ++ " has no file name"
  | outline line fault => "Outline line " ++ toString line ++ ": " ++ fault.message

end LambdaDeploy
