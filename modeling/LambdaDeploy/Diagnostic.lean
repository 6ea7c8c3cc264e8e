/-!
# Diagnostics

Messages about a place in a document.  A diagnostic never stops a build; the
errors that do are in `LambdaDeploy.BuildError`.

* `Diagnostic.text` — the line shown to the user, `SEVERITY [document:(line:column)] message`.
* `DiagnosticLog` — the diagnostics of one analysis, in the order of their logging.
-/

namespace LambdaDeploy

/-- A place in a document; a declaration that was not read from a text is at
line 0 and column 0. -/
structure Location where
  document : String := ""
  line : Nat := 0
  column : Nat := 0
deriving DecidableEq, Repr, Inhabited

/-- The written form of a location. -/
def Location.text (place : Location) : String :=
  place.document ++ ":(" ++ toString place.line ++ ":" ++ toString place.column ++ ")"

/-- How serious a diagnostic is. -/
inductive Severity where
  | error
  | warning
deriving DecidableEq, Repr, Inhabited

/-- The written form of a severity. -/
def Severity.text : Severity → String
  | .error => "ERROR"
  | .warning => "WARNING"

/-- A message about a place in a document. -/
structure Diagnostic where
  severity : Severity
  location : Location
  message : String
deriving DecidableEq, Repr, Inhabited

/-- The line that shows a diagnostic. -/
def Diagnostic.text (d : Diagnostic) : String :=
  d.severity.text ++ " [" ++ d.location.text ++ "] " ++ d.message

/-- The diagnostics of one analysis, oldest first. -/
structure DiagnosticLog where
  entries : List Diagnostic := []
deriving DecidableEq, Repr, Inhabited

namespace DiagnosticLog

/-- The log with one more diagnostic at its end. -/
def add (log : DiagnosticLog) (d : Diagnostic) : DiagnosticLog := ⟨log.entries ++ [d]⟩

/-- Nothing was logged. -/
def isEmpty (log : DiagnosticLog) : Bool := log.entries.isEmpty

/-- The number of logged errors. -/
def errorCount (log : DiagnosticLog) : Nat := log.entries.countP (·.severity = .error)

/-- At least one error was logged. -/
def hasErrors (log : DiagnosticLog) : Bool := log.entries.any (·.severity = .error)

end DiagnosticLog

end LambdaDeploy
