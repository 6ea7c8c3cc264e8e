/-!
# Terminals

Where a build shows its results and its complaints.

* `Terminal` — an output that may refuse text, and an error output.
* `Terminal.showAll` — several texts in turn, up to the first that is refused.
* `Terminal.reportAll` — several texts in turn to the error output.
-/

namespace LambdaDeploy

/-- The two outputs of a build. -/
class Terminal (m : Type → Type) where
  /-- Writes a text to the output, and tells whether all of it was taken. -/
  output : String → m Bool
  /-- Writes a text to the error output. -/
  report : String → m Unit

/-- Writes several texts to the output, up to the first that is not taken whole. -/
def Terminal.showAll {m : Type → Type} [Monad m] [Terminal m] : List String → m Unit
  | [] => pure ()
  | text :: texts => do
    if ← Terminal.output text then showAll texts

/-- Writes several texts to the error output. -/
def Terminal.reportAll {m : Type → Type} [Monad m] [Terminal m] : List String → m Unit
  | [] => pure ()
  | text :: texts => do
    Terminal.report text
    reportAll texts

end LambdaDeploy
