import LambdaDeploy.Archive.Reader
import LambdaDeploy.CommandLine.Session

/-!
# The command line program

Runs a command line on the files and the terminal of this machine.  All decisions
are those of `runCommand`; here its operations are handed to the system, which names
files by texts only.
-/

namespace LambdaDeploy.Main

/-- The cause that the system gives for a failure, from its number and wording.  Some
operations give the number negated, in 32 bits. -/
def causeOf (code : UInt32) (details : String) : FileError :=
  let number := if code < 0x80000000 then code else 0 - code
  match number with
  | 1 => .refused .notPermitted
  | 2 => .notFound
  | 13 => .refused .permissionDenied
  | 17 => .alreadyExists
  | 20 => .notADirectory
  | 21 => .isADirectory
  | 30 => .refused .readOnly
  | 36 => .nameTooLong
  | 40 => .tooManyLinks
  | _ => .other (details ++ " (os error " ++ toString number ++ ")")

/-- The cause of a failed operation of the system. -/
def fileError : IO.Error → FileError
  | .noFileOrDirectory _ code details => causeOf code details
  | .alreadyExists _ code details | .invalidArgument _ code details
  | .permissionDenied _ code details | .resourceExhausted _ code details
  | .inappropriateType _ code details | .noSuchThing _ code details => causeOf code details
  | .interrupted _ code details => causeOf code details
  | .otherError code details | .resourceBusy code details | .resourceVanished code details
  | .unsupportedOperation code details | .hardwareFault code details
  | .unsatisfiedConstraints code details | .illegalOperation code details
  | .protocolError code details | .timeExpired code details => causeOf code details
  | .unexpectedEof => .other "unexpected end of file"
  | .userError text => .other text

/-- An operation of the system with its failure as a value. -/
def attempt {α : Type} (operation : IO α) : IO (Except FileError α) := do
  match ← operation.toBaseIO with
  | .ok a => return .ok a
  | .error e => return .error (fileError e)

instance : FileStore IO where
  canonicalize path := attempt do
    let place ← IO.FS.realPath path.display
    return Path.names (.ofText place.toString)
  unlink path := attempt (IO.FS.removeFile path.display)
  openRead path := attempt do
    let handle ← IO.FS.Handle.mk path.display .read
    attempt handle.readBinToEnd
  write path content := attempt do
    let handle ← IO.FS.Handle.mk path.display .write
    handle.write content

instance : Terminal IO where
  output text := do
    match ← (IO.print text).toBaseIO with
    | .ok () => return true
    | .error _ => return false
  report text := IO.eprint text

end LambdaDeploy.Main

/-- Runs the command line. -/
def main (arguments : List String) : IO UInt32 :=
  LambdaDeploy.runCommand LambdaDeploy.Archive.library arguments
