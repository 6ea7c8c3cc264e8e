/-!
# File errors

The causes for which an operation on files fails, with the wording and the
number that the operating system gives them.

* `Refusal` — the causes that do not lie in what stands where.
* `FileError.message` — the wording of each cause.
-/

namespace LambdaDeploy

/-- Why the system refuses an operation that would be possible. -/
inductive Refusal where
  /-- The access rights do not allow it. -/
  | permissionDenied
  /-- An attribute does not allow it, as in a directory that only takes new entries. -/
  | notPermitted
  /-- The file system is read-only. -/
  | readOnly
deriving DecidableEq, Repr

/-- The cause of a failed operation on files. -/
inductive FileError where
  | notFound
  | alreadyExists
  | notADirectory
  | isADirectory
  | nameTooLong
  /-- More links than are followed for one path. -/
  | tooManyLinks
  /-- A path that holds a zero byte. -/
  | zeroInPath
  /-- Bytes that are no UTF-8 text. -/
  | notUtf8
  | refused (refusal : Refusal)
  /-- Any other cause, in the words of the system. -/
  | other (description : String)
deriving DecidableEq, Repr

/-- The wording of a refusal. -/
def Refusal.message : Refusal → String
  | permissionDenied => "Permission denied (os error 13)"
  | notPermitted => "Operation not permitted (os error 1)"
  | readOnly => "Read-only file system (os error 30)"

/-- The wording of a cause. -/
def FileError.message : FileError → String
  | notFound => "No such file or directory (os error 2)"
  | alreadyExists => "File exists (os error 17)"
  | notADirectory => "Not a directory (os error 20)"
  | isADirectory => "Is a directory (os error 21)"
  | nameTooLong => "File name too long (os error 36)"
  | tooManyLinks => "Too many levels of symbolic links (os error 40)"
  | zeroInPath => "file name contained an unexpected NUL byte"
  | notUtf8 => "stream did not contain valid UTF-8"
  | refused refusal => refusal.message
  | other description => description

end LambdaDeploy
