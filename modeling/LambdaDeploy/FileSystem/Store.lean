import LambdaDeploy.FileSystem.Error
import LambdaDeploy.Text.Utf8

/-!
# File stores

The operations on files that a build needs.  Whatever offers them can run a build:
the file system of a machine, or a value that stands for one.

* `FileStore` — finding out where a path leads, removing, reading and writing.
-/

namespace LambdaDeploy

/-- Operations on files.  A failure is a value of its own, so that a build can go
on after it. -/
class FileStore (m : Type → Type) where
  /-- The names on the way from the root to the file or directory that a path leads
  to, after all links are followed. -/
  canonicalize : Bytes → m (Except FileError (List Bytes))
  /-- Removes a file or a link. -/
  unlink : Bytes → m (Except FileError Unit)
  /-- Opens what a path leads to, and gives what reading it to the end gives: a
  directory can be opened but not read. -/
  openRead : Bytes → m (Except FileError (Except FileError ByteArray))
  /-- Gives a file this content; it is created if it is not there. -/
  write : Bytes → ByteArray → m (Except FileError Unit)

/-- What a file holds. -/
def FileStore.read {m : Type → Type} [Monad m] [FileStore m] (path : Bytes) :
    m (Except FileError ByteArray) := do
  match ← FileStore.openRead path with
  | .ok content => return content
  | .error cause => return .error cause

end LambdaDeploy
