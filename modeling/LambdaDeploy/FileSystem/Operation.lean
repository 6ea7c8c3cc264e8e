import LambdaDeploy.FileSystem.Walk

/-!
# Operations on files

What the system does to files, with the causes for which it fails.  A failed
operation changes nothing.

* `FileSystem.unlink`, `FileSystem.openRead`, `FileSystem.write` — the operations
  on files.
* `FileSystem.makeDirectories`, `FileSystem.makeLink` — directories and links.
-/

namespace LambdaDeploy.FileSystem

/-! ## Files -/

/-- Removes a file or a link.  With a slash at its end the path asks for a directory, and it
does not come to the question whether anything may be removed. -/
def unlink (fs : FileSystem) (path : Bytes) : Except FileError FileSystem := do
  match ← fs.locate path with
  | none => throw .isADirectory
  | some (directory, name) =>
    match fs.get? (directory ++ [name]) with
    | none => throw .notFound
    | some entry =>
      unless Path.endsInSlash path do fs.permit .remove (directory ++ [name])
      match entry with
      | .directory => throw .isADirectory
      | _ =>
        if Path.endsInSlash path then throw .notADirectory
        else return fs.erase (directory ++ [name])

/-- Opens what a path leads to, and gives what reading it to the end gives. -/
def openRead (fs : FileSystem) (path : Bytes) :
    Except FileError (Except FileError ByteArray) := do
  let place ← fs.resolve path
  match fs.get? place with
  | none => throw .notFound
  | some entry =>
    fs.permit .read place
    match entry with
    | .file content => return .ok content
    | _ => return .error .isADirectory

/-- Gives a file this content; it is created if it is not there. -/
def write (fs : FileSystem) (path : Bytes) (content : ByteArray) :
    Except FileError FileSystem := do
  let place ← fs.writePlace path
  match fs.get? place with
  | some .directory => throw .isADirectory
  | _ =>
    fs.permit .write place
    return fs.put place (.file content)

/-! ## Directories and links -/

/-- Makes the directory `name` in the directory at `here` unless there is something
of that name, and goes there. -/
def enter (state : List Bytes × FileSystem) (name : Bytes) :
    Except FileError (List Bytes × FileSystem) :=
  let (here, fs) := state
  match fs.walk .existing linkLimit here [name] with
  | .ok there => .ok (there, fs)
  | .error cause =>
    if cause = .notFound ∧ (fs.get? (here ++ [name])).isNone then
      .ok (here ++ [name], fs.put (here ++ [name]) .directory)
    else .error cause

/-- Makes the directories of a path that are not there yet. -/
def makeDirectories (fs : FileSystem) (path : Bytes) : Except FileError FileSystem := do
  let (_, fs) ← (Path.names path).foldlM enter (origin fs.workingDirectory path, fs)
  return fs

/-- Makes a symbolic link at a path where nothing is yet. -/
def makeLink (fs : FileSystem) (path target : Bytes) : Except FileError FileSystem := do
  match ← fs.locate path with
  | none => throw .alreadyExists
  | some (directory, name) =>
    if (fs.get? (directory ++ [name])).isSome then throw .alreadyExists
    else return fs.put (directory ++ [name]) (.link target)

end LambdaDeploy.FileSystem
