import LambdaDeploy.FileSystem.Basic
import LambdaDeploy.FileSystem.Error
import LambdaDeploy.FileSystem.Path

/-!
# Walking along a path

A path is walked name by name from the root or from the working directory.  Links
are followed wherever they stand, and all links of one walk count together.

* `FileSystem.walk` — where some names lead from a place.
* `FileSystem.resolve` — the place of something that is there.
* `FileSystem.writePlace` — the place of a file that is to be written.
* `FileSystem.locate` — the directory that the last name of a path belongs to; that
  name itself is not walked.
-/

namespace LambdaDeploy.FileSystem

/-! ## Limits -/

/-- The most links that are followed on one walk. -/
def linkLimit : Nat := 40

/-- The most bytes that a name can have. -/
def nameLimit : Nat := 255

/-- The number of bytes from which on a path is too long. -/
def pathLimit : Nat := 4096

/-- Refuses the bytes that are no path at all. -/
def checkBytes (path : Bytes) : Except FileError Unit :=
  if 0 ∈ path then .error .zeroInPath
  else if path = [] then .error .notFound
  else .ok ()

/-- Refuses the bytes that the system does not take as a path. -/
def checkPath (path : Bytes) : Except FileError Unit := do
  checkBytes path
  if pathLimit ≤ path.length then throw .nameTooLong

/-! ## Walks -/

/-- What a walk is for. -/
inductive Aim where
  /-- To get to something that is there. -/
  | existing
  /-- To get to a file that is to be written and need not be there yet. -/
  | writing
deriving DecidableEq, Repr

/-- The place where a path starts, if relative paths start at `here`. -/
def origin (here : List Bytes) (path : Bytes) : List Bytes :=
  if Path.isAbsolute path then [] else here

/-- Walks from a place through some names.  Each name but the last must lead to a
directory, and so must the last one if an empty name follows.  At a link, `follow`
is given the place where the link's path starts and the names that are then to be
walked.  A file that is to be written has no slash behind its name. -/
def walkWith (fs : FileSystem) (aim : Aim)
    (follow : List Bytes → List Bytes → Except FileError (List Bytes)) :
    List Bytes → List Bytes → Except FileError (List Bytes)
  | here, [] => .ok here
  | here, name :: rest =>
    match fs.get? here with
    | some .directory =>
      if name = Path.self ∨ name = [] then walkWith fs aim follow here rest
      else if name = Path.parent then walkWith fs aim follow here.dropLast rest
      else if aim = .writing ∧ rest = [[]] then .error .isADirectory
      else if nameLimit < name.length then .error .nameTooLong
      else
        match fs.get? (here ++ [name]) with
        | none =>
          if aim = .writing ∧ rest = [] then .ok (here ++ [name]) else .error .notFound
        | some (.link target) => follow (origin here target) (Path.steps target ++ rest)
        | some _ => walkWith fs aim follow (here ++ [name]) rest
    | _ => .error .notADirectory

/-- Walks from a place through some names, following at most `links` links. -/
def walk (fs : FileSystem) (aim : Aim) (links : Nat) :
    List Bytes → List Bytes → Except FileError (List Bytes) :=
  match links with
  | 0 => fs.walkWith aim fun _ _ => .error .tooManyLinks
  | links + 1 => fs.walkWith aim (fs.walk aim links)

/-- Walks along a whole path, if the system takes it. -/
def walkPath (fs : FileSystem) (aim : Aim) (path : Bytes) :
    Except FileError (List Bytes) := do
  checkPath path
  fs.walk aim linkLimit (origin fs.workingDirectory path) (Path.steps path)

/-! ## Where paths lead -/

/-- The place that a path leads to; there is something at it. -/
def resolve (fs : FileSystem) (path : Bytes) : Except FileError (List Bytes) :=
  fs.walkPath .existing path

/-- The place where a file is to be written; there may be nothing at it yet. -/
def writePlace (fs : FileSystem) (path : Bytes) : Except FileError (List Bytes) :=
  fs.walkPath .writing path

/-- The directory that the last name of a path belongs to, and that name.  The root
and a path that ends in `.` or `..` have no such name. -/
def locate (fs : FileSystem) (path : Bytes) :
    Except FileError (Option (List Bytes × Bytes)) := do
  checkPath path
  match (Path.names path).getLast? with
  | none => return none
  | some name =>
    let directory ← fs.walk .existing linkLimit (origin fs.workingDirectory path)
      ((Path.names path).dropLast ++ [[]])
    if name = Path.self ∨ name = Path.parent then return none
    else if nameLimit < name.length then throw .nameTooLong
    else return some (directory, name)

end LambdaDeploy.FileSystem
