import LambdaDeploy.FileSystem.Walk

/-!
# Canonical places

The place that a path leads to can be found without handing the whole path to the
system: its names are looked up one at a time, each by its own path from the root.
Then the path itself may have any length, and only those paths must not be too long.

* `FileSystem.lookUp` — what a name in a directory stands for.
* `FileSystem.canonicalize` — the place that a path leads to, links followed.
-/

namespace LambdaDeploy.FileSystem

/-- What a name in a directory stands for, when it is looked up by `path`. -/
def lookUp (fs : FileSystem) (path : Bytes) (here : List Bytes) (name : Bytes) :
    Except FileError Entry :=
  if pathLimit ≤ path.length then .error .nameTooLong
  else
    match fs.get? here with
    | some .directory =>
      if nameLimit < name.length then .error .nameTooLong
      else
        match fs.get? (here ++ [name]) with
        | some entry => .ok entry
        | none => .error .notFound
    | _ => .error .notADirectory

/-- What follows a name asks for a directory: a slash at the end, the name `.` at
the end, or the name `..`. -/
def asksDirectory (rest : List Bytes) : Bool :=
  match rest.dropWhile fun name => name == Path.self || name == [] with
  | [] => !rest.isEmpty
  | name :: _ => name == Path.parent

/-- What a name in a directory stands for, when `rest` is what follows it.  A link
need not lead to a directory yet, since it is followed later. -/
def lookUpBefore (fs : FileSystem) (rest here : List Bytes) (name : Bytes) :
    Except FileError Entry :=
  let path := Path.ofNames (here ++ [name])
  match fs.lookUp path here name with
  | .ok (.link target) => .ok (.link target)
  | found =>
    if asksDirectory rest then
      match fs.lookUp (path ++ [Path.slash]) here name with
      | .ok .directory => .ok .directory
      | .ok _ => .error .notADirectory
      | .error cause => .error cause
    else found

/-- The place that some names lead to from a place.  At a link, `follow` is given
the place where the link's path starts and the names that are then to be looked
up. -/
def canonicalWith (fs : FileSystem)
    (follow : List Bytes → List Bytes → Except FileError (List Bytes)) :
    List Bytes → List Bytes → Except FileError (List Bytes)
  | here, [] => .ok here
  | here, name :: rest =>
    if name = Path.self ∨ name = [] then canonicalWith fs follow here rest
    else if name = Path.parent then canonicalWith fs follow here.dropLast rest
    else
      match fs.lookUpBefore rest here name with
      | .error cause => .error cause
      | .ok (.link target) => follow (origin here target) (Path.steps target ++ rest)
      | .ok _ => canonicalWith fs follow (here ++ [name]) rest

/-- The place that some names lead to from a place, following at most `links`
links. -/
def canonicalFrom (fs : FileSystem) (links : Nat) :
    List Bytes → List Bytes → Except FileError (List Bytes) :=
  match links with
  | 0 => fs.canonicalWith fun _ _ => .error .tooManyLinks
  | links + 1 => fs.canonicalWith (fs.canonicalFrom links)

/-- The place that a path leads to, after all links are followed. -/
def canonicalize (fs : FileSystem) (path : Bytes) : Except FileError (List Bytes) := do
  checkBytes path
  fs.canonicalFrom linkLimit (origin fs.workingDirectory path) (Path.steps path)

end LambdaDeploy.FileSystem
