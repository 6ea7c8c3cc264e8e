import LambdaDeploy.Text.Cut
import LambdaDeploy.Text.Utf8

/-!
# Paths

A path is a string of bytes whose names are separated by slashes.  A path that begins
with a slash starts at the root, any other at the working directory.

* `Path.names` — the names of a path, in order.
* `Path.ofNames` — the path of a list of names from the root.
* `Path.join` — a path taken relative to a directory.
* `Path.stem?` — the last name without its extension.
-/

namespace LambdaDeploy.Path

open Text

/-! ## Names -/

/-- The byte that separates names. -/
def slash : UInt8 := 0x2F

/-- The byte that separates the extension of a name. -/
def dot : UInt8 := 0x2E

/-- The name of a directory in itself. -/
def self : Bytes := [dot]

/-- The name of the directory above a directory. -/
def parent : Bytes := [dot, dot]

/-! ## Paths and their names -/

/-- The path starts at the root. -/
def isAbsolute (path : Bytes) : Bool := path.head? == some slash

/-- The path ends in a slash, so that it can only stand for a directory. -/
def endsInSlash (path : Bytes) : Bool := path.getLast? == some slash

/-- The names between the slashes of a path, `.` and `..` included. -/
def names (path : Bytes) : List Bytes := (splitWhere (· == slash) path).filter (· ≠ [])

/-- The names to be walked for a path.  An empty name stands for a slash at the
end, which asks for a directory. -/
def steps (path : Bytes) : List Bytes :=
  names path ++ if endsInSlash path then [[]] else []

/-- The path that leads from the root through the given names. -/
def ofNames (names : List Bytes) : Bytes := slash :: [slash].intercalate names

/-- A path as seen from a directory.  A path that starts at the root stays as it
is. -/
def join (directory path : Bytes) : Bytes :=
  if isAbsolute path then path
  else if directory = [] ∨ endsInSlash directory then directory ++ path
  else directory ++ slash :: path

/-! ## The last name -/

/-- The last name of a path, where the name `.` does not count; a path without
names and one that ends in `..` have none. -/
def fileName? (path : Bytes) : Option Bytes :=
  match ((names path).filter (· ≠ self)).getLast? with
  | some name => if name = parent then none else some name
  | none => none

/-- A file name without its extension: what stands before the last dot, unless
the name begins with its only dot. -/
def stemOf (name : Bytes) : Bytes :=
  match cutLast? (· == dot) name with
  | some (byte :: stem, _) => byte :: stem
  | _ => name

/-- The last name of a path without its extension. -/
def stem? (path : Bytes) : Option Bytes := (fileName? path).map stemOf

end LambdaDeploy.Path
