import LambdaDeploy.Ty

/-!
# Scopes

What names in a program can refer to: the program's own package, the packages it
imports, with the names each of them exports, and the types it declares.

* `Scope.importOf?` — the import of a package; of several, the first.
* `Scope.importAs?` — the import that a module prefix stands for.
* `Scope.qualify` — how a name of some package is written in this scope.
-/

namespace LambdaDeploy

/-- An import of a package, under the module prefix that stands for it, with the
names that the package exports. -/
structure Import where
  package : Package
  modulePrefix : String
  exports : List String := []
deriving DecidableEq, Repr, Inhabited

/-- An import whose module prefix is the name of the package. -/
def Import.plain (package : Package) (exports : List String) : Import :=
  ⟨package, package.name, exports⟩

/-- The symbol of an exported name. -/
def Import.lookup? (i : Import) (name : String) : Option Symbol :=
  if name ∈ i.exports then some ⟨i.package, name⟩ else none

/-- The names that a program can refer to outside its own functions. -/
structure Scope where
  package : Package
  imports : List Import := []
  /-- The types that the program declares. -/
  types : List String := []
deriving DecidableEq, Repr, Inhabited

namespace Scope

/-- The first import of the package `org`/`name`, in any version. -/
def importOf? (scope : Scope) (org name : String) : Option Import :=
  scope.imports.find? fun i => i.package.isNamed org name

/-- The first import with this module prefix. -/
def importAs? (scope : Scope) (modulePrefix : String) : Option Import :=
  scope.imports.find? fun i => i.modulePrefix == modulePrefix

/-- The program declares this type. -/
def hasType (scope : Scope) (name : String) : Bool := scope.types.contains name

/-- The scope with one more import, after the others. -/
def addImport (scope : Scope) (i : Import) : Scope :=
  { scope with imports := scope.imports ++ [i] }

/-- The scope with one more declared type. -/
def declareType (scope : Scope) (name : String) : Scope :=
  { scope with types := scope.types ++ [name] }

/-- How a name of a package is written: bare if the package is the program's own,
behind the module prefix if it is imported, and in full otherwise. -/
def qualify (scope : Scope) (package : Package) (name : String) : String :=
  if package = scope.package then name
  else match scope.importOf? package.org package.name with
    | some i => i.modulePrefix ++ ":" ++ name
    | none => package.path ++ ":" ++ name

end Scope

end LambdaDeploy
