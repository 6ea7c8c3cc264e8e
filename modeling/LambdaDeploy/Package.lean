/-!
# Packages and their symbols

A package is identified by its organisation and its name; it also has a version.
Two notions of sameness are in use: equality, which compares all three fields,
and `Package.isNamed`, which leaves the version out.

* `Package.path` — the written form `org/name`, without the version.
* `Symbol` — a name together with the package that owns it.
-/

namespace LambdaDeploy

/-- The identity of a package. -/
structure Package where
  org : String
  name : String
  version : String := "0.0.0"
deriving DecidableEq, Repr, Inhabited

namespace Package

/-- The package has this organisation and this name, in any version. -/
def isNamed (package : Package) (org name : String) : Bool :=
  package.org == org && package.name == name

/-- The written form of a package: its organisation, a slash and its name. -/
def path (package : Package) : String := package.org ++ "/" ++ package.name

theorem isNamed_iff {package : Package} {org name : String} :
    package.isNamed org name = true ↔ package.org = org ∧ package.name = name := by
  simp [isNamed]

end Package

/-- A package-level name: the package that owns it, and the name. -/
structure Symbol where
  package : Package
  name : String
deriving DecidableEq, Repr, Inhabited

end LambdaDeploy
