import LambdaDeploy.BuildError
import LambdaDeploy.Program.Scope
import LambdaDeploy.Text.Cut

/-!
# Declarations

The top-level lines of an outline that are not part of a document.  Each ends in a
semicolon and says something about the scope of the program: its package, an
import, or a declared type.

* `Outline.declare` — the scope after a declaration.
* `Outline.readImport` — `org/name`, or `org/name as prefix`, with an optional list
  of exported names in braces.
-/

namespace LambdaDeploy.Outline

open Text

/-- The package that a text `org/name` stands for; neither part may be empty. -/
def readPackage (text : List Char) : Except Fault Package :=
  match cutFirst? (· == '/') text with
  | some (c :: org, d :: name) =>
    .ok ⟨String.ofList (c :: org), String.ofList (d :: name), "0.0.0"⟩
  | _ => .error (.invalidPackage (String.ofList text))

/-- The package and the module prefix of an import. -/
def readImportHead (text : List Char) : Except Fault Import :=
  match words text with
  | [package] => do
    let package ← readPackage package
    return .plain package []
  | [package, ['a', 's'], modulePrefix] => do
    let package ← readPackage package
    return { package := package, modulePrefix := String.ofList modulePrefix }
  | _ => .error (.invalidImport (String.ofList text))

/-- The names of an export list; blanks around a name and empty names are dropped. -/
def readExports (text : List Char) : List String :=
  (((splitWhere (· == ',') text).map trim).filter (· ≠ [])).map String.ofList

/-- Reads an import, without the word `import`. -/
def readImport (text : List Char) : Except Fault Import :=
  match cutFirst? (· == '{') text with
  | none => readImportHead text
  | some (head, rest) =>
    match beforeSuffix? ['}'] (trim rest) with
    | none => .error .unterminatedExports
    | some names => do
      let i ← readImportHead (trim head)
      return { i with exports := readExports names }

/-- Reads the name of a declared type: one word. -/
def readTypeName (text : List Char) : Except Fault String :=
  if text = [] ∨ text.any isBlank then .error (.invalidTypeName (String.ofList text))
  else .ok (String.ofList text)

/-- The scope after a declaration, which is given without the blanks around it. -/
def declare (scope : Scope) (text : List Char) : Except Fault Scope :=
  match beforeSuffix? [';'] text with
  | none => .error .unterminatedDeclaration
  | some text =>
    let text := trim text
    match afterPrefix? "module ".toList text with
    | some rest => do
      let package ← readPackage (trim rest)
      return { scope with package := package }
    | none =>
      match afterPrefix? "import ".toList text with
      | some rest => do
        let i ← readImport (trim rest)
        return scope.addImport i
      | none =>
        match afterPrefix? "type ".toList text with
        | some rest => do
          let name ← readTypeName (trim rest)
          return scope.declareType name
        | none => .error (.unexpectedDeclaration (String.ofList text))

end LambdaDeploy.Outline
