import LambdaDeploy.Program.Rendering
import LambdaDeploy.Proofs.Text.Braces
import LambdaDeploy.Proofs.Text.Identifier
import LambdaDeploy.Text.Cut

/-!
# What can be printed

Not everything that a program can hold has a written form that can be read again.  Names must
be identifiers, unions must be in normal form, and the texts that are kept as they are, of
records, default values and statements, must not meddle with the signs around them.

* `Scope.Printable`, `Scope.PrintableType`, `Scope.PrintableParam`, `Scope.PrintableFunction` —
  what may stand in an outline.
* `Draft` — a document with its functions.
* `FunctionDecl.asRead` — the function that is read back: its statements are kept as text.
-/

namespace LambdaDeploy

open Text

/-! ## Scopes -/

/-- The written form of a package can be read: its names are identifiers, and it has the
version that every package gets. -/
structure Package.Printable (package : Package) : Prop where
  org : IsIdentifier package.org
  name : IsIdentifier package.name
  version : package.version = "0.0.0"

instance (package : Package) : Decidable package.Printable :=
  decidable_of_iff
    (IsIdentifier package.org ∧ IsIdentifier package.name ∧ package.version = "0.0.0")
    ⟨fun h => ⟨h.1, h.2.1, h.2.2⟩, fun h => ⟨h.org, h.name, h.version⟩⟩

/-- The declarations of a scope can be written down.  Module prefixes tell imports apart, and
no declared type has the name of a builtin one. -/
structure Scope.Printable (scope : Scope) : Prop where
  package : scope.package.Printable
  imports : ∀ i ∈ scope.imports, i.package.Printable
  prefixes : ∀ i ∈ scope.imports, IsIdentifier i.modulePrefix
  exports : ∀ i ∈ scope.imports, ∀ name ∈ i.exports, IsIdentifier name
  distinct : (scope.imports.map (·.modulePrefix)).Nodup
  foreign : ∀ i ∈ scope.imports, i.package ≠ scope.package
  types : ∀ name ∈ scope.types, IsIdentifier name ∧ Builtin.ofName? name = none

namespace Scope

variable {scope : Scope}

/-! ## Types -/

/-- A character that is no equals sign, no quote and no line end. -/
def Ordinary (c : Char) : Prop := c ≠ '=' ∧ c ≠ '"' ∧ c ≠ '\n'

instance : DecidablePred Ordinary := fun c =>
  inferInstanceAs (Decidable (c ≠ '=' ∧ c ≠ '"' ∧ c ≠ '\n'))

/-- The fields of a record type: properly nested, without equals signs, quotes and line ends. -/
structure PrintableFields (fields : List Char) : Prop where
  nested : Nested (fun _ => True) fields
  ordinary : ∀ c ∈ fields, Ordinary c

/-- A type in normal form that is built from builtin types, declared types, names of imported
packages and records. -/
inductive PrintableType (scope : Scope) : Ty → Prop
  | builtin (b : Builtin) : PrintableType scope (.builtin b)
  | declared {name : String} (known : name ∈ scope.types) :
      PrintableType scope (.named scope.package name)
  | imported {i : Import} {name : String} (known : i ∈ scope.imports)
      (sound : IsIdentifier name) : PrintableType scope (.named i.package name)
  | union {types : List Ty} (many : 2 ≤ types.length)
      (opened : ∀ type ∈ types, type.isUnion = false)
      (each : ∀ type ∈ types, PrintableType scope type) : PrintableType scope (.union types)
  | array {element : Ty} (inner : PrintableType scope element) :
      PrintableType scope (.array element)
  | map {element : Ty} (inner : PrintableType scope element) : PrintableType scope (.map element)
  | record {fields : List Char} (sound : PrintableFields fields) :
      PrintableType scope (.record ("record \x7b" ++ String.ofList fields ++ "\x7d"))

/-! ## Functions -/

/-- A default value: a trimmed text on one line, without commas, quotes and brackets. -/
structure PrintableDefault (value : String) : Prop where
  trimmed : trim value.toList = value.toList
  plain : ∀ c ∈ value.toList, bracketValue c = 0 ∧ c ≠ ',' ∧ c ≠ '"' ∧ c ≠ '\n'

instance (value : String) : Decidable (PrintableDefault value) :=
  decidable_of_iff
    (trim value.toList = value.toList ∧
      ∀ c ∈ value.toList, bracketValue c = 0 ∧ c ≠ ',' ∧ c ≠ '"' ∧ c ≠ '\n')
    ⟨fun h => ⟨h.1, h.2⟩, fun h => ⟨h.trimmed, h.plain⟩⟩

/-- A parameter that can be written down. -/
structure PrintableParam (scope : Scope) (param : Param) : Prop where
  name : IsIdentifier param.name
  type : scope.PrintableType param.type
  default : ∀ value ∈ param.default, PrintableDefault value

/-- An annotation of the program's own package or of an imported one. -/
structure PrintableAnnotation (scope : Scope) (a : Annotation) : Prop where
  name : IsIdentifier a.name
  package : a.package = scope.package ∨ ∃ i ∈ scope.imports, i.package = a.package

instance (scope : Scope) (a : Annotation) : Decidable (scope.PrintableAnnotation a) :=
  decidable_of_iff
    (IsIdentifier a.name ∧
      (a.package = scope.package ∨ ∃ i ∈ scope.imports, i.package = a.package))
    ⟨fun h => ⟨h.1, h.2⟩, fun h => ⟨h.name, h.package⟩⟩

end Scope

/-- A line of a body: a trimmed text on one line that is no comment. -/
structure PrintableLine (text : List Char) : Prop where
  tight : Tight text
  oneLine : '\n' ∉ text
  noComment : text.head? ≠ some ';'

instance (text : List Char) : Decidable (PrintableLine text) :=
  decidable_of_iff (Tight text ∧ '\n' ∉ text ∧ text.head? ≠ some ';')
    ⟨fun h => ⟨h.1, h.2.1, h.2.2⟩, fun h => ⟨h.tight, h.oneLine, h.noComment⟩⟩

/-- The statements of a body as they are written, one for each line. -/
def Scope.statementLines (scope : Scope) (f : FunctionDecl) : List (List Char) :=
  f.body.map fun stmt => (scope.renderStmt stmt).toList

/-- A function that can be written down.  Its statements may open and close braces as they
like, as long as they do not close the body's. -/
structure Scope.PrintableFunction (scope : Scope) (f : FunctionDecl) : Prop where
  name : IsIdentifier f.name
  annotations : ∀ a ∈ f.annotations, scope.PrintableAnnotation a
  params : ∀ param ∈ f.params, scope.PrintableParam param
  restParam : ∀ param ∈ f.restParam, scope.PrintableParam param ∧ param.default = none
  returnType : ∀ type ∈ f.returnType, scope.PrintableType type
  lines : ∀ line ∈ scope.statementLines f, PrintableLine line
  balanced : Balanced (scope.statementLines f)

/-- A function as it is read back, wherever it stands: its statements are kept as they were
written, and it counts as the user's own. -/
def FunctionDecl.asRead (scope : Scope) (f : FunctionDecl) : FunctionDecl :=
  { f with
    body := f.body.map fun stmt => .verbatim (scope.renderStmt stmt)
    location := {}
    origin := .written }

/-- A function without the place where it stands. -/
def FunctionDecl.unplaced (f : FunctionDecl) : FunctionDecl := { f with location := {} }

/-! ## Documents -/

/-- A document that stands for itself: its name and its functions. -/
structure Draft where
  name : String
  functions : List FunctionDecl
deriving DecidableEq, Repr

/-- A document that can be written down.  Its name may be any text on one line. -/
structure Scope.PrintableDraft (scope : Scope) (draft : Draft) : Prop where
  named : draft.name ≠ ""
  oneLine : '\n' ∉ draft.name.toList
  functions : ∀ f ∈ draft.functions, scope.PrintableFunction f

/-- A document's name and its functions as they are read back. -/
def Draft.asRead (scope : Scope) (draft : Draft) : String × List (Option FunctionDecl) :=
  (draft.name, draft.functions.map fun f => some (f.asRead scope))

end LambdaDeploy
