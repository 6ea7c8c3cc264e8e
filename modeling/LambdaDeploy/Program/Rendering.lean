import LambdaDeploy.Program.Node
import LambdaDeploy.Program.Scope
import LambdaDeploy.Text.Quoted

/-!
# Source text of program nodes

Every node has one written form in a given scope, whatever the user's own text
looked like.  The forms depend on the scope only, not on the other functions.

* `Scope.renderType`, `Scope.renderExpr`, `Scope.renderStmt` — one-line forms.
* `Scope.renderFunction` — a function with one statement on each line.
-/

namespace LambdaDeploy.Scope

/-! ## Types -/

mutual

/-- The written form of a type.  The members of a union are joined by bars, and a
union that is an array's element stands in parentheses. -/
def renderType (scope : Scope) : Ty → String
  | .builtin b => b.name
  | .named package name => scope.qualify package name
  | .union members => String.intercalate "|" (renderTypes scope members)
  | .array element =>
    if element.isUnion then "(" ++ renderType scope element ++ ")[]"
    else renderType scope element ++ "[]"
  | .map element => "map<" ++ renderType scope element ++ ">"
  | .record text => text
  | .unresolved text => text

/-- The written forms of several types. -/
def renderTypes (scope : Scope) : List Ty → List String
  | [] => []
  | type :: types => renderType scope type :: renderTypes scope types

end

theorem renderTypes_eq_map (scope : Scope) (types : List Ty) :
    scope.renderTypes types = types.map scope.renderType := by
  induction types with
  | nil => rfl
  | cons type types ih => simp [renderTypes, ih]

/-! ## Expressions and statements -/

mutual

/-- The written form of an expression. -/
def renderExpr (scope : Scope) : Expr → String
  | .stringLiteral value => String.ofList (Text.quote value.toList)
  | .reference name _ => name
  | .typeValue type => scope.renderType type
  | .call modulePrefix name _ args _ =>
    (match modulePrefix with
      | some p => p ++ ":"
      | none => "") ++ name ++ "(" ++ String.intercalate ", " (renderExprs scope args) ++ ")"

/-- The written forms of several expressions. -/
def renderExprs (scope : Scope) : List Expr → List String
  | [] => []
  | value :: values => renderExpr scope value :: renderExprs scope values

end

/-- The written form of a statement. -/
def renderStmt (scope : Scope) : Stmt → String
  | .expr value => scope.renderExpr value ++ ";"
  | .returned value => "return " ++ scope.renderExpr value ++ ";"
  | .verbatim text => text

/-! ## Functions -/

/-- The written form of a parameter. -/
def renderParam (scope : Scope) (param : Param) : String :=
  scope.renderType param.type ++ " " ++ param.name ++
    match param.default with
    | some value => " = " ++ value
    | none => ""

/-- The written form of a rest parameter. -/
def renderRestParam (scope : Scope) (param : Param) : String :=
  scope.renderType param.type ++ "... " ++ param.name

/-- The written form of an annotation. -/
def renderAnnotation (scope : Scope) (a : Annotation) : String :=
  "@" ++ scope.qualify a.package a.name

/-- The written form of a function's signature, up to the opening brace. -/
def renderSignature (scope : Scope) (f : FunctionDecl) : String :=
  (if f.isPublic then "public " else "") ++ "function " ++ f.name ++ "(" ++
    String.intercalate ", "
      (f.params.map scope.renderParam ++ f.restParam.toList.map scope.renderRestParam) ++
    ")" ++
    (match f.returnType with
      | some type => " returns " ++ scope.renderType type
      | none => "") ++ " \x7b"

/-- The lines of a function: its annotations, its signature, its statements
indented by four blanks, and the closing brace. -/
def functionLines (scope : Scope) (f : FunctionDecl) : List String :=
  f.annotations.map scope.renderAnnotation ++ [scope.renderSignature f] ++
    f.body.map (fun stmt => "    " ++ scope.renderStmt stmt) ++ ["\x7d"]

/-- The written form of a function, each line ended by a line feed. -/
def renderFunction (scope : Scope) (f : FunctionDecl) : String :=
  String.join ((scope.functionLines f).map (· ++ "\n"))

/-- The written form of an import.  The module prefix is left out if it is the
name of the package. -/
def renderImport (i : Import) : String :=
  "import " ++ i.package.path ++
    (if i.modulePrefix = i.package.name then "" else " as " ++ i.modulePrefix) ++ ";"

end LambdaDeploy.Scope
