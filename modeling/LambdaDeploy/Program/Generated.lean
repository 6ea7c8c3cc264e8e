import LambdaDeploy.BuildError
import LambdaDeploy.Program.Node
import LambdaDeploy.Program.Scope

/-!
# Generated nodes

The small pieces that generated functions are built from.  All are plain values;
nothing here is part of a program yet.

* `FunctionDecl.paramRef?` — a parameter as an expression.
* `Expr.functionRef`, `Expr.callOf` — a package-level function as a value, and a
  call of it.
* `Import.call` — a call of a function that an imported package exports.
* `FunctionDecl.generated` — a public function with an empty body.
-/

namespace LambdaDeploy

/-- Parameter number `index` of a function as an expression, if there is one. -/
def FunctionDecl.paramRef? (f : FunctionDecl) (index : Nat) : Option Expr :=
  f.params[index]?.map fun param => .reference param.name (.param index)

/-- A package-level function used as a value. -/
def Expr.functionRef (symbol : Symbol) : Expr := .reference symbol.name (.function symbol)

/-- A call of a package-level function, written with its own name. -/
def Expr.callOf (modulePrefix : Option String) (target : Symbol) (args : List Expr)
    (type : Ty) : Expr :=
  .call modulePrefix target.name target args type

/-- A call of a function of an imported package, which must export it. -/
def Import.call (i : Import) (name : String) (args : List Expr) (type : Ty) :
    Except BuildError Expr :=
  match i.lookup? name with
  | some symbol => .ok (Expr.callOf (some i.modulePrefix) symbol args type)
  | none => .error (.dispatcherSymbolUnresolved i.package.path name)

/-- A public function without annotations and with an empty body. -/
def FunctionDecl.generated (name : String) (location : Location) (params : List Param)
    (returnType : Option Ty) : FunctionDecl where
  name := name
  isPublic := true
  params := params
  returnType := returnType
  location := location
  origin := .generated

end LambdaDeploy
