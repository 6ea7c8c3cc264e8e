import LambdaDeploy.Diagnostic
import LambdaDeploy.Ty

/-!
# Nodes of a program

Functions and what they are made of.  A node never refers to its owner: a
function does not know its document, and a symbol is a plain value.

* `FunctionDecl` — a function: its signature, its annotations and its body.
* `FunctionDecl.declaredReturn` — the result type; a function without one
  returns `()`.
* `FunctionDecl.hasAnnotation` — annotations are compared without the version of
  their package.
-/

namespace LambdaDeploy

/-! ## Expressions and statements -/

/-- What a name in an expression stands for. -/
inductive Target where
  /-- A parameter of the enclosing function, by position. -/
  | param (index : Nat)
  /-- A package-level function used as a value. -/
  | function (symbol : Symbol)
deriving DecidableEq, Repr, Inhabited

/-- The expressions that occur in generated code. -/
inductive Expr where
  | stringLiteral (value : String)
  | reference (name : String) (target : Target)
  /-- A type used as a value. -/
  | typeValue (type : Ty)
  /-- A call.  The module prefix is what is written in front of the name, and the
  type is that of the result. -/
  | call (modulePrefix : Option String) (name : String) (target : Symbol)
      (args : List Expr) (type : Ty)
deriving Repr, Inhabited

namespace Expr

mutual

/-- Decides whether two expressions are equal. -/
def decideEq : (s t : Expr) → Decidable (s = t)
  | stringLiteral a, stringLiteral b => decidable_of_iff (a = b) (by simp)
  | reference m s, reference n t => decidable_of_iff (m = n ∧ s = t) (by simp)
  | typeValue a, typeValue b => decidable_of_iff (a = b) (by simp)
  | call p m s as a, call q n t bs b =>
    match decideEqAll as bs with
    | .isTrue h => decidable_of_iff (p = q ∧ m = n ∧ s = t ∧ a = b) (by simp [h])
    | .isFalse h => .isFalse (by simp [h])
  | stringLiteral _, reference .. | stringLiteral _, typeValue _ | stringLiteral _, call ..
  | reference .., stringLiteral _ | reference .., typeValue _ | reference .., call ..
  | typeValue _, stringLiteral _ | typeValue _, reference .. | typeValue _, call ..
  | call .., stringLiteral _ | call .., reference .. | call .., typeValue _ =>
    .isFalse (by simp)

/-- Decides whether two lists of expressions are equal. -/
def decideEqAll : (s t : List Expr) → Decidable (s = t)
  | [], [] => .isTrue rfl
  | [], _ :: _ => .isFalse (by simp)
  | _ :: _, [] => .isFalse (by simp)
  | a :: as, b :: bs =>
    match decideEq a b, decideEqAll as bs with
    | .isTrue h, .isTrue hs => .isTrue (by rw [h, hs])
    | .isFalse h, _ => .isFalse (by simp [h])
    | _, .isFalse hs => .isFalse (by simp [hs])

end

instance : DecidableEq Expr := decideEq

end Expr

/-- A statement of a function's body. -/
inductive Stmt where
  | expr (value : Expr)
  | returned (value : Expr)
  /-- A statement of the user, kept as written. -/
  | verbatim (text : String)
deriving DecidableEq, Repr, Inhabited

/-- The statement is kept from what the user wrote. -/
def Stmt.isVerbatim : Stmt → Bool
  | verbatim _ => true
  | _ => false

/-! ## Functions -/

/-- A parameter; it is defaultable if it has a default value. -/
structure Param where
  name : String
  type : Ty
  default : Option String := none
deriving DecidableEq, Repr, Inhabited

/-- An annotation of a function, by the package that declares it. -/
structure Annotation where
  package : Package
  name : String
deriving DecidableEq, Repr, Inhabited

/-- Where a function comes from. -/
inductive Origin where
  /-- The user wrote it. -/
  | written
  /-- A build generated it. -/
  | generated
deriving DecidableEq, Repr, Inhabited

/-- A function declaration. -/
structure FunctionDecl where
  name : String
  isPublic : Bool := false
  annotations : List Annotation := []
  params : List Param := []
  /-- The parameter that takes all further arguments. -/
  restParam : Option Param := none
  /-- The declared result type. -/
  returnType : Option Ty := none
  body : List Stmt := []
  location : Location := {}
  origin : Origin := .written
deriving DecidableEq, Repr, Inhabited

namespace FunctionDecl

/-- The parameters without a default value. -/
def requiredParams (f : FunctionDecl) : List Param := f.params.filter (·.default.isNone)

/-- The parameters with a default value. -/
def defaultableParams (f : FunctionDecl) : List Param := f.params.filter (·.default.isSome)

/-- The function carries the annotation `name` of the package `org`/`package`, in
any version of the package. -/
def hasAnnotation (f : FunctionDecl) (org package name : String) : Bool :=
  f.annotations.any fun a => a.package.isNamed org package && a.name == name

/-- The result type; a function that declares none returns `()`. -/
def declaredReturn (f : FunctionDecl) : Ty := f.returnType.getD (.builtin .nil)

end FunctionDecl

end LambdaDeploy
