import LambdaDeploy.Package

/-!
# Types

The types of parameters and results after names have been looked up.  A name
that was not found stays in the type as `Ty.unresolved`, with its text.

* `Builtin` — the eleven types of the language itself, with their spelling.
* `Ty.ofMembers` — the union of some types: unions among them are opened, and a
  single member stands for itself.
* `Ty.members` — the alternatives of a type, unions opened to any depth.
* `Ty.isResolved` — no unresolved name occurs anywhere in the type.
-/

namespace LambdaDeploy

/-! ## Builtin types -/

/-- The types that need no declaration. -/
inductive Builtin where
  | json
  | error
  /-- The type of the absent value, written `()`. -/
  | nil
  | anydata
  | string
  | int
  | float
  | boolean
  | decimal
  | byte
  | xml
deriving DecidableEq, Repr, Inhabited

namespace Builtin

/-- All builtin types. -/
def all : List Builtin :=
  [json, error, nil, anydata, string, int, float, boolean, decimal, byte, xml]

/-- The spelling of a builtin type. -/
def name : Builtin → String
  | json => "json"
  | error => "error"
  | nil => "()"
  | anydata => "anydata"
  | string => "string"
  | int => "int"
  | float => "float"
  | boolean => "boolean"
  | decimal => "decimal"
  | byte => "byte"
  | xml => "xml"

/-- The builtin type with this spelling. -/
def ofName? (spelling : String) : Option Builtin := all.find? fun b => b.name == spelling

theorem name_eq_of_ofName? {spelling : String} {b : Builtin}
    (h : ofName? spelling = some b) : b.name = spelling := by
  simpa using List.find?_some h

@[simp] theorem ofName?_name (b : Builtin) : ofName? b.name = some b := by
  cases b <;> decide

end Builtin

/-! ## Types -/

/-- A type after its names have been looked up. -/
inductive Ty where
  | builtin (b : Builtin)
  /-- A type that a package declares. -/
  | named (package : Package) (name : String)
  /-- A value of one of several types. -/
  | union (members : List Ty)
  | array (element : Ty)
  /-- String keys with values of one type. -/
  | map (element : Ty)
  /-- A structural record type, kept as written. -/
  | record (text : String)
  /-- A name that stands for no known type, kept as written. -/
  | unresolved (text : String)
deriving Repr, Inhabited

namespace Ty

/-- The spelling of a builtin type; other types have none. -/
def builtinName? : Ty → Option String
  | builtin b => some b.name
  | _ => none

/-- The type is the one that the package `org`/`package` declares as `name`, in
any version of the package. -/
def isNamed (type : Ty) (org package name : String) : Bool :=
  match type with
  | named owner typeName => owner.isNamed org package && typeName == name
  | _ => false

/-- The type is a union. -/
def isUnion : Ty → Bool
  | union _ => true
  | _ => false

/-! ## Unions -/

/-- What a type contributes to a union: the members of a union, else itself. -/
def alternatives : Ty → List Ty
  | union members => members
  | type => [type]

/-- The union of some types.  Unions among them are opened by one level, and a
single type is returned as it is. -/
def ofMembers (types : List Ty) : Ty :=
  match types.flatMap alternatives with
  | [type] => type
  | members => union members

mutual

/-- The alternatives of a type, unions opened to any depth.  A type that is not a
union is its own only alternative. -/
def members : Ty → List Ty
  | union types => membersOfAll types
  | builtin b => [builtin b]
  | named package name => [named package name]
  | array element => [array element]
  | map element => [map element]
  | record text => [record text]
  | unresolved text => [unresolved text]

/-- The alternatives of several types, in order. -/
def membersOfAll : List Ty → List Ty
  | [] => []
  | type :: types => members type ++ membersOfAll types

end

theorem membersOfAll_eq_flatMap (types : List Ty) :
    membersOfAll types = types.flatMap members := by
  induction types with
  | nil => rfl
  | cons type types ih => simp [membersOfAll, ih]

/-! ## Resolution -/

mutual

/-- No unresolved name occurs in the type, element types and members included. -/
def isResolved : Ty → Bool
  | unresolved _ => false
  | union types => areResolved types
  | array element => isResolved element
  | map element => isResolved element
  | builtin _ => true
  | named _ _ => true
  | record _ => true

/-- No unresolved name occurs in any of the types. -/
def areResolved : List Ty → Bool
  | [] => true
  | type :: types => isResolved type && areResolved types

end

theorem areResolved_eq_all (types : List Ty) : areResolved types = types.all isResolved := by
  induction types with
  | nil => rfl
  | cons type types ih => simp [areResolved, ih]

/-! ## Equality -/

mutual

/-- Decides whether two types are equal. -/
def decideEq : (s t : Ty) → Decidable (s = t)
  | builtin a, builtin b => decidable_of_iff (a = b) (by simp)
  | named p m, named q n => decidable_of_iff (p = q ∧ m = n) (by simp)
  | union a, union b =>
    match decideEqAll a b with
    | .isTrue h => .isTrue (by rw [h])
    | .isFalse h => .isFalse (by simpa using h)
  | array a, array b =>
    match decideEq a b with
    | .isTrue h => .isTrue (by rw [h])
    | .isFalse h => .isFalse (by simpa using h)
  | map a, map b =>
    match decideEq a b with
    | .isTrue h => .isTrue (by rw [h])
    | .isFalse h => .isFalse (by simpa using h)
  | record a, record b => decidable_of_iff (a = b) (by simp)
  | unresolved a, unresolved b => decidable_of_iff (a = b) (by simp)
  | builtin _, named .. | builtin _, union _ | builtin _, array _ | builtin _, map _
  | builtin _, record _ | builtin _, unresolved _
  | named .., builtin _ | named .., union _ | named .., array _ | named .., map _
  | named .., record _ | named .., unresolved _
  | union _, builtin _ | union _, named .. | union _, array _ | union _, map _
  | union _, record _ | union _, unresolved _
  | array _, builtin _ | array _, named .. | array _, union _ | array _, map _
  | array _, record _ | array _, unresolved _
  | map _, builtin _ | map _, named .. | map _, union _ | map _, array _
  | map _, record _ | map _, unresolved _
  | record _, builtin _ | record _, named .. | record _, union _ | record _, array _
  | record _, map _ | record _, unresolved _
  | unresolved _, builtin _ | unresolved _, named .. | unresolved _, union _
  | unresolved _, array _ | unresolved _, map _ | unresolved _, record _ =>
    .isFalse (by simp)

/-- Decides whether two lists of types are equal. -/
def decideEqAll : (s t : List Ty) → Decidable (s = t)
  | [], [] => .isTrue rfl
  | [], _ :: _ => .isFalse (by simp)
  | _ :: _, [] => .isFalse (by simp)
  | a :: as, b :: bs =>
    match decideEq a b, decideEqAll as bs with
    | .isTrue h, .isTrue hs => .isTrue (by rw [h, hs])
    | .isFalse h, _ => .isFalse (by simp [h])
    | _, .isFalse hs => .isFalse (by simp [hs])

end

instance : DecidableEq Ty := decideEq

end Ty

end LambdaDeploy
