import LambdaDeploy.Program.Rendering
import LambdaDeploy.Settings

/-!
# Signatures of handlers

A handler takes exactly two parameters, the dispatcher's context and a payload of
any known type, and returns `json`, `error`, `()` or a union of these.

* `Violation` — the four ways to miss this, with `Violation.message`.
* `Dispatcher.checkSignature` — accepts a function or gives the first violation.
* `Dispatcher.signatureDiagnostic` — the error shown for a violation.
-/

namespace LambdaDeploy

/-! ## Violations -/

/-- What is wrong with the signature of a handler. -/
inductive Violation where
  /-- Not two required parameters and nothing else. -/
  | parameterShape (required defaultable : Nat) (rest : Bool)
  /-- The first parameter does not have the context type. -/
  | contextType (expected found : String)
  /-- The type of the second parameter has an unknown name in it. -/
  | unresolvedPayload (param : String)
  /-- The result type allows for other values. -/
  | returnType (found : String)
deriving DecidableEq, Repr

/-- The wording of a violation. -/
def Violation.message : Violation → String
  | parameterShape required defaultable rest =>
    "expected 2 required parameters and no defaultable or rest parameters, found " ++
      toString required ++ " required, " ++ toString defaultable ++
      " defaultable, rest parameter: " ++ toString rest
  | contextType expected found =>
    "first parameter must be of type " ++ expected ++ ", found " ++ found
  | unresolvedPayload param => "type of parameter '" ++ param ++ "' cannot be resolved"
  | returnType found => "return type " ++ found ++ " may only contain json, error and ()"

/-! ## The check -/

/-- The types that a handler may return: `json`, `error` and `()`. -/
def Ty.isReply : Ty → Bool
  | builtin .json => true
  | builtin .error => true
  | builtin .nil => true
  | _ => false

namespace Dispatcher

/-- The function carries the annotation that marks handlers. -/
def marks (dispatcher : Dispatcher) (f : FunctionDecl) : Bool :=
  f.hasAnnotation dispatcher.org dispatcher.package dispatcher.annotation

/-- The type is the dispatcher's context type. -/
def isContext (dispatcher : Dispatcher) (type : Ty) : Bool :=
  type.isNamed dispatcher.org dispatcher.package dispatcher.contextType

/-- The full name of the dispatcher's context type. -/
def contextName (dispatcher : Dispatcher) : String :=
  dispatcher.org ++ "/" ++ dispatcher.package ++ ":" ++ dispatcher.contextType

/-- Accepts the signature of a handler, or gives the first of its violations: of
the parameters' number, the context, the payload and the result, in this order.
The scope matters only for how types are written in a violation. -/
def checkSignature (dispatcher : Dispatcher) (scope : Scope) (f : FunctionDecl) :
    Except Violation Unit :=
  match f.params, f.defaultableParams, f.restParam with
  | [context, payload], [], none =>
    if !dispatcher.isContext context.type then
      .error (.contextType dispatcher.contextName (scope.renderType context.type))
    else if !payload.type.isResolved then
      .error (.unresolvedPayload payload.name)
    else if !f.declaredReturn.members.all Ty.isReply then
      .error (.returnType (scope.renderType f.declaredReturn))
    else .ok ()
  | _, _, _ =>
    .error (.parameterShape f.requiredParams.length f.defaultableParams.length
      f.restParam.isSome)

/-- The function's signature is that of a handler. -/
def accepts (dispatcher : Dispatcher) (scope : Scope) (f : FunctionDecl) : Bool :=
  (dispatcher.checkSignature scope f).toBool

/-- The error shown for a function whose signature has this violation. -/
def signatureDiagnostic (dispatcher : Dispatcher) (f : FunctionDecl) (violation : Violation) :
    Diagnostic where
  severity := .error
  location := f.location
  message :=
    "Invalid function signature for an AWS lambda function: " ++ f.name ++
      ", it should be 'public function (" ++ dispatcher.package ++ ":" ++
      dispatcher.contextType ++ ", anydata) returns json|error': " ++ violation.message

end Dispatcher

end LambdaDeploy
