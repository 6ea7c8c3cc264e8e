import LambdaDeploy.Program.Generated
import LambdaDeploy.Settings

/-!
# Proxies

The dispatcher calls every registered function with its context and a value of
type `anydata`.  The proxy of a handler takes exactly these, hands them on to the
handler and returns what the handler returns.

* `Dispatcher.proxy` — the proxy of a handler.
-/

namespace LambdaDeploy

/-- The proxy of a handler: the handler's two parameters with the payload's type
widened to `anydata`, the handler's result type, and one call of the handler.  A
handler has at least two parameters; a function with fewer gets no parameters
here. -/
def Dispatcher.proxy (dispatcher : Dispatcher) (package : Package) (handler : FunctionDecl) :
    FunctionDecl :=
  let params : List Param :=
    match handler.params with
    | context :: payload :: _ =>
      [⟨context.name, context.type, none⟩, ⟨payload.name, .builtin .anydata, none⟩]
    | _ => []
  let signature := FunctionDecl.generated (dispatcher.proxyName handler.name)
    handler.location params handler.returnType
  let args := [signature.paramRef? 0, signature.paramRef? 1].filterMap id
  { signature with
    body := [.returned (Expr.callOf none ⟨package, handler.name⟩ args handler.declaredReturn)] }

end LambdaDeploy
