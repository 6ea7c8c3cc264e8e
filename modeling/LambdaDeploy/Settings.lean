/-!
# Settings

What a build can be told.

* `Dispatcher` — the package that calls the handlers, and the names that the
  generated code uses.
* `Deployment` — the name of the archive, and the values that the deployment
  commands show.
-/

namespace LambdaDeploy

/-- The dispatcher package and the names that handlers and generated code share
with it. -/
structure Dispatcher where
  org : String := "ballerinax"
  package : String := "awslambda"
  /-- The annotation that marks a handler. -/
  annotation : String := "Function"
  /-- The type of a handler's first parameter. -/
  contextType : String := "Context"
  /-- Registers one handler. -/
  registerFunction : String := "__register"
  /-- Starts the dispatch, after all handlers are registered. -/
  processFunction : String := "__process"
  /-- The function that a program starts with. -/
  entryPoint : String := "main"
  /-- What the name of a proxy begins with. -/
  proxyPrefix : String := "__func_proxy__"
deriving DecidableEq, Repr, Inhabited

/-- The name of the proxy of a handler. -/
def Dispatcher.proxyName (dispatcher : Dispatcher) (handler : String) : String :=
  dispatcher.proxyPrefix ++ handler

/-- The archive's name and the values that the deployment commands show. -/
structure Deployment where
  archiveName : String := "aws-ballerina-lambda-functions.zip"
  runtime : String := "provided"
  layer : String := "arn:aws:lambda:$REGION_ID:134633749276:layer:ballerina-jre11:6"
  memorySize : Nat := 512
  timeout : Nat := 10
deriving DecidableEq, Repr, Inhabited

end LambdaDeploy
