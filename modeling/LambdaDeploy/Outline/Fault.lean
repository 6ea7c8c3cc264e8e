/-!
# What can be wrong with a line of an outline

Every way in which a line of an outline can be refused, apart from the place
where it happens.

* `Fault.message` — the wording of each.
-/

namespace LambdaDeploy.Outline

/-- The reason why a line of an outline is refused. -/
inductive Fault where
  /-- A declaration without its closing semicolon. -/
  | unterminatedDeclaration
  | unexpectedDeclaration (text : String)
  | invalidTypeName (name : String)
  | invalidPackage (text : String)
  /-- An export list without its closing brace. -/
  | unterminatedExports
  | invalidImport (text : String)
  /-- A document header without its opening brace. -/
  | unopenedDocument
  | missingDocumentName
  /-- A document whose closing brace is missing. -/
  | unclosedDocument (name : String)
  | annotationWithoutName
  | undefinedModule (name : String)
  /-- Annotations with no function after them. -/
  | annotationsWithoutFunction
  | notAFunction (text : String)
  | missingParameters
  | missingFunctionName
  | unbalancedParameters
  /-- A function header without its opening brace. -/
  | unopenedFunction
  | unexpectedTail (text : String)
  /-- A function whose closing brace is missing. -/
  | unclosedFunction (name : String)
  | restNotLast
  | restWithDefault
  | incompleteParameter (text : String)
deriving DecidableEq, Repr

/-- The wording of a fault. -/
def Fault.message : Fault → String
  | unterminatedDeclaration => "declaration must end with ';'"
  | unexpectedDeclaration text => "unexpected declaration '" ++ text ++ "'"
  | invalidTypeName name => "invalid type name '" ++ name ++ "'"
  | invalidPackage text => "invalid package '" ++ text ++ "', expected org/name"
  | unterminatedExports => "unterminated export list"
  | invalidImport text => "invalid import '" ++ text ++ "'"
  | unopenedDocument => "expected '\x7b' after document name"
  | missingDocumentName => "missing document name"
  | unclosedDocument name => "document \"" ++ name ++ "\" is not closed"
  | annotationWithoutName => "empty annotation"
  | undefinedModule name => "undefined module prefix '" ++ name ++ "'"
  | annotationsWithoutFunction => "annotation is not attached to a function"
  | notAFunction text => "expected function declaration, found '" ++ text ++ "'"
  | missingParameters => "missing parameter list"
  | missingFunctionName => "missing function name"
  | unbalancedParameters => "unbalanced parameter list"
  | unopenedFunction => "expected '\x7b' after function signature"
  | unexpectedTail text => "unexpected '" ++ text ++ "'"
  | unclosedFunction name => "body of '" ++ name ++ "' is not closed"
  | restNotLast => "rest parameter must be the last parameter"
  | restWithDefault => "rest parameter cannot have a default"
  | incompleteParameter text => "parameter '" ++ text ++ "' needs a type and a name"

end LambdaDeploy.Outline
