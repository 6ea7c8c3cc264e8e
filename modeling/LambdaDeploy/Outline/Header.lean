import LambdaDeploy.BuildError
import LambdaDeploy.Outline.TypeText
import LambdaDeploy.Program.Node

/-!
# Annotations and function headers

The two kinds of lines that introduce a function in a document.

* `Outline.readAnnotation` — what follows the sign `@`.
* `Outline.readParams` — the parameters between the parentheses of a header.
* `Outline.readHeader` — a whole header; it also tells whether a body follows.
-/

namespace LambdaDeploy.Outline

open Text

/-! ## Annotations -/

/-- Reads an annotation, without the sign in front.  Its name ends at a blank or
an opening brace, and what follows is not looked at. -/
def readAnnotation (scope : Scope) (text : List Char) : Except Fault Annotation :=
  let reference := text.takeWhile fun c => !(isBlank c || c == '{')
  match cutFirst? (· == ':') reference with
  | some (modulePrefix, name) =>
    match scope.importAs? (String.ofList modulePrefix) with
    | some i => .ok ⟨i.package, String.ofList name⟩
    | none => .error (.undefinedModule (String.ofList modulePrefix))
  | none =>
    if reference = [] then .error .annotationWithoutName
    else .ok ⟨scope.package, String.ofList reference⟩

/-! ## Parameters -/

/-- A parameter list as far as it is read. -/
structure ParamList where
  params : List Param := []
  rest : Option Param := none
deriving DecidableEq, Repr

/-- The default value of a parameter, cut off at the first equals sign. -/
def cutDefault (text : List Char) : List Char × Option String :=
  match cutFirst? (· == '=') text with
  | some (decl, value) => (trim decl, some (String.ofList (trim value)))
  | none => (text, none)

/-- Reads one more parameter.  Its name is the last word; a type that ends in three
dots makes it the rest parameter. -/
def readParam (scope : Scope) (list : ParamList) (text : List Char) :
    Except Fault ParamList :=
  if list.rest.isSome then .error .restNotLast
  else
    let (decl, value) := cutDefault text
    match cutLast? isBlank decl with
    | none => .error (.incompleteParameter (String.ofList decl))
    | some (type, name) =>
      match beforeSuffix? ['.', '.', '.'] (trim type) with
      | some element =>
        if value.isSome then .error .restWithDefault
        else .ok { list with
          rest := some ⟨String.ofList name, readType scope (trim element), none⟩ }
      | none =>
        .ok { list with
          params := list.params ++ [⟨String.ofList name, readType scope (trim type), value⟩] }

/-- Reads the parameters between the parentheses of a header.  They are separated
by commas outside brackets, and empty ones are skipped. -/
def readParams (scope : Scope) (text : List Char) : Except Fault ParamList :=
  (((splitTop ',' text).map trim).filter (· ≠ [])).foldlM (readParam scope) {}

/-! ## Headers -/

/-- What follows a word, if the text begins with it, without leading blanks. -/
def afterWord? (word text : List Char) : Option (List Char) :=
  (afterPrefix? word text).map trimStart

/-- Splits the end of a header at its opening brace, and tells whether a body
follows; the braces of an empty body may stand in the header. -/
def readOpening (tail : List Char) : Except Fault (List Char × Bool) :=
  match beforeSuffix? ['{', '}'] tail with
  | some result => .ok (trim result, false)
  | none =>
    match beforeSuffix? ['{'] tail with
    | some result => .ok (trim result, true)
    | none => .error .unopenedFunction

/-- Reads what stands between the parameters and the opening brace: nothing, or
`returns` and a type. -/
def readReturns (scope : Scope) (text : List Char) : Except Fault (Option Ty) :=
  if text = [] then .ok none
  else
    match (afterPrefix? "returns".toList text).map trim with
    | some (c :: type) => .ok (some (readType scope (c :: type)))
    | _ => .error (.unexpectedTail (String.ofList text))

/-- Reads a header without the words in front of the name. -/
def readSignature (scope : Scope) (isPublic : Bool) (place : Location) (text : List Char) :
    Except Fault (FunctionDecl × Bool) :=
  match text.findIdx? (· == '(') with
  | none => .error .missingParameters
  | some start =>
    let name := trim (text.take start)
    if name = [] then .error .missingFunctionName
    else
      match matchingParen? text start with
      | none => .error .unbalancedParameters
      | some stop => do
        let list ← readParams scope ((text.take stop).drop (start + 1))
        let (result, hasBody) ← readOpening (trim (text.drop (stop + 1)))
        let returnType ← readReturns scope result
        return ({ name := String.ofList name, isPublic := isPublic, params := list.params,
                  restParam := list.rest, returnType := returnType, location := place },
                hasBody)

/-- Reads a trimmed header: the function without annotations and body, and whether
a body follows. -/
def readHeader (scope : Scope) (place : Location) (text : List Char) :
    Except Fault (FunctionDecl × Bool) :=
  let (isPublic, rest) :=
    match afterWord? "public ".toList text with
    | some rest => (true, rest)
    | none => (false, text)
  match afterWord? "function ".toList rest with
  | none => .error (.notAFunction (String.ofList text))
  | some rest => readSignature scope isPublic place rest

end LambdaDeploy.Outline
