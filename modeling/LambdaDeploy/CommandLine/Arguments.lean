import LambdaDeploy.Text.Cut
import LambdaDeploy.Text.Numeral

/-!
# Command line arguments

The command line names an outline and may carry options, each at most once.  An
option's value follows it as the next argument, or in the same one behind an
equals sign.  The argument `--` ends the options.

* `Request` — what a command line asks for.
* `Request.ofArguments` — reads the arguments from left to right; the first wrong
  one decides, and asking for the version or for help ends the reading.
-/

namespace LambdaDeploy

open Text

/-- What a build is asked to do. -/
structure Arguments where
  /-- The outline to read. -/
  outline : String
  /-- The executable to package. -/
  executable : Option String := none
  /-- The file that gets the text of all documents. -/
  emit : Option String := none
  memorySize : Option Nat := none
  timeout : Option Nat := none
  layer : Option String := none
deriving DecidableEq, Repr, Inhabited

/-- What a command line asks for. -/
inductive Request where
  | version
  | help
  | build (arguments : Arguments)
deriving DecidableEq, Repr

/-- What is wrong with a command line. -/
inductive UsageError where
  | unknownOption (text : String)
  | missingValue (option : String)
  | repeatedOption (option : String)
  | unexpectedValue (option : String)
  | emptyPath
  | invalidNumber (text : String)
  | extraArgument (text : String)
  | missingOutline
deriving DecidableEq, Repr

/-- The wording of a usage error. -/
def UsageError.message : UsageError → String
  | unknownOption text => "unexpected argument '" ++ text ++ "'"
  | missingValue option => "a value is required for '--" ++ option ++ "'"
  | repeatedOption option => "the argument '--" ++ option ++ "' cannot be used multiple times"
  | unexpectedValue option => "unexpected value for '--" ++ option ++ "'"
  | emptyPath => "a path must not be empty"
  | invalidNumber text => "invalid number '" ++ text ++ "'"
  | extraArgument text => "unexpected argument '" ++ text ++ "'"
  | missingOutline => "an outline is required"

/-- The options that take a value. -/
inductive Switch where
  | executable
  | emit
  | memorySize
  | timeout
  | layer
deriving DecidableEq, Repr

namespace Switch

/-- All options that take a value. -/
def all : List Switch := [executable, emit, memorySize, timeout, layer]

/-- The name of an option, without the dashes in front. -/
def name : Switch → String
  | executable => "executable"
  | emit => "emit"
  | memorySize => "memory-size"
  | timeout => "timeout"
  | layer => "layer"

/-- The option with this name. -/
def ofName? (text : String) : Option Switch := all.find? fun s => s.name == text

end Switch

/-! ## Values -/

/-- The values of the options read so far, and the outline. -/
structure Gathered where
  outline : Option String := none
  executable : Option String := none
  emit : Option String := none
  memorySize : Option Nat := none
  timeout : Option Nat := none
  layer : Option String := none
deriving DecidableEq, Repr, Inhabited

/-- A path must not be empty. -/
def readPath (text : String) : Except UsageError String :=
  if text = "" then .error .emptyPath else .ok text

/-- The largest number that an option can have. -/
def numberLimit : Nat := 4294967295

/-- Reads a number: a decimal numeral with an optional sign, from 0 up to the
limit. -/
def readNumber (text : String) : Except UsageError Nat :=
  match readInteger? text.toList with
  | some (.ofNat n) => if n ≤ numberLimit then .ok n else .error (.invalidNumber text)
  | _ => .error (.invalidNumber text)

namespace Gathered

/-- Sets the value of an option that has none yet. -/
def set {α : Type} (s : Switch) (current : Option α) (value : Except UsageError α) :
    Except UsageError (Option α) :=
  match current with
  | some _ => .error (.repeatedOption s.name)
  | none => value.map some

/-- The options with one more value. -/
def option (g : Gathered) (s : Switch) (text : String) : Except UsageError Gathered :=
  match s with
  | .executable => do return { g with executable := ← set s g.executable (readPath text) }
  | .emit => do return { g with emit := ← set s g.emit (readPath text) }
  | .memorySize => do return { g with memorySize := ← set s g.memorySize (readNumber text) }
  | .timeout => do return { g with timeout := ← set s g.timeout (readNumber text) }
  | .layer => do return { g with layer := ← set s g.layer (.ok text) }

/-- The options with an argument that is no option: the outline. -/
def positional (g : Gathered) (text : String) : Except UsageError Gathered :=
  match g.outline with
  | some _ => .error (.extraArgument text)
  | none => do return { g with outline := some (← readPath text) }

/-- The request after the last argument, which must include an outline. -/
def finish (g : Gathered) : Except UsageError Request :=
  match g.outline with
  | none => .error .missingOutline
  | some outline =>
    .ok (.build
      { outline := outline, executable := g.executable, emit := g.emit,
        memorySize := g.memorySize, timeout := g.timeout, layer := g.layer })

end Gathered

/-! ## Reading -/

/-- The kinds of arguments. -/
inductive Argument where
  /-- The argument `--`. -/
  | separator
  /-- An argument with two dashes in front: its name, and what follows an equals
  sign. -/
  | long (name : String) (value : Option String)
  /-- An argument with one dash in front, by what follows it. -/
  | short (letters : List Char)
  /-- Any other argument; a single dash is one. -/
  | plain (text : String)
deriving DecidableEq, Repr

/-- The kind of an argument. -/
def Argument.ofText (text : String) : Argument :=
  match text.toList with
  | ['-', '-'] => .separator
  | '-' :: '-' :: rest =>
    match cutFirst? (· == '=') rest with
    | some (name, value) => .long (String.ofList name) (some (String.ofList value))
    | none => .long (String.ofList rest) none
  | '-' :: c :: rest => .short (c :: rest)
  | _ => .plain text

/-- Where the reading of arguments stands. -/
inductive Expecting where
  /-- Options and the outline. -/
  | anything
  /-- The value of an option. -/
  | value (s : Switch)
  /-- No more options, since `--` was read. -/
  | outline
deriving DecidableEq, Repr

/-- Reads the arguments that are left.  An argument with a dash in front is never
the value of an option. -/
def Request.read : Expecting → Gathered → List String → Except UsageError Request
  | .value s, _, [] => .error (.missingValue s.name)
  | _, g, [] => g.finish
  | .outline, g, text :: rest => do read .outline (← g.positional text) rest
  | .value s, g, text :: rest =>
    match Argument.ofText text with
    | .plain text => do read .anything (← g.option s text) rest
    | _ => .error (.missingValue s.name)
  | .anything, g, text :: rest =>
    match Argument.ofText text with
    | .separator => read .outline g rest
    | .plain text => do read .anything (← g.positional text) rest
    | .short ('V' :: _) => .ok .version
    | .short ('h' :: _) => .ok .help
    | .short _ => .error (.unknownOption text)
    | .long "version" none => .ok .version
    | .long "version" (some _) => .error (.unexpectedValue "version")
    | .long "help" none => .ok .help
    | .long "help" (some _) => .error (.unexpectedValue "help")
    | .long name value =>
      match Switch.ofName? name with
      | none => .error (.unknownOption text)
      | some s =>
        match value with
        | some value => do read .anything (← g.option s value) rest
        | none => read (.value s) g rest

/-- What a list of arguments asks for. -/
def Request.ofArguments (arguments : List String) : Except UsageError Request :=
  read .anything {} arguments

end LambdaDeploy
