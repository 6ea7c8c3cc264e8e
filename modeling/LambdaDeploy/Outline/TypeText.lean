import LambdaDeploy.Program.Scope
import LambdaDeploy.Text.Bracket

/-!
# The text of types

How a written type is read in a scope.  Every text stands for a type: what cannot
be read is kept as `Ty.unresolved`.

* `Outline.readType` — parentheses around the whole text are dropped, bars outside
  brackets separate the members of a union.
* `Outline.readMember` — a builtin name, an optional type `T?`, a parenthesised
  type, `T[]`, `map<T>`, `record {…}`, a qualified name `module:Name`, or the name
  of a declared type, tried in this order.
-/

namespace LambdaDeploy.Outline

open Text

/-- What an optional type `T?` makes optional. -/
def optionalOf? (text : List Char) : Option (List Char) := beforeSuffix? ['?'] text

/-- The element type of an array type `T[]`. -/
def arrayElement? (text : List Char) : Option (List Char) := beforeSuffix? ['[', ']'] text

/-- The element type of a map type `map<T>`. -/
def mapElement? (text : List Char) : Option (List Char) :=
  (afterPrefix? ['m', 'a', 'p', '<'] text).bind (beforeSuffix? ['>'])

/-- The text is that of a record type: the word `record` and then braces. -/
def isRecord (text : List Char) : Bool :=
  match afterPrefix? ['r', 'e', 'c', 'o', 'r', 'd'] text with
  | some fields => (trimStart fields).head? == some '{' && text.getLast? == some '}'
  | none => false

/-- The type that a name stands for: one of an imported package behind a module
prefix, or a declared type. -/
def readName (scope : Scope) (text : List Char) : Ty :=
  match cutFirst? (· == ':') text with
  | some (modulePrefix, name) =>
    match scope.importAs? (String.ofList modulePrefix) with
    | some i => .named i.package (String.ofList name)
    | none => .unresolved (String.ofList text)
  | none =>
    if scope.hasType (String.ofList text) then .named scope.package (String.ofList text)
    else .unresolved (String.ofList text)

theorem length_lt_of_optionalOf? {text inner : List Char}
    (h : optionalOf? text = some inner) : inner.length < text.length := by
  simp [beforeSuffix?_eq_some_iff.1 h]

theorem length_lt_of_arrayElement? {text inner : List Char}
    (h : arrayElement? text = some inner) : inner.length < text.length := by
  simp [beforeSuffix?_eq_some_iff.1 h]

theorem length_lt_of_mapElement? {text inner : List Char}
    (h : mapElement? text = some inner) : inner.length < text.length := by
  obtain ⟨rest, hr, hi⟩ := Option.bind_eq_some_iff.1 h
  have hlt : inner.length < rest.length := by simp [beforeSuffix?_eq_some_iff.1 hi]
  have hle : rest.length ≤ text.length := by
    rw [afterPrefix?_eq_some_iff.1 hr]
    simp only [List.length_append]
    omega
  omega

theorem length_lt_of_stripParens? {text inner : List Char}
    (h : stripParens? text = some inner) : inner.length < text.length := by
  have := length_of_stripParens? h
  omega

mutual

/-- The type that a text stands for. -/
def readType (scope : Scope) (text : List Char) : Ty :=
  match _h : stripParens? (trim text) with
  | some inner => readType scope inner
  | none =>
    .ofMembers ((splitTop '|' (trim text)).attach.map fun ⟨member, _⟩ =>
      readMember scope (trim member))
termination_by 2 * text.length + 1
decreasing_by
  · have h₁ := length_lt_of_stripParens? _h
    have h₂ := length_trim_le text
    omega
  · have h₁ := length_le_of_mem_splitTop ‹member ∈ splitTop '|' (trim text)›
    have h₂ := length_trim_le member
    have h₃ := length_trim_le text
    omega

/-- The type that a trimmed text without bars stands for. -/
def readMember (scope : Scope) (text : List Char) : Ty :=
  match Builtin.ofName? (String.ofList text) with
  | some b => .builtin b
  | none =>
    match _h : optionalOf? text with
    | some inner => .ofMembers [readType scope inner, .builtin .nil]
    | none =>
      match _h : stripParens? text with
      | some inner => readType scope inner
      | none =>
        match _h : arrayElement? text with
        | some element => .array (readType scope element)
        | none =>
          match _h : mapElement? text with
          | some element => .map (readType scope element)
          | none => if isRecord text then .record (String.ofList text) else readName scope text
termination_by 2 * text.length
decreasing_by
  · have := length_lt_of_optionalOf? _h
    omega
  · have := length_lt_of_stripParens? _h
    omega
  · have := length_lt_of_arrayElement? _h
    omega
  · have := length_lt_of_mapElement? _h
    omega

end

/-- Reading a type: parentheses around the whole text are dropped, and the pieces
between bars are the members of a union. -/
theorem readType_eq (scope : Scope) (text : List Char) :
    readType scope text =
      match stripParens? (trim text) with
      | some inner => readType scope inner
      | none =>
        .ofMembers ((splitTop '|' (trim text)).map fun member =>
          readMember scope (trim member)) := by
  rw [readType]
  split <;> rename_i h <;> simp [h]

end LambdaDeploy.Outline
