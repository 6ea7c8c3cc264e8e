/-!
# Quoted text

A string literal is its text between double quotes, with a backslash in front of
every quote and every backslash of the text.

* `escape`, `quote` — the literal of a text.
-/

namespace LambdaDeploy.Text

/-- The text with a backslash in front of every quote and every backslash. -/
def escape (text : List Char) : List Char :=
  text.flatMap fun c => if c = '\\' ∨ c = '"' then ['\\', c] else [c]

/-- The string literal of a text. -/
def quote (text : List Char) : List Char := '"' :: escape text ++ ['"']

@[simp] theorem escape_nil : escape [] = [] := rfl

end LambdaDeploy.Text
