/-!
# Blank characters

The characters that separate words, and the three ways of cutting them off a
text.  A text is a `List Char`; every reader of this library works on texts and
turns them into a `String` only when a name or a piece of source is kept.

* `isBlank` — the characters with the Unicode property `White_Space`.
* `trimStart`, `trimEnd`, `trim` — a text without its leading, trailing or
  surrounding blanks.  None of them makes a text longer.
-/

namespace LambdaDeploy.Text

/-! ## The property -/

/-- The characters with the Unicode property `White_Space`, by code point. -/
def isBlank (c : Char) : Bool :=
  let n := c.toNat
  (0x9 ≤ n && n ≤ 0xD) || n == 0x20 || n == 0x85 || n == 0xA0 || n == 0x1680 ||
    (0x2000 ≤ n && n ≤ 0x200A) || n == 0x2028 || n == 0x2029 || n == 0x202F ||
    n == 0x205F || n == 0x3000

/-- A line that holds blanks only. -/
def isBlankLine (line : List Char) : Bool := line.all isBlank

/-! ## Trimming -/

/-- The text without its leading blanks. -/
def trimStart (text : List Char) : List Char := text.dropWhile isBlank

/-- The text without its trailing blanks. -/
def trimEnd (text : List Char) : List Char := (text.reverse.dropWhile isBlank).reverse

/-- The text without the blanks around it. -/
def trim (text : List Char) : List Char := trimEnd (trimStart text)

theorem length_trimStart_le (text : List Char) : (trimStart text).length ≤ text.length :=
  (List.dropWhile_sublist isBlank).length_le

theorem length_trimEnd_le (text : List Char) : (trimEnd text).length ≤ text.length := by
  have h := (List.dropWhile_sublist (l := text.reverse) isBlank).length_le
  simpa [trimEnd] using h

theorem length_trim_le (text : List Char) : (trim text).length ≤ text.length :=
  Nat.le_trans (length_trimEnd_le _) (length_trimStart_le _)

end LambdaDeploy.Text
