/-!
# Bytes and texts

The system knows names and paths as bytes, and these need not be the UTF-8 form of a
text.

* `Bytes.ofText`, `Bytes.text?` — the UTF-8 form of a text, and the text that it is the
  form of.
* `Bytes.display` — the text in which bytes are shown.
-/

namespace LambdaDeploy

/-- A string of bytes. -/
abbrev Bytes := List UInt8

namespace Bytes

/-- The UTF-8 form of a text. -/
def ofText (text : String) : Bytes := text.toUTF8.data.toList

/-- The text whose UTF-8 form these bytes are. -/
def text? (bytes : Bytes) : Option String := String.fromUTF8? ⟨bytes.toArray⟩

/-- The bytes of a text give the text back. -/
theorem text?_ofText (text : String) : text? (ofText text) = some text :=
  (dif_pos text.isValidUTF8 :
    (if h : text.toByteArray.IsValidUTF8 then some (String.fromUTF8 text.toByteArray h) else none) =
      some text)

/-- The text that bytes are the form of gives the bytes back. -/
theorem ofText_of_text? {bytes : Bytes} {text : String} (h : text? bytes = some text) :
    ofText text = bytes := by
  rw [text?, String.fromUTF8?] at h
  split at h
  · cases h
    rfl
  · cases h

/-! ## Showing bytes -/

/-- The character that stands for bytes that are none. -/
def replacement : Char := '\uFFFD'

/-- A character whose first bytes were read. -/
structure Begun where
  /-- The bits that were read. -/
  value : Nat
  /-- How many bytes are still to come. -/
  missing : Nat
  /-- The least and the greatest byte that can come next. -/
  least : UInt8 := 0x80
  greatest : UInt8 := 0xBF

/-- What a first byte gives: a character of its own, or the beginning of one. -/
def first (byte : UInt8) : List Char × Option Begun :=
  let n := byte.toNat
  if n ≤ 0x7F then ([Char.ofNat n], none)
  else if 0xC2 ≤ n ∧ n ≤ 0xDF then ([], some { value := n % 32, missing := 1 })
  else if n = 0xE0 then ([], some { value := 0, missing := 2, least := 0xA0 })
  else if n = 0xED then ([], some { value := 13, missing := 2, greatest := 0x9F })
  else if 0xE1 ≤ n ∧ n ≤ 0xEF then ([], some { value := n % 16, missing := 2 })
  else if n = 0xF0 then ([], some { value := 0, missing := 3, least := 0x90 })
  else if 0xF1 ≤ n ∧ n ≤ 0xF3 then ([], some { value := n % 8, missing := 3 })
  else if n = 0xF4 then ([], some { value := 4, missing := 3, greatest := 0x8F })
  else ([replacement], none)

/-- The characters of some bytes.  As many bytes as could begin a character, but are not
followed by the rest of it, are replaced together. -/
def decode : Option Begun → Bytes → List Char
  | none, [] => []
  | some _, [] => [replacement]
  | none, byte :: bytes =>
    let (found, next) := first byte
    found ++ decode next bytes
  | some begun, byte :: bytes =>
    if begun.least ≤ byte ∧ byte ≤ begun.greatest then
      let value := 64 * begun.value + byte.toNat % 64
      if begun.missing = 1 then Char.ofNat value :: decode none bytes
      else decode (some { value := value, missing := begun.missing - 1 }) bytes
    else
      let (found, next) := first byte
      replacement :: found ++ decode next bytes

/-- The text in which bytes are shown. -/
def display (bytes : Bytes) : String :=
  match text? bytes with
  | some text => text
  | none => String.ofList (decode none bytes)

/-- A text is shown as it is. -/
theorem display_ofText (text : String) : display (ofText text) = text := by
  rw [display, text?_ofText]

end Bytes

end LambdaDeploy
