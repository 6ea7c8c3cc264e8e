import LambdaDeploy.Program.Rendering
import LambdaDeploy.Proofs.Text.Expression
import Mathlib.Logic.Function.Basic

/-!
# Literals that are written and scanned

A text is written as a string literal by doubling its backslashes and then putting one in front of
its quotes.  The scan that counts braces knows literals by their quotes and backslashes alone.  The
two were made for each other: the scan passes over a literal as if it were not there, and what it
takes for ordinary characters is the text that was written.

* `replaceAll`, `escape_eq_replaceAll` — escaping as two replacements, one after the other.
* `LiteralState.scan`, `braceDeltaFrom_append` — the scan of a text in two parts.
* `literal?`, `literal?_quote` — **the scan reads the text of a literal back.**
* `eq_of_quote_begins` — no literal is the beginning of another one.
* `renderExpr_literal_opaque` — **literals are opaque to the scan.**
-/

namespace LambdaDeploy.Text

variable {state : LiteralState} {text value other body before after rest : List Char}

/-! ## Writing -/

/-- The text with `new` in the place of every character `old`. -/
def replaceAll (old : Char) (new text : List Char) : List Char :=
  text.flatMap fun c => if c = old then new else [c]

/-- **Escaping is two replacements, one after the other.**  In the other order the backslashes in
front of the quotes would be doubled as well. -/
theorem escape_eq_replaceAll (text : List Char) :
    escape text = replaceAll '"' ['\\', '"'] (replaceAll '\\' ['\\', '\\'] text) := by
  have hchar : ∀ c : Char, (if c = '\\' ∨ c = '"' then ['\\', c] else [c]) =
      replaceAll '"' ['\\', '"'] (if c = '\\' then ['\\', '\\'] else [c]) := by
    intro c
    by_cases hslash : c = '\\'
    · simp [hslash, replaceAll]
    · by_cases hquote : c = '"'
      · simp [hquote, replaceAll]
      · simp [hslash, hquote, replaceAll]
  unfold replaceAll at hchar ⊢
  simp only [escape, List.flatMap_assoc, hchar]

theorem escape_cons_of_special {c : Char} (h : c = '\\' ∨ c = '"') (text : List Char) :
    escape (c :: text) = '\\' :: c :: escape text := by
  simp [escape, h]

theorem escape_cons_of_plain {c : Char} (h : ¬(c = '\\' ∨ c = '"')) (text : List Char) :
    escape (c :: text) = c :: escape text := by
  simp [escape, h]

/-- An escaped text can stand between quotes. -/
theorem literalBody_escape (text : List Char) : LiteralBody (escape text) := by
  induction text with
  | nil => exact .nil
  | cons c text ih =>
    by_cases hc : c = '\\' ∨ c = '"'
    · rw [escape_cons_of_special hc]
      exact .escape c ih
    · rw [escape_cons_of_plain hc]
      exact .plain (fun hquote => hc (.inr hquote)) (fun hslash => hc (.inl hslash)) ih

/-- A literal is an expression. -/
theorem expression_quote (text : List Char) : Expression (quote text) :=
  .literal (literalBody_escape text) .nil

/-! ## Scanning -/

/-- Where the scan stands behind a text. -/
def LiteralState.scan (state : LiteralState) (text : List Char) : LiteralState :=
  text.foldl LiteralState.next state

@[simp] theorem LiteralState.scan_nil (state : LiteralState) : state.scan [] = state := rfl

@[simp] theorem LiteralState.scan_cons (state : LiteralState) (c : Char) (text : List Char) :
    state.scan (c :: text) = (state.next c).scan text := rfl

@[simp] theorem LiteralState.scan_append (state : LiteralState) (text rest : List Char) :
    state.scan (text ++ rest) = (state.scan text).scan rest := by
  simp [scan]

/-- The braces of a text in two parts: the second is read where the scan of the first ends. -/
theorem braceDeltaFrom_append (state : LiteralState) (before after : List Char) :
    braceDeltaFrom state (before ++ after) =
      braceDeltaFrom state before + braceDeltaFrom (state.scan before) after := by
  induction before generalizing state with
  | nil => simp [braceDeltaFrom]
  | cons c before ih => simp [braceDeltaFrom, ih, Int.add_assoc]

/-- What can stand between quotes does not end the literal. -/
theorem LiteralBody.scan_inside (h : LiteralBody body) :
    LiteralState.inside.scan body = .inside := by
  induction h with
  | nil => rfl
  | plain hquote hescape _ ih => simpa [LiteralState.next, hquote, hescape] using ih
  | escape c _ ih => simpa [LiteralState.next] using ih

/-- Behind a literal the scan stands outside literals again. -/
theorem scan_quote (text : List Char) : LiteralState.outside.scan (quote text) = .outside := by
  have hinside : LiteralState.inside.scan (escape text) = .inside :=
    (literalBody_escape text).scan_inside
  simp [quote, LiteralState.next, hinside]

/-! ## Reading -/

/-- What is read from here to the end of the literal, and what follows it.  A character belongs to
the text exactly if the scan stands inside the literal behind it: a quote leads out of it, and a
backslash to the character that it makes an ordinary one. -/
def literalFrom? : LiteralState → List Char → Option (List Char × List Char)
  | .outside, rest => some ([], rest)
  | .inside, [] => none
  | .escaped, [] => none
  | state, c :: text =>
    if state.next c = .inside then (literalFrom? .inside text).map fun (value, rest) =>
      (c :: value, rest)
    else literalFrom? (state.next c) text

/-- The text of the literal that a text begins with, as the scan reads it, and what follows. -/
def literal? : List Char → Option (List Char × List Char)
  | [] => none
  | c :: text => if LiteralState.outside.next c = .inside then literalFrom? .inside text else none

theorem literalFrom?_escape (value rest : List Char) :
    literalFrom? .inside (escape value ++ '"' :: rest) = some (value, rest) := by
  induction value with
  | nil => simp [literalFrom?, LiteralState.next]
  | cons c value ih =>
    by_cases hc : c = '\\' ∨ c = '"'
    · rw [escape_cons_of_special hc]
      simp [literalFrom?, LiteralState.next, ih]
    · rw [escape_cons_of_plain hc]
      rw [not_or] at hc
      simp [literalFrom?, LiteralState.next, hc, ih]

/-- **The scan reads the text of a literal back**, whatever follows. -/
theorem literal?_quote (value rest : List Char) :
    literal? (quote value ++ rest) = some (value, rest) := by
  have hquote : quote value ++ rest = '"' :: (escape value ++ '"' :: rest) := by simp [quote]
  have hinside : LiteralState.outside.next '"' = .inside := by decide
  rw [hquote, literal?, if_pos hinside, literalFrom?_escape]

/-- No literal is the beginning of another one. -/
theorem eq_of_quote_begins (h : quote value <+: quote other) : value = other := by
  obtain ⟨rest, hrest⟩ := h
  have hread := literal?_quote value rest
  rw [hrest, ← List.append_nil (quote other), literal?_quote] at hread
  simp only [Option.some.injEq, Prod.mk.injEq] at hread
  exact hread.1.symm

/-! ## Literals among other text -/

/-- A literal adds no braces to the text around it, as long as it does not begin inside another
one. -/
theorem braceDelta_quote (h : LiteralState.outside.scan before = .outside) :
    braceDelta (before ++ quote value ++ after) = braceDelta (before ++ after) := by
  calc
    braceDelta (before ++ quote value ++ after)
      = braceDeltaFrom .outside before + braceDeltaFrom .outside (quote value ++ after) := by
        rw [braceDelta, List.append_assoc, braceDeltaFrom_append, h]
    _ = braceDeltaFrom .outside before + braceDeltaFrom .outside after := by
        rw [(expression_quote value).braceDeltaFrom_append]
    _ = braceDelta (before ++ after) := by rw [braceDelta, braceDeltaFrom_append, h]

end Text

open Text

/-- **Literals are opaque to the scan that counts braces.**  A literal is its text between quotes,
backslashes doubled first and then a backslash put in front of every quote.  Wherever the scan
stands outside literals, it counts the braces around a literal as if it were not there, and stands
outside literals again behind it.  What it reads inside is the text.  So different texts have
different literals, and none of these is the beginning of another. -/
theorem renderExpr_literal_opaque (scope : Scope) :
    let literal (value : String) : List Char := (scope.renderExpr (.stringLiteral value)).toList
    (∀ value, literal value = '"' ::
      (replaceAll '"' ['\\', '"'] (replaceAll '\\' ['\\', '\\'] value.toList) ++ ['"'])) ∧
    (∀ value before after, LiteralState.outside.scan before = .outside →
      braceDelta (before ++ literal value ++ after) = braceDelta (before ++ after) ∧
        LiteralState.outside.scan (before ++ literal value) = .outside) ∧
    (∀ value rest, literal? (literal value ++ rest) = some (value.toList, rest)) ∧
    Function.Injective literal ∧
    ∀ value other, literal value <+: literal other → literal value = literal other := by
  intro literal
  have hliteral : ∀ value : String, literal value = quote value.toList := by
    intro value
    simp only [literal, Scope.renderExpr, String.toList_ofList]
  have hbegins : ∀ value other : String, literal value <+: literal other → value = other := by
    intro value other h
    rw [hliteral, hliteral] at h
    exact String.toList_inj.1 (eq_of_quote_begins h)
  refine ⟨?_, ?_, ?_, ?_, ?_⟩
  · intro value
    rw [hliteral, quote, escape_eq_replaceAll, List.cons_append]
  · intro value before after h
    rw [hliteral]
    refine ⟨braceDelta_quote h, ?_⟩
    rw [LiteralState.scan_append, h, scan_quote]
  · intro value rest
    rw [hliteral, literal?_quote]
  · intro value other h
    exact hbegins value other ⟨[], (List.append_nil _).trans h⟩
  · intro value other h
    rw [hbegins value other h]

/-- A call with a literal before a literal that holds a quote, a backslash and a brace. -/
theorem renderExpr_literal_opaque_sample :
    let literal := (({ package := ⟨"acme", "shop", "1.0.0"⟩ } : Scope).renderExpr
      (.stringLiteral "\\\"\x7b")).toList
    LiteralState.outside.scan "if f(\"\x7d\", ".toList = .outside ∧
      braceDelta ("if f(\"\x7d\", ".toList ++ literal ++ ") \x7b".toList) =
        braceDelta ("if f(\"\x7d\", ".toList ++ ") \x7b".toList) := by
  obtain ⟨-, hcounts, -⟩ := renderExpr_literal_opaque { package := ⟨"acme", "shop", "1.0.0"⟩ }
  have hstart : LiteralState.outside.scan "if f(\"\x7d\", ".toList = .outside := by decide
  exact ⟨hstart, (hcounts _ _ _ hstart).1⟩

end LambdaDeploy
