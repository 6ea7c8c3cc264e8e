import LambdaDeploy.Proofs.Text.Nesting

/-!
# Expressions with string literals

Between the quotes of a string literal brackets mean nothing, and a backslash takes the meaning
from a quote.  An expression is properly nested outside its literals; the signs `<` and `>` are no
brackets there, since they also compare.

* `LiteralBody` — what stands between the quotes of a literal.
* `Expression` — texts that are properly nested outside string literals.
* `Expression.braceDelta_append` — an expression closes the braces that it opens.
* `Nested.expression` — without quotes every nested text is an expression.
-/

namespace LambdaDeploy.Text

variable {allowed : Char → Prop} {text rest body before after : List Char}

/-- What stands between the quotes of a string literal.  Any character may follow a backslash. -/
inductive LiteralBody : List Char → Prop
  | nil : LiteralBody []
  | plain {c : Char} {text : List Char} (noQuote : c ≠ '"') (noEscape : c ≠ '\\')
      (rest : LiteralBody text) : LiteralBody (c :: text)
  | escape (c : Char) {text : List Char} (rest : LiteralBody text) : LiteralBody ('\\' :: c :: text)

/-- A text whose parentheses, square brackets and braces are properly nested outside string
literals. -/
inductive Expression : List Char → Prop
  | nil : Expression []
  | plain {c : Char} {text : List Char}
      (flat : ∀ d ∈ ['"', '(', ')', '[', ']', '\x7b', '\x7d'], c ≠ d) (rest : Expression text) :
      Expression (c :: text)
  | literal {body text : List Char} (inside : LiteralBody body) (rest : Expression text) :
      Expression ('"' :: (body ++ '"' :: text))
  | group {opening closing : Char} {inner text : List Char} (pair : Pair opening closing)
      (noAngle : opening ≠ '<') (inside : Expression inner) (rest : Expression text) :
      Expression (opening :: (inner ++ closing :: text))

theorem LiteralBody.of_forall (h : ∀ c ∈ text, c ≠ '"' ∧ c ≠ '\\') : LiteralBody text := by
  induction text with
  | nil => exact .nil
  | cons c text ih =>
    rw [List.forall_mem_cons] at h
    exact .plain h.1.1 h.1.2 (ih h.2)

namespace Expression

theorem of_forall (h : ∀ c ∈ text, ∀ d ∈ ['"', '(', ')', '[', ']', '\x7b', '\x7d'], c ≠ d) :
    Expression text := by
  induction text with
  | nil => exact .nil
  | cons c text ih =>
    rw [List.forall_mem_cons] at h
    exact .plain h.1 (ih h.2)

theorem append (hbefore : Expression before) (hafter : Expression after) :
    Expression (before ++ after) := by
  induction hbefore with
  | nil => exact hafter
  | plain hflat _ ih => exact .plain hflat ih
  | literal hinside _ ih =>
    rw [List.cons_append, List.append_assoc, List.cons_append]
    exact .literal hinside ih
  | group hpair hangle hinside _ _ ih =>
    rw [List.cons_append, List.append_assoc, List.cons_append]
    exact .group hpair hangle hinside ih

theorem intercalate {sep : List Char} {pieces : List (List Char)} (hsep : Expression sep)
    (h : ∀ piece ∈ pieces, Expression piece) : Expression (sep.intercalate pieces) := by
  induction pieces with
  | nil => exact .nil
  | cons piece pieces ih =>
    rw [List.forall_mem_cons] at h
    cases pieces with
    | nil => simpa using h.1
    | cons next pieces =>
      rw [List.intercalate_cons_cons]
      exact (h.1.append hsep).append (ih h.2)

end Expression

/-- Without quotes every nested text is an expression: angle brackets are plain characters then. -/
theorem Nested.expression (h : Nested allowed text) (hquote : '"' ∉ text) : Expression text := by
  induction h with
  | nil => exact .nil
  | @plain _ c text hflat _ _ ih =>
    rw [List.mem_cons, not_or] at hquote
    refine .plain ?_ (ih hquote.2)
    rintro d hd rfl
    have hsigns : ∀ d ∈ ['(', ')', '[', ']', '\x7b', '\x7d'], bracketValue d ≠ 0 := by decide
    rcases List.mem_cons.1 hd with rfl | hd
    · exact hquote.1 rfl
    · exact hsigns _ hd hflat
  | group hpair _ _ ihinside ih =>
    simp only [List.mem_cons, List.mem_append, not_or] at hquote
    have hinside := ihinside hquote.2.1
    have hrest := ih hquote.2.2.2
    cases hpair with
    | angle => exact .plain (by decide) (hinside.append (.plain (by decide) hrest))
    | round => exact .group .round (by decide) hinside hrest
    | curly => exact .group .curly (by decide) hinside hrest
    | square => exact .group .square (by decide) hinside hrest

/-! ## Braces -/

theorem LiteralBody.braceDeltaFrom_append (h : LiteralBody body) :
    braceDeltaFrom .inside (body ++ rest) = braceDeltaFrom .inside rest := by
  have hvalue : ∀ {state : LiteralState} {c : Char}, state ≠ .outside → braceValue state c = 0 :=
    fun hstate => if_neg hstate
  induction h with
  | nil => rfl
  | plain hquote hescape _ ih =>
    rw [List.cons_append, braceDeltaFrom, hvalue (by decide), LiteralState.next, if_neg hescape,
      if_neg hquote, ih, Int.zero_add]
  | escape c _ ih =>
    rw [List.cons_append, List.cons_append, braceDeltaFrom, hvalue (by decide),
      LiteralState.next, if_pos rfl, braceDeltaFrom, hvalue (by decide), LiteralState.next, ih,
      Int.zero_add, Int.zero_add]

theorem Expression.braceDeltaFrom_append (h : Expression text) :
    braceDeltaFrom .outside (text ++ rest) = braceDeltaFrom .outside rest := by
  induction h generalizing rest with
  | nil => rfl
  | @plain c text hflat _ ih =>
    have hvalue : braceValue .outside c = 0 := by
      simp [braceValue, hflat '\x7b' (by decide), hflat '\x7d' (by decide)]
    rw [List.cons_append, braceDeltaFrom_cons (hflat '"' (by decide)), hvalue, ih, Int.zero_add]
  | literal hinside _ ih =>
    have hopening : braceValue .outside '"' = 0 := by decide
    have hclosing : braceValue .inside '"' = 0 := by decide
    rw [List.cons_append, List.append_assoc, List.cons_append, braceDeltaFrom, hopening,
      LiteralState.next, if_pos rfl, hinside.braceDeltaFrom_append, braceDeltaFrom, hclosing,
      LiteralState.next, if_neg (by decide), if_pos rfl, ih, Int.zero_add, Int.zero_add]
  | group hpair _ _ _ ihinside ih =>
    obtain ⟨hopening, hclosing, hvalue⟩ := braceValue_of_pair hpair
    rw [List.cons_append, List.append_assoc, List.cons_append, braceDeltaFrom_cons hopening,
      ihinside, braceDeltaFrom_cons hclosing, ih, ← Int.add_assoc, hvalue, Int.zero_add]

/-- An expression closes the braces that it opens. -/
theorem Expression.braceDelta_append (h : Expression text) :
    braceDelta (text ++ rest) = braceDelta rest :=
  h.braceDeltaFrom_append

end LambdaDeploy.Text
