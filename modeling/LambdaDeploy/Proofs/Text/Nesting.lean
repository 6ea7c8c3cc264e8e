import LambdaDeploy.Proofs.Text.Cutting
import LambdaDeploy.Text.Bracket

/-!
# Properly nested texts

In a properly nested text every bracket is closed by one of its own kind, and what stands
between the two is properly nested again.  The scans that only count brackets read such a text
as if it were a single character without meaning.

* `Nested` — properly nested texts, with what may stand outside their brackets.
* `closingParen?_append` — a nested text is passed over on the way to a closing parenthesis.
* `stripParens?_enclosed`, `stripParens?_eq_none_of_append` — parentheses around a whole text.
* `Settled` — texts on one line whose braces cancel out.
-/

namespace LambdaDeploy.Text

variable {allowed other : Char → Prop} {text before after inner rest : List Char} {c sep : Char}
  {depth : Int}

/-! ## Characters without a bracket value -/

theorem bracketValue_eq_zero (h : ∀ d ∈ ['(', ')', '<', '>', '{', '}', '[', ']'], c ≠ d) :
    bracketValue c = 0 := by
  simp only [List.forall_mem_cons] at h
  simp [bracketValue, isOpening, isClosing, h]

theorem bracketValue_of_isBlank (h : isBlank c = true) : bracketValue c = 0 := by
  apply bracketValue_eq_zero
  intro d hd
  rintro rfl
  have hsigns : ∀ d ∈ ['(', ')', '<', '>', '{', '}', '[', ']'], isBlank d = false := by decide
  rw [hsigns c hd] at h
  cases h

/-! ## Nesting -/

/-- Brackets of the same kind. -/
inductive Pair : Char → Char → Prop
  | round : Pair '(' ')'
  | angle : Pair '<' '>'
  | curly : Pair '{' '}'
  | square : Pair '[' ']'

/-- A properly nested text.  Outside its brackets only characters of the given class stand;
inside them there may be any. -/
inductive Nested : (Char → Prop) → List Char → Prop
  | nil (allowed : Char → Prop) : Nested allowed []
  | plain {allowed : Char → Prop} {c : Char} {text : List Char} (flat : bracketValue c = 0)
      (fine : allowed c) (rest : Nested allowed text) : Nested allowed (c :: text)
  | group {allowed : Char → Prop} {opening closing : Char} {inner text : List Char}
      (pair : Pair opening closing) (inside : Nested (fun _ => True) inner)
      (rest : Nested allowed text) : Nested allowed (opening :: (inner ++ closing :: text))

namespace Nested

theorem append (hbefore : Nested allowed before) (hafter : Nested allowed after) :
    Nested allowed (before ++ after) := by
  induction hbefore with
  | nil => exact hafter
  | plain hflat hfine _ ih => exact .plain hflat hfine (ih hafter)
  | group hpair hinside _ _ ih =>
    rw [List.cons_append, List.append_assoc, List.cons_append]
    exact .group hpair hinside (ih hafter)

theorem mono (himp : ∀ c, allowed c → other c) (h : Nested allowed text) : Nested other text := by
  induction h with
  | nil => exact .nil _
  | plain hflat hfine _ ih => exact .plain hflat (himp _ hfine) (ih himp)
  | group hpair hinside _ _ ih => exact .group hpair hinside (ih himp)

/-- A nested text ends in a character that may stand outside brackets, or in a bracket. -/
theorem getLast?_cases (h : Nested allowed text) (hlast : text.getLast? = some c) :
    allowed c ∨ ∃ opening, Pair opening c := by
  induction h with
  | nil => cases hlast
  | @plain allowed d text _ hfine _ ih =>
    cases text with
    | nil =>
      obtain rfl := Option.some.inj hlast
      exact .inl hfine
    | cons next text =>
      rw [List.getLast?_cons_cons] at hlast
      exact ih hlast
  | @group allowed opening closing inner text hpair _ _ _ ih =>
    rw [← List.cons_append, List.getLast?_append] at hlast
    cases text with
    | nil =>
      obtain rfl := Option.some.inj hlast
      exact .inr ⟨opening, hpair⟩
    | cons next text =>
      rw [List.getLast?_cons_cons, Option.or_of_isSome (by simp)] at hlast
      exact ih hlast

/-- A nested text, whatever stands outside its brackets. -/
theorem any (h : Nested allowed text) : Nested (fun _ => True) text :=
  h.mono fun _ _ => trivial

theorem of_forall (h : ∀ c ∈ text, bracketValue c = 0 ∧ allowed c) : Nested allowed text := by
  induction text with
  | nil => exact .nil _
  | cons c text ih =>
    rw [List.forall_mem_cons] at h
    exact .plain h.1.1 h.1.2 (ih h.2)

theorem intercalate {sep : List Char} {pieces : List (List Char)} (hsep : Nested allowed sep)
    (h : ∀ piece ∈ pieces, Nested allowed piece) : Nested allowed (sep.intercalate pieces) := by
  induction pieces with
  | nil => exact .nil _
  | cons piece pieces ih =>
    rw [List.forall_mem_cons] at h
    cases pieces with
    | nil => simpa using h.1
    | cons next pieces =>
      rw [List.intercalate_cons_cons]
      exact (h.1.append hsep).append (ih h.2)

/-- A text between two brackets of one kind. -/
theorem enclosed {opening closing : Char} (hpair : Pair opening closing)
    (h : Nested other inner) : Nested allowed (opening :: (inner ++ [closing])) :=
  .group hpair h.any (.nil _)

end Nested

theorem bracketValue_of_pair {opening closing : Char} (h : Pair opening closing) :
    bracketValue opening = 1 ∧ bracketValue closing = -1 := by
  cases h <;> decide

/-! ## Parentheses -/

theorem parenValue_eq_zero (h : bracketValue c = 0) : parenValue c = 0 := by
  rw [parenValue]
  split
  · rename_i hc
    rw [hc] at h
    exact absurd h (by decide)
  · split
    · rename_i hc
      rw [hc] at h
      exact absurd h (by decide)
    · rfl

theorem ne_closing (h : bracketValue c = 0) : c ≠ ')' := by
  rintro rfl
  exact absurd h (by decide)

/-- On the way to the parenthesis that closes an open one, a nested text is passed over. -/
theorem closingParen?_append (h : Nested allowed text) (hdepth : 0 < depth) :
    closingParen? depth (text ++ rest) = (closingParen? depth rest).map (· + text.length) := by
  induction h generalizing depth rest with
  | nil => simp
  | @plain allowed c text hflat _ _ ih =>
    rw [List.cons_append, closingParen?, parenValue_eq_zero hflat,
      if_neg fun hc => ne_closing hflat hc.1, Int.add_zero, ih hdepth, Option.map_map]
    rfl
  | @group allowed opening closing inner text hpair _ _ ihinside ih =>
    -- only round brackets count, and they come in pairs
    obtain ⟨step, hstep, hopening, hback, hclosing, hne⟩ : ∃ step : Int, 0 ≤ step ∧
        parenValue opening = step ∧ parenValue closing = -step ∧
        (closing = ')' → step = 1) ∧ opening ≠ ')' := by
      cases hpair
      · exact ⟨1, by decide, by decide, by decide, fun _ => rfl, by decide⟩
      all_goals exact ⟨0, by decide, by decide, by decide, by decide, by decide⟩
    have hopen : ¬ (opening = ')' ∧ depth + step = 0) := fun hc => hne hc.1
    have hclose : ¬ (closing = ')' ∧ depth + step + -step = 0) := fun hc => by omega
    rw [List.cons_append, List.append_assoc, List.cons_append, closingParen?, hopening,
      if_neg hopen, ihinside (by omega), closingParen?, hback, if_neg hclose,
      Int.add_neg_cancel_right, ih hdepth]
    simp only [Option.map_map]
    congr 1
    funext n
    simp only [Function.comp, List.length_cons, List.length_append]
    omega

/-- The parenthesis behind a nested text closes one that is open. -/
theorem closingParen?_behind (h : Nested allowed inner) :
    closingParen? 1 (inner ++ ')' :: rest) = some inner.length := by
  have hclosing : parenValue ')' = -1 := by decide
  rw [closingParen?_append h (by decide), closingParen?, hclosing, if_pos (by decide)]
  simp

/-- The parenthesis that closes the one in front of a nested text. -/
theorem closingParen?_enclosed (h : Nested allowed inner) :
    closingParen? 0 ('(' :: (inner ++ ')' :: rest)) = some (inner.length + 1) := by
  have hvalue : parenValue '(' = 1 := by decide
  rw [closingParen?, if_neg (by decide), hvalue, Int.zero_add, closingParen?_behind h]
  rfl

/-- Parentheses around a nested text that is not empty are taken off. -/
theorem stripParens?_enclosed (h : Nested allowed inner) (hne : inner ≠ []) :
    stripParens? ('(' :: (inner ++ [')'])) = some inner := by
  have hlength : 0 < inner.length := List.length_pos_iff.2 hne
  rw [stripParens?, if_pos]
  · simp
  · refine ⟨by simpa using hlength, rfl, ?_⟩
    rw [matchingParen?, List.drop_zero, closingParen?_enclosed h]
    simp

theorem getElem?_of_closingParen? {n : Nat} (h : closingParen? depth text = some n) :
    text[n]? = some ')' := by
  induction text generalizing depth n with
  | nil => cases h
  | cons c text ih =>
    rw [closingParen?] at h
    split at h
    · rename_i hc
      cases h
      simp [hc.1]
    · obtain ⟨k, hk, rfl⟩ := Option.map_eq_some_iff.1 h
      simpa using ih hk

/-- A text that does not end in a parenthesis is not enclosed in parentheses. -/
theorem stripParens?_eq_none_of_getLast? (hlast : text.getLast? = some c) (hc : c ≠ ')') :
    stripParens? text = none := by
  rw [stripParens?, if_neg]
  rintro ⟨-, -, hmatching⟩
  rw [matchingParen?, List.drop_zero, Option.map_eq_some_iff] at hmatching
  obtain ⟨n, hn, hend⟩ := hmatching
  rw [List.getLast?_eq_getElem?, ← hend] at hlast
  exact hc (Option.some.inj (hlast.symm.trans (getElem?_of_closingParen? hn)))

/-- A nested text with something behind it is not enclosed in parentheses: if it begins with
one, that is closed too early. -/
theorem stripParens?_eq_none_of_append (h : Nested allowed before) (hne : before ≠ [])
    (hafter : after ≠ []) : stripParens? (before ++ after) = none := by
  rw [stripParens?, if_neg]
  rintro ⟨-, hhead, hmatching⟩
  cases h with
  | nil => exact hne rfl
  | plain hflat =>
    obtain rfl := Option.some.inj hhead
    exact absurd hflat (by decide)
  | group hpair hinside =>
    obtain rfl := Option.some.inj hhead
    cases hpair
    rw [List.cons_append, List.append_assoc, List.cons_append, matchingParen?, List.drop_zero,
      closingParen?_enclosed hinside] at hmatching
    have hlength := List.length_pos_iff.2 hafter
    simp only [Option.map_some, Option.some.injEq, List.length_cons,
      List.length_append] at hmatching
    omega

/-! ## Braces -/

theorem braceDeltaFrom_cons (hc : c ≠ '"') (text : List Char) :
    braceDeltaFrom .outside (c :: text) = braceValue .outside c + braceDeltaFrom .outside text := by
  rw [braceDeltaFrom, LiteralState.next, if_neg hc]

theorem braceValue_of_pair {opening closing : Char} (h : Pair opening closing) :
    opening ≠ '"' ∧ closing ≠ '"' ∧
      braceValue .outside opening + braceValue .outside closing = 0 := by
  cases h <;> decide

/-- Without quotes a nested text closes the braces that it opens. -/
theorem Nested.braceDeltaFrom_append (h : Nested allowed text) (hquote : '"' ∉ text) :
    braceDeltaFrom .outside (text ++ rest) = braceDeltaFrom .outside rest := by
  induction h generalizing rest with
  | nil => rfl
  | @plain allowed c text hflat _ _ ih =>
    rw [List.mem_cons, not_or] at hquote
    have hvalue : braceValue .outside c = 0 := by
      have hopening : c ≠ '{' := by
        rintro rfl
        exact absurd hflat (by decide)
      have hclosing : c ≠ '}' := by
        rintro rfl
        exact absurd hflat (by decide)
      simp [braceValue, hopening, hclosing]
    rw [List.cons_append, braceDeltaFrom_cons (Ne.symm hquote.1), hvalue, ih hquote.2,
      Int.zero_add]
  | group hpair _ _ ihinside ih =>
    simp only [List.mem_cons, List.mem_append, not_or] at hquote
    obtain ⟨hopening, hclosing, hvalue⟩ := braceValue_of_pair hpair
    rw [List.cons_append, List.append_assoc, List.cons_append, braceDeltaFrom_cons hopening,
      ihinside hquote.2.1, braceDeltaFrom_cons hclosing, ih hquote.2.2.2, ← Int.add_assoc, hvalue,
      Int.zero_add]

/-- A text on one line whose braces cancel out: it is properly nested and holds no quotes and
no line ends. -/
structure Settled (text : List Char) : Prop where
  nested : Nested (fun _ => True) text
  plain : ∀ c ∈ text, c ≠ '"' ∧ c ≠ '\n'

namespace Settled

theorem of_forall (h : ∀ c ∈ text, bracketValue c = 0 ∧ c ≠ '"' ∧ c ≠ '\n') : Settled text :=
  ⟨.of_forall fun c hc => ⟨(h c hc).1, trivial⟩, fun c hc => (h c hc).2⟩

theorem append (hbefore : Settled before) (hafter : Settled after) : Settled (before ++ after) :=
  ⟨hbefore.nested.append hafter.nested, fun c hc =>
    (List.mem_append.1 hc).elim (hbefore.plain c) (hafter.plain c)⟩

theorem enclosed {opening closing : Char} (hpair : Pair opening closing) (h : Settled inner) :
    Settled (opening :: (inner ++ [closing])) := by
  refine ⟨.enclosed hpair h.nested, ?_⟩
  have hsigns : ∀ c ∈ [opening, closing], c ≠ '"' ∧ c ≠ '\n' := by
    cases hpair <;> decide
  intro c hc
  rw [List.mem_cons, List.mem_append, List.mem_singleton] at hc
  rcases hc with rfl | hc | rfl
  · exact hsigns c (by simp)
  · exact h.plain c hc
  · exact hsigns c (by simp)

theorem intercalate {sep : List Char} {pieces : List (List Char)} (hsep : Settled sep)
    (h : ∀ piece ∈ pieces, Settled piece) : Settled (sep.intercalate pieces) :=
  ⟨.intercalate hsep.nested fun piece hpiece => (h piece hpiece).nested,
    forall_mem_intercalate hsep.plain fun piece hpiece => (h piece hpiece).plain⟩

theorem braceDelta_append (h : Settled text) : braceDelta (text ++ rest) = braceDelta rest :=
  h.nested.braceDeltaFrom_append fun hquote => (h.plain _ hquote).1 rfl

theorem braceDelta_eq (h : Settled text) : braceDelta text = 0 := by
  rw [← List.append_nil text, h.braceDelta_append]
  rfl

end Settled

end LambdaDeploy.Text
