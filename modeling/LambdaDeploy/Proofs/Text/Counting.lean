import LambdaDeploy.Proofs.Text.Nesting
import Mathlib.Data.List.Infix

/-!
# Scans that count brackets

The scan for a closing parenthesis and the scan for separators know neither string literals nor
which bracket closes which: they count.  So what they make of a text, nested or not, is known from
the sums over its beginnings.

* `parenSum`, `bracketSum` — what a text adds to the two depths.
* `ParensMatch`, `closingParen?_behind_iff` — when the parenthesis behind a text is the closing one.
* `closingParen?_append_of_le` — what stands in front of the closing parenthesis is passed over.
* `Uncut` — no separator stands where the depth is zero.
* `splitTop_of_uncut`, `Nested.splitTop_append` — such a text goes into one piece.
* `splitTop_append_cons` — a separator at depth zero ends a piece.
* `splitTopFrom_eq_cons` — where the first piece of a text ends.
-/

namespace LambdaDeploy.Text

variable {allowed : Char → Prop} {text rest before piece : List Char} {others : List (List Char)}
  {c sep : Char} {depth : Int} {n : Nat}

/-! ## Sums -/

/-- Opening less closing parentheses of a text. -/
def parenSum : List Char → Int
  | [] => 0
  | c :: text => parenValue c + parenSum text

/-- Opening less closing brackets of a text, whatever their kind. -/
def bracketSum : List Char → Int
  | [] => 0
  | c :: text => bracketValue c + bracketSum text

@[simp] theorem parenSum_nil : parenSum [] = 0 := rfl

@[simp] theorem parenSum_cons (c : Char) (text : List Char) :
    parenSum (c :: text) = parenValue c + parenSum text := rfl

@[simp] theorem bracketSum_nil : bracketSum [] = 0 := rfl

@[simp] theorem bracketSum_cons (c : Char) (text : List Char) :
    bracketSum (c :: text) = bracketValue c + bracketSum text := rfl

@[simp] theorem bracketSum_append (text rest : List Char) :
    bracketSum (text ++ rest) = bracketSum text + bracketSum rest := by
  induction text with
  | nil => simp
  | cons c text ih => simp [ih, Int.add_assoc]

/-- A nested text closes the brackets that it opens. -/
theorem Nested.bracketSum_eq (h : Nested allowed text) : bracketSum text = 0 := by
  induction h with
  | nil => rfl
  | plain hflat _ _ ih => rw [bracketSum_cons, hflat, ih, Int.add_zero]
  | group hpair _ _ ihinside ih =>
    obtain ⟨hopening, hclosing⟩ := bracketValue_of_pair hpair
    rw [bracketSum_cons, bracketSum_append, bracketSum_cons, hopening, hclosing, ihinside, ih]
    decide

/-! ## Parentheses -/

/-- Every closing parenthesis of the text has an opening one in front of it, and every opening
one is closed. -/
structure ParensMatch (text : List Char) : Prop where
  opened : ∀ before, before <+: text → 0 ≤ parenSum before
  closed : parenSum text = 0

instance (text : List Char) : Decidable (ParensMatch text) :=
  decidable_of_iff ((∀ before ∈ text.inits, 0 ≤ parenSum before) ∧ parenSum text = 0)
    ⟨fun h => ⟨fun before hbefore => h.1 before ((List.mem_inits _ _).2 hbefore), h.2⟩,
      fun h => ⟨fun before hbefore => h.opened before ((List.mem_inits _ _).1 hbefore), h.closed⟩⟩

theorem neg_one_le_parenValue (c : Char) : -1 ≤ parenValue c := by
  rw [parenValue]
  split
  · decide
  · split <;> decide

theorem eq_closing_of_parenValue (h : parenValue c < 0) : c = ')' := by
  rw [parenValue] at h
  split at h
  · cases h
  · split at h
    · assumption
    · cases h

/-- At an open parenthesis the closing one is where the count gets to zero. -/
theorem closingParen?_cons (hdepth : 0 < depth) (c : Char) (text : List Char) :
    closingParen? depth (c :: text) =
      if depth + parenValue c = 0 then some 0
      else (closingParen? (depth + parenValue c) text).map (· + 1) := by
  have hsame : (c = ')' ∧ depth + parenValue c = 0) ↔ depth + parenValue c = 0 :=
    and_iff_right_of_imp fun hzero => eq_closing_of_parenValue (by omega)
  rw [closingParen?]
  simp only [hsame]

theorem forall_prefix_cons {P : List Char → Prop} :
    (∀ before, before <+: c :: text → P before) ↔
      P [] ∧ ∀ before, before <+: text → P (c :: before) := by
  simp only [List.prefix_cons_iff, forall_eq_or_imp]
  refine and_congr_right fun _ => ⟨fun h before hbefore => h _ ⟨before, rfl, hbefore⟩, ?_⟩
  rintro h _ ⟨before, rfl, hbefore⟩
  exact h before hbefore

/-- Read at an open parenthesis, a text is followed by the closing one exactly if it does not
close it before and closes all of its own. -/
theorem closingParen?_eq_some_length_iff (hdepth : 0 < depth) :
    closingParen? depth (text ++ ')' :: rest) = some text.length ↔
      (∀ before, before <+: text → 0 < depth + parenSum before) ∧ depth + parenSum text = 1 := by
  induction text generalizing depth with
  | nil =>
    have hclosing : parenValue ')' = -1 := by decide
    rw [List.nil_append, closingParen?_cons hdepth, hclosing]
    simp only [List.length_nil, List.prefix_nil, forall_eq, parenSum_nil, Int.add_zero]
    split
    case isTrue hzero => exact iff_of_true rfl ⟨hdepth, by omega⟩
    case isFalse hzero => exact iff_of_false (by simp) (by omega)
  | cons c text ih =>
    rw [List.cons_append, closingParen?_cons hdepth, forall_prefix_cons]
    simp only [parenSum_cons, parenSum_nil, ← Int.add_assoc, List.length_cons]
    split
    case isTrue hzero =>
      -- the parenthesis is closed too early
      refine iff_of_false (by simp) fun h => ?_
      have hopen := h.1.2 [] List.nil_prefix
      rw [parenSum_nil] at hopen
      omega
    case isFalse hzero =>
      have hvalue := neg_one_le_parenValue c
      have hnext : 0 < depth + parenValue c := by omega
      have hsucc : (closingParen? (depth + parenValue c) (text ++ ')' :: rest)).map (· + 1) =
          some (text.length + 1) ↔
            closingParen? (depth + parenValue c) (text ++ ')' :: rest) = some text.length := by
        simp
      rw [hsucc, ih hnext]
      simp [hdepth]

/-- The parenthesis behind a text closes one that is open exactly if those of the text match. -/
theorem closingParen?_behind_iff :
    closingParen? 1 (text ++ ')' :: rest) = some text.length ↔ ParensMatch text := by
  rw [closingParen?_eq_some_length_iff (by decide)]
  constructor
  · rintro ⟨hopened, hclosed⟩
    refine ⟨fun before hbefore => ?_, by omega⟩
    have hopen := hopened before hbefore
    omega
  · rintro ⟨hopened, hclosed⟩
    refine ⟨fun before hbefore => ?_, by omega⟩
    have hopen := hopened before hbefore
    omega

/-- What stands in front of the closing parenthesis is passed over. -/
theorem closingParen?_append_of_le (hdepth : 0 < depth)
    (h : closingParen? depth (text ++ rest) = some n) (hn : text.length ≤ n) :
    0 < depth + parenSum text ∧
      ∃ k, closingParen? (depth + parenSum text) rest = some k ∧ n = text.length + k := by
  induction text generalizing depth n with
  | nil => exact ⟨by simpa using hdepth, n, by simpa using h, by simp⟩
  | cons c text ih =>
    rw [List.cons_append, closingParen?_cons hdepth] at h
    split at h
    case isTrue hzero =>
      cases h
      cases hn
    case isFalse hzero =>
      have hvalue := neg_one_le_parenValue c
      obtain ⟨m, hm, rfl⟩ := Option.map_eq_some_iff.1 h
      rw [List.length_cons] at hn ⊢
      obtain ⟨hopen, k, hk, rfl⟩ := ih (by omega) hm (by omega)
      rw [parenSum_cons, ← Int.add_assoc]
      exact ⟨hopen, k, hk, by omega⟩

/-! ## Separators -/

/-- Puts a text in front of the first piece. -/
def prependFirst (front : List Char) : List (List Char) → List (List Char)
  | [] => [front]
  | piece :: pieces => (front ++ piece) :: pieces

theorem prependFirst_nil {pieces : List (List Char)} (h : pieces ≠ []) :
    prependFirst [] pieces = pieces := by
  cases pieces with
  | nil => exact absurd rfl h
  | cons piece pieces => rfl

theorem consFirst_prependFirst (front : List Char) (pieces : List (List Char)) :
    consFirst c (prependFirst front pieces) = prependFirst (c :: front) pieces := by
  cases pieces <;> rfl

theorem splitTopFrom_ne_nil : splitTopFrom sep depth text ≠ [] := by
  cases text with
  | nil => simp [splitTopFrom]
  | cons c text =>
    rw [splitTopFrom]
    split
    · simp
    · exact consFirst_ne_nil

theorem splitTopFrom_cons (h : ¬ (bracketValue c = 0 ∧ c = sep ∧ depth = 0)) :
    splitTopFrom sep depth (c :: text) =
      consFirst c (splitTopFrom sep (depth + bracketValue c) text) := by
  rw [splitTopFrom, if_neg h]

/-- No separator stands where the depth of brackets is zero, when the text is read at the given
depth. -/
def Uncut (sep : Char) : Int → List Char → Prop
  | _, [] => True
  | depth, c :: text => (c = sep → depth ≠ 0) ∧ Uncut sep (depth + bracketValue c) text

instance Uncut.decidable (sep : Char) : (depth : Int) → (text : List Char) →
    Decidable (Uncut sep depth text)
  | _, [] => .isTrue trivial
  | depth, c :: text =>
    have := Uncut.decidable sep (depth + bracketValue c) text
    inferInstanceAs (Decidable ((c = sep → depth ≠ 0) ∧ _))

theorem uncut_append {sep : Char} {depth : Int} {text rest : List Char} :
    Uncut sep depth (text ++ rest) ↔
      Uncut sep depth text ∧ Uncut sep (depth + bracketSum text) rest := by
  induction text generalizing depth with
  | nil => simp [Uncut]
  | cons c text ih => simp [Uncut, ih, and_assoc, Int.add_assoc]

/-- A nested text has no separator at depth zero if none stands outside its brackets. -/
theorem Nested.uncut (h : Nested allowed text) (hdepth : 0 ≤ depth)
    (hsep : depth = 0 → ∀ c, allowed c → c ≠ sep) (hflat : bracketValue sep = 0) :
    Uncut sep depth text := by
  induction h generalizing depth with
  | nil => trivial
  | plain hzero hfine _ ih =>
    refine ⟨fun hcut hd => hsep hd _ hfine hcut, ?_⟩
    rw [hzero, Int.add_zero]
    exact ih hdepth hsep
  | group hpair hinside _ ihinside ih =>
    obtain ⟨hopening, hclosing⟩ := bracketValue_of_pair hpair
    have hne : ∀ {d : Char}, bracketValue d ≠ 0 → d ≠ sep := by
      rintro d hd rfl
      exact hd hflat
    refine ⟨fun hcut => absurd hcut (hne (by simp [hopening])), ?_⟩
    rw [uncut_append, hinside.bracketSum_eq, hopening]
    refine ⟨ihinside (by omega) (by omega), fun hcut => absurd hcut (hne (by simp [hclosing])), ?_⟩
    have hback : depth + 1 + 0 + -1 = depth := by omega
    rw [hclosing, hback]
    exact ih hdepth hsep

/-- A text without separators at depth zero goes into one piece. -/
theorem splitTopFrom_append_of_uncut (h : Uncut sep depth text) (rest : List Char) :
    splitTopFrom sep depth (text ++ rest) =
      prependFirst text (splitTopFrom sep (depth + bracketSum text) rest) := by
  induction text generalizing depth with
  | nil => simp [prependFirst_nil splitTopFrom_ne_nil]
  | cons c text ih =>
    rw [List.cons_append, splitTopFrom_cons fun hcut => h.1 hcut.2.1 hcut.2.2, ih h.2,
      consFirst_prependFirst, bracketSum_cons, Int.add_assoc]

theorem splitTop_of_uncut (h : Uncut sep 0 text) : splitTop sep text = [text] := by
  have hsplit := splitTopFrom_append_of_uncut h []
  simpa [splitTop, splitTopFrom, prependFirst] using hsplit

namespace Nested

/-- A nested text without separators outside its brackets is uncut. -/
theorem uncut_top (h : Nested (· ≠ sep) text) (hsep : bracketValue sep = 0) : Uncut sep 0 text :=
  h.uncut (Int.le_refl 0) (fun _ _ hc => hc) hsep

theorem splitTop_append (h : Nested (· ≠ sep) text) (hsep : bracketValue sep = 0)
    (rest : List Char) : splitTop sep (text ++ rest) = prependFirst text (splitTop sep rest) := by
  rw [splitTop, splitTopFrom_append_of_uncut (h.uncut_top hsep), h.bracketSum_eq]
  rfl

end Nested

/-- A separator at depth zero ends a piece. -/
theorem splitTopFrom_append_cons (hsep : bracketValue sep = 0)
    (hzero : depth + bracketSum before = 0) (after : List Char) :
    splitTopFrom sep depth (before ++ sep :: after) =
      splitTopFrom sep depth before ++ splitTop sep after := by
  induction before generalizing depth with
  | nil =>
    obtain rfl : depth = 0 := by simpa using hzero
    simp [splitTopFrom, hsep, splitTop]
  | cons c before ih =>
    rw [bracketSum_cons, ← Int.add_assoc] at hzero
    rw [List.cons_append, splitTopFrom, splitTopFrom, ih hzero]
    split
    case isTrue hcut =>
      obtain ⟨hvalue, -, rfl⟩ := hcut
      rw [hvalue, Int.add_zero] at hzero
      rw [ih hzero, List.cons_append]
    case isFalse => exact consFirst_append splitTopFrom_ne_nil

theorem splitTop_append_cons (hsep : bracketValue sep = 0) (hzero : bracketSum before = 0)
    (after : List Char) :
    splitTop sep (before ++ sep :: after) = splitTop sep before ++ splitTop sep after :=
  splitTopFrom_append_cons hsep (by rwa [Int.zero_add]) after

/-- The first piece of a text is uncut, and ends at a separator at depth zero or with the text. -/
theorem splitTopFrom_eq_cons (hsep : bracketValue sep = 0)
    (h : splitTopFrom sep depth text = piece :: others) :
    Uncut sep depth piece ∧
      (text = piece ∧ others = [] ∨
        ∃ rest, text = piece ++ sep :: rest ∧ depth + bracketSum piece = 0 ∧
          others = splitTopFrom sep 0 rest) := by
  induction text generalizing depth piece with
  | nil =>
    cases h
    exact ⟨trivial, .inl ⟨rfl, rfl⟩⟩
  | cons c text ih =>
    rw [splitTopFrom] at h
    split at h
    case isTrue hcut =>
      obtain ⟨-, rfl, rfl⟩ := hcut
      cases h
      exact ⟨trivial, .inr ⟨text, rfl, rfl, rfl⟩⟩
    case isFalse hkeep =>
      have hsome : splitTopFrom sep (depth + bracketValue c) text ≠ [] := splitTopFrom_ne_nil
      obtain ⟨first, more, hpieces⟩ := List.exists_cons_of_ne_nil hsome
      rw [hpieces] at h
      cases h
      obtain ⟨huncut, hend⟩ := ih hpieces
      have hfirst : c = sep → depth ≠ 0 := by
        rintro rfl hd
        exact hkeep ⟨hsep, rfl, hd⟩
      refine ⟨⟨hfirst, huncut⟩, ?_⟩
      rcases hend with ⟨rfl, hothers⟩ | ⟨rest, rfl, hzero, hothers⟩
      · exact .inl ⟨rfl, hothers⟩
      · exact .inr ⟨rest, rfl, by rwa [bracketSum_cons, ← Int.add_assoc], hothers⟩

theorem prefix_of_splitTop (hsep : bracketValue sep = 0)
    (h : splitTop sep text = piece :: others) : piece <+: text := by
  rcases (splitTopFrom_eq_cons hsep h).2 with ⟨rfl, -⟩ | ⟨rest, rfl, -⟩
  · exact List.prefix_refl _
  · exact List.prefix_append _ _

end LambdaDeploy.Text
