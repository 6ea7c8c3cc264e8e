import LambdaDeploy.Proofs.Text.Counting
import Mathlib.Order.Bounds.Defs

/-!
# Where scans cut and where they close

The scans that count brackets keep a depth, which falls below zero on a text that closes more than
it has opened.  What they find can be said without it: a place in a text is known by the numbers of
opening and closing brackets in front of it.  Places are counted in characters, from zero.

* `bracketSum_eq_countP`, `parenSum_eq_count` — the depth is the difference of two numbers.
* `cuts`, `cuts_splitTop` — **a text is cut at the separators where the two are equal.**
* `intercalate_splitTop` — the pieces, joined again, are the text.
* `closingParen?_eq_find?`, `matchingParen?_eq_find?` — a parenthesis is closed at the first place
  where the two are equal.
* `stripParens?_eq_some_iff` — **a text is enclosed if they are equal at its end and not before.**
* `scans_count_brackets` — all of this together.
-/

namespace LambdaDeploy.Text

variable {text piece inner : List Char} {pieces : List (List Char)} {c sep : Char} {depth : Int}
  {start : Nat}

/-! ## Counts -/

theorem isClosing_eq_false_of_isOpening (h : isOpening c = true) : isClosing c = false := by
  simp only [isOpening, Bool.or_eq_true, beq_iff_eq] at h
  rcases h with ((rfl | rfl) | rfl) | rfl <;> decide

/-- The depth behind a text is the number of its opening less that of its closing brackets. -/
theorem bracketSum_eq_countP (text : List Char) :
    bracketSum text = text.countP isOpening - text.countP isClosing := by
  induction text with
  | nil => rfl
  | cons c text ih =>
    rw [bracketSum_cons, ih, bracketValue, List.countP_cons, List.countP_cons]
    cases hopening : isOpening c with
    | true =>
      simp only [isClosing_eq_false_of_isOpening hopening, Bool.false_eq_true, if_true, if_false]
      omega
    | false =>
      cases isClosing c with
      | true =>
        simp only [Bool.false_eq_true, if_true, if_false]
        omega
      | false =>
        simp only [Bool.false_eq_true, if_false]
        omega

theorem bracketSum_eq_zero_iff :
    bracketSum text = 0 ↔ text.countP isOpening = text.countP isClosing := by
  rw [bracketSum_eq_countP]
  omega

theorem parenSum_eq_count (text : List Char) :
    parenSum text = text.count '(' - text.count ')' := by
  induction text with
  | nil => rfl
  | cons c text ih =>
    rw [parenSum_cons, ih, parenValue]
    by_cases hopening : c = '('
    · subst hopening
      rw [if_pos rfl, List.count_cons_self, List.count_cons_of_ne (by decide)]
      omega
    · by_cases hclosing : c = ')'
      · subst hclosing
        rw [if_neg hopening, if_pos rfl, List.count_cons_self, List.count_cons_of_ne hopening]
        omega
      · rw [if_neg hopening, if_neg hclosing, List.count_cons_of_ne hopening,
          List.count_cons_of_ne hclosing, Int.zero_add]

theorem parenSum_eq_zero_iff : parenSum text = 0 ↔ text.count '(' = text.count ')' := by
  rw [parenSum_eq_count]
  omega

theorem bracketValue_of_not_bracket (hopening : isOpening c = false)
    (hclosing : isClosing c = false) : bracketValue c = 0 := by
  simp [bracketValue, hopening, hclosing]

/-! ## Cuts -/

/-- The places of the separators between some pieces, in the text that the pieces are joined to. -/
def cuts : List (List Char) → List Nat
  | piece :: next :: pieces =>
    piece.length :: (cuts (next :: pieces)).map (· + (piece.length + 1))
  | _ => []

theorem cuts_cons (h : pieces ≠ []) :
    cuts (piece :: pieces) = piece.length :: (cuts pieces).map (· + (piece.length + 1)) := by
  cases pieces with
  | nil => exact absurd rfl h
  | cons next pieces => rfl

/-- With one more character in front, all cuts are one place further on. -/
theorem cuts_consFirst (h : pieces ≠ []) : cuts (consFirst c pieces) = (cuts pieces).map (· + 1) := by
  cases pieces with
  | nil => exact absurd rfl h
  | cons piece pieces =>
    cases pieces with
    | nil => rfl
    | cons next pieces =>
      simp only [consFirst, cuts, List.length_cons, List.map_cons, List.map_map]
      rfl

/-- The text is cut at the separators at depth zero, when it is read at the given depth. -/
theorem cuts_splitTopFrom (hsep : bracketValue sep = 0) :
    cuts (splitTopFrom sep depth text) =
      (List.range text.length).filter fun i =>
        text[i]? = some sep ∧ depth + bracketSum (text.take i) = 0 := by
  induction text generalizing depth with
  | nil => rfl
  | cons c text ih =>
    -- what is found behind the first character is found one place further on
    have hbehind : ((List.range text.length).map Nat.succ).filter (fun i =>
          (c :: text)[i]? = some sep ∧ depth + bracketSum ((c :: text).take i) = 0) =
        (cuts (splitTopFrom sep (depth + bracketValue c) text)).map (· + 1) := by
      rw [ih, List.filter_map]
      simp only [Function.comp_def, List.getElem?_cons_succ, List.take_succ_cons, bracketSum_cons,
        Int.add_assoc]
      rfl
    rw [splitTopFrom, List.length_cons, List.range_succ_eq_map, List.filter_cons, hbehind]
    split
    case isTrue hcut =>
      obtain ⟨hvalue, rfl, rfl⟩ := hcut
      simp [cuts_cons splitTopFrom_ne_nil, hvalue]
    case isFalse hkeep =>
      have hfirst : ¬(c = sep ∧ depth = 0) := by
        rintro ⟨rfl, hzero⟩
        exact hkeep ⟨hsep, rfl, hzero⟩
      simp [cuts_consFirst splitTopFrom_ne_nil, hfirst]

/-- **A text is cut at the separators with as many opening as closing brackets in front.** -/
theorem cuts_splitTop (hsep : bracketValue sep = 0) (text : List Char) :
    cuts (splitTop sep text) =
      (List.range text.length).filter fun i =>
        text[i]? = some sep ∧ (text.take i).countP isOpening = (text.take i).countP isClosing := by
  rw [splitTop, cuts_splitTopFrom hsep]
  simp only [Int.zero_add, bracketSum_eq_zero_iff]

theorem intercalate_consFirst (sep : List Char) (c : Char) (pieces : List (List Char)) :
    sep.intercalate (consFirst c pieces) = c :: sep.intercalate pieces := by
  match pieces with
  | [] => rfl
  | [piece] => rw [consFirst, List.intercalate_singleton, List.intercalate_singleton]
  | piece :: next :: pieces =>
    rw [consFirst, List.intercalate_cons_cons, List.intercalate_cons_cons]
    rfl

/-- Nothing but the separators is left out. -/
theorem intercalate_splitTopFrom (sep : Char) (depth : Int) (text : List Char) :
    [sep].intercalate (splitTopFrom sep depth text) = text := by
  induction text generalizing depth with
  | nil => rfl
  | cons c text ih =>
    rw [splitTopFrom]
    split
    case isTrue hcut =>
      obtain ⟨-, rfl, -⟩ := hcut
      rw [List.intercalate_cons_of_ne_nil splitTopFrom_ne_nil, ih]
      rfl
    case isFalse => rw [intercalate_consFirst, ih]

theorem intercalate_splitTop (sep : Char) (text : List Char) :
    [sep].intercalate (splitTop sep text) = text :=
  intercalate_splitTopFrom sep 0 text

/-! ## Closing parentheses -/

/-- At an open parenthesis the closing one is at the first place where the depth is zero. -/
theorem closingParen?_eq_find? (hdepth : 0 < depth) (text : List Char) :
    closingParen? depth text =
      (List.range text.length).find? fun i => depth + parenSum (text.take (i + 1)) = 0 := by
  induction text generalizing depth with
  | nil => rfl
  | cons c text ih =>
    rw [closingParen?_cons hdepth, List.length_cons, List.range_succ_eq_map, List.find?_cons]
    split
    case isTrue hzero => simp [hzero]
    case isFalse hzero =>
      have hvalue := neg_one_le_parenValue c
      rw [ih (by omega), List.find?_map]
      simp [hzero, Function.comp_def, Int.add_assoc]
      rfl

theorem closingParen?_opening (rest : List Char) :
    closingParen? 0 ('(' :: rest) =
      (List.range ('(' :: rest).length).find? fun i =>
        parenSum (('(' :: rest).take (i + 1)) = 0 := by
  have hvalue : parenValue '(' = 1 := by decide
  have hfirst : closingParen? 0 ('(' :: rest) = (closingParen? 1 rest).map (· + 1) := by
    rw [closingParen?, if_neg (by decide), hvalue, Int.zero_add]
  have hopen : ¬parenSum (('(' :: rest).take (0 + 1)) = 0 := by simp [hvalue]
  rw [hfirst, closingParen?_eq_find? (by decide), List.length_cons, List.range_succ_eq_map,
    List.find?_cons, List.find?_map, decide_eq_false hopen]
  rfl

/-- The parenthesis at a place is closed at the first place where as many are closed as opened
since then. -/
theorem matchingParen?_eq_find? (hopen : text[start]? = some '(') :
    matchingParen? text start =
      (List.range' start (text.length - start)).find? fun i =>
        (text.extract start (i + 1)).count '(' = (text.extract start (i + 1)).count ')' := by
  obtain ⟨hlength, hget⟩ := List.getElem?_eq_some_iff.1 hopen
  have hdrop : text.drop start = '(' :: text.drop (start + 1) := by
    rw [List.drop_eq_getElem_cons hlength, hget]
  have hclosing := closingParen?_opening (text.drop (start + 1))
  rw [← hdrop, List.length_drop] at hclosing
  rw [matchingParen?, hclosing, List.range'_eq_map_range, List.find?_map]
  simp only [Function.comp_def, parenSum_eq_zero_iff, List.extract_eq_take_drop, Nat.add_assoc,
    Nat.add_sub_cancel_left]
  congr 1
  funext i
  exact Nat.add_comm i start

/-- The places at or behind `start` where as many parentheses are closed as opened since then. -/
def closedAt (text : List Char) (start : Nat) : Set Nat :=
  {i | start ≤ i ∧ i < text.length ∧
    (text.extract start (i + 1)).count '(' = (text.extract start (i + 1)).count ')'}

theorem mem_closedAt_iff {n : Nat} (hopen : text[start]? = some '(') :
    n ∈ closedAt text start ↔ n ∈ List.range' start (text.length - start) ∧
      (text.extract start (n + 1)).count '(' = (text.extract start (n + 1)).count ')' := by
  have hlength := (List.getElem?_eq_some_iff.1 hopen).1
  have hrange : start + (text.length - start) = text.length := by omega
  rw [List.mem_range'_1, hrange, and_assoc]
  rfl

/-- **The least place** where as many parentheses are closed as opened. -/
theorem matchingParen?_eq_some_iff (hopen : text[start]? = some '(') {n : Nat} :
    matchingParen? text start = some n ↔ IsLeast (closedAt text start) n := by
  rw [matchingParen?_eq_find? hopen, List.find?_range'_eq_some]
  simp only [decide_eq_true_eq, Bool.not_eq_true', decide_eq_false_iff_not]
  constructor
  · rintro ⟨heven, hrange, hearlier⟩
    refine ⟨(mem_closedAt_iff hopen).2 ⟨hrange, heven⟩, fun i hi => ?_⟩
    exact Nat.le_of_not_lt fun hless => hearlier i hi.1 hless hi.2.2
  · rintro ⟨hmem, hleast⟩
    obtain ⟨hrange, heven⟩ := (mem_closedAt_iff hopen).1 hmem
    refine ⟨heven, hrange, fun i hi hless hzero => ?_⟩
    exact Nat.not_le_of_lt hless (hleast ⟨hi, Nat.lt_trans hless hmem.2.1, hzero⟩)

/-- The parenthesis is never closed exactly if there is no such place. -/
theorem matchingParen?_eq_none_iff (hopen : text[start]? = some '(') :
    matchingParen? text start = none ↔ ∀ n, n ∉ closedAt text start := by
  rw [matchingParen?_eq_find? hopen, List.find?_eq_none]
  simp only [decide_eq_true_eq, mem_closedAt_iff hopen, not_and]

/-! ## Parentheses around a whole text -/

/-- What is enclosed stands between two parentheses. -/
theorem eq_parens_of_stripParens? (h : stripParens? text = some inner) :
    text = '(' :: (inner ++ [')']) := by
  have hclosing : ∀ last, text.getLast? = some last → last = ')' := by
    intro last hlast
    by_contra hne
    rw [stripParens?_eq_none_of_getLast? hlast hne] at h
    cases h
  rw [stripParens?] at h
  split at h
  case isTrue hcond =>
    obtain ⟨hlength, hhead, -⟩ := hcond
    cases h
    obtain ⟨rest, rfl⟩ := List.head?_eq_some_iff.1 hhead
    have hrest : rest ≠ [] := by
      rintro rfl
      exact absurd hlength (by decide)
    obtain ⟨front, last, hsplit⟩ := (List.eq_nil_or_concat rest).resolve_left hrest
    rw [List.concat_eq_append] at hsplit
    obtain rfl := hsplit
    rw [hclosing last (by rw [← List.cons_append, List.getLast?_concat])]
    simp
  case isFalse => cases h

theorem stripParens?_parens_iff :
    stripParens? ('(' :: (inner ++ [')'])) = some inner ↔ inner ≠ [] ∧ ParensMatch inner := by
  have hlength : 2 < ('(' :: (inner ++ [')'])).length ↔ inner ≠ [] := by
    rw [← List.length_pos_iff]
    simp
  have hmatching : matchingParen? ('(' :: (inner ++ [')'])) 0 =
      (closingParen? 1 (inner ++ [')'])).map (· + 1) := by
    have hvalue : parenValue '(' = 1 := by decide
    rw [matchingParen?, List.drop_zero, closingParen?, if_neg (by decide), hvalue, Int.zero_add,
      Option.map_map]
    rfl
  have hbehind : closingParen? 1 (inner ++ [')']) = some inner.length ↔ ParensMatch inner :=
    closingParen?_behind_iff
  have hinner : (('(' :: (inner ++ [')'])).drop 1).dropLast = inner := by simp
  rw [stripParens?, hinner, hmatching, Option.ite_none_right_eq_some, hlength, ← hbehind]
  simp

/-- A pair of parentheses around a text adds one opening parenthesis to every beginning of it. -/
theorem count_lt_count_iff (before : List Char) :
    ('(' :: before).count ')' < ('(' :: before).count '(' ↔ 0 ≤ parenSum before := by
  rw [parenSum_eq_count, List.count_cons_self, List.count_cons_of_ne (by decide)]
  omega

/-- The parentheses of a text match exactly if, with one more pair around it, they are even at its
end and nowhere before. -/
theorem parensMatch_iff_count :
    ParensMatch inner ↔
      (∀ before, before <+: '(' :: (inner ++ [')']) → before ≠ [] →
        before ≠ '(' :: (inner ++ [')']) → before.count ')' < before.count '(') ∧
      ('(' :: (inner ++ [')'])).count '(' = ('(' :: (inner ++ [')'])).count ')' := by
  have hwhole : ('(' :: (inner ++ [')'])).count '(' = ('(' :: (inner ++ [')'])).count ')' ↔
      parenSum inner = 0 := by
    rw [parenSum_eq_zero_iff]
    simp
  have hbefore : ∀ before, before <+: inner ++ [')'] → before ≠ inner ++ [')'] →
      before <+: inner := fun before h hne => (List.prefix_concat_iff.1 h).resolve_left hne
  rw [hwhole, forall_prefix_cons]
  constructor
  · rintro ⟨hopened, hclosed⟩
    refine ⟨⟨fun h => absurd rfl h, fun before hbegins _ hne => ?_⟩, hclosed⟩
    exact (count_lt_count_iff before).2 (hopened before (hbefore before hbegins (by simpa using hne)))
  · rintro ⟨⟨-, hopened⟩, hclosed⟩
    refine ⟨fun before hbegins => ?_, hclosed⟩
    have hne : before ≠ inner ++ [')'] := by
      rintro rfl
      exact absurd hbegins.length_le (by simp)
    exact (count_lt_count_iff before).1
      (hopened before (hbegins.trans (List.prefix_append _ _)) (by simp) (by simpa using hne))

/-- **Parentheses enclose a text** exactly if there are as many closing as opening ones in the whole
of it, and more opening than closing ones in every beginning. -/
theorem stripParens?_eq_some_iff :
    stripParens? text = some inner ↔
      (text = '(' :: (inner ++ [')']) ∧ inner ≠ []) ∧
      (∀ before, before <+: text → before ≠ [] → before ≠ text →
        before.count ')' < before.count '(') ∧
      text.count '(' = text.count ')' := by
  constructor
  · intro h
    obtain rfl := eq_parens_of_stripParens? h
    obtain ⟨hne, hmatch⟩ := stripParens?_parens_iff.1 h
    exact ⟨⟨rfl, hne⟩, parensMatch_iff_count.1 hmatch⟩
  · rintro ⟨⟨rfl, hne⟩, hcount⟩
    exact stripParens?_parens_iff.2 ⟨hne, parensMatch_iff_count.2 hcount⟩

/-! ## All scans -/

/-- **The scans that count brackets are exact**, on every text.

The pieces between separators give the text back, and it is cut at exactly those separators that
have as many opening as closing brackets in front of them, whatever their kind.  So a separator
behind a text with as many of both ends the last piece of that text.

The parenthesis at a place is closed at the least place up to which as many are closed as opened,
and is never closed if there is none.  Two parentheses enclose a text exactly if it is not empty,
there are as many closing as opening ones from the first to the last, and more opening ones
anywhere in between. -/
theorem scans_count_brackets (text : List Char) :
    (∀ sep, isOpening sep = false → isClosing sep = false →
      [sep].intercalate (splitTop sep text) = text ∧
      cuts (splitTop sep text) = ((List.range text.length).filter fun i =>
        text[i]? = some sep ∧ (text.take i).countP isOpening = (text.take i).countP isClosing) ∧
      (text.countP isOpening = text.countP isClosing → ∀ rest,
        splitTop sep (text ++ sep :: rest) = splitTop sep text ++ splitTop sep rest)) ∧
    (∀ start, text[start]? = some '(' →
      (∀ n, matchingParen? text start = some n ↔ IsLeast (closedAt text start) n) ∧
      (matchingParen? text start = none ↔ ∀ n, n ∉ closedAt text start)) ∧
    ∀ inner, stripParens? text = some inner ↔
      (text = '(' :: (inner ++ [')']) ∧ inner ≠ []) ∧
      (∀ before, before <+: text → before ≠ [] → before ≠ text →
        before.count ')' < before.count '(') ∧
      text.count '(' = text.count ')' := by
  refine ⟨fun sep hopening hclosing => ?_, fun start hopen => ?_,
    fun inner => stripParens?_eq_some_iff⟩
  · have hsep := bracketValue_of_not_bracket hopening hclosing
    refine ⟨intercalate_splitTop sep text, cuts_splitTop hsep text, fun heven rest => ?_⟩
    exact splitTop_append_cons hsep (bracketSum_eq_zero_iff.2 heven) rest
  · exact ⟨fun n => matchingParen?_eq_some_iff hopen, matchingParen?_eq_none_iff hopen⟩

/-- A text that closes a bracket before it opens one and has a parenthesis that is never closed, and
a pair of parentheses around a brace that is never closed. -/
theorem scans_count_brackets_sample :
    let pieces := "|<a|b>|)c(|".toList
    let enclosed := "((a)|\x7bb)".toList
    ((isOpening '|' = false ∧ isClosing '|' = false) ∧ cuts (splitTop '|' pieces) = [0, 6, 10] ∧
      pieces.countP isOpening = pieces.countP isClosing ∧
      splitTop '|' (pieces ++ '|' :: "d|e".toList) =
        splitTop '|' pieces ++ splitTop '|' "d|e".toList) ∧
      (pieces[9]? = some '(' ∧ ∀ n, n ∉ closedAt pieces 9) ∧
      (enclosed[1]? = some '(' ∧ IsLeast (closedAt enclosed 1) 3) ∧
      ∀ before, before <+: enclosed → before ≠ [] → before ≠ enclosed →
        before.count ')' < before.count '(' := by
  intro pieces enclosed
  obtain ⟨hsplit, hmatching, -⟩ := scans_count_brackets pieces
  obtain ⟨-, hclosed, hstrip⟩ := scans_count_brackets enclosed
  obtain ⟨-, hcuts, happend⟩ := hsplit '|' rfl rfl
  have heven : pieces.countP isOpening = pieces.countP isClosing := by decide
  have hopen : pieces[9]? = some '(' := by decide
  have hopened : enclosed[1]? = some '(' := by decide
  refine ⟨⟨⟨rfl, rfl⟩, ?_, heven, happend heven _⟩, ⟨hopen, (hmatching 9 hopen).2.1 (by decide)⟩,
    ⟨hopened, ((hclosed 1 hopened).1 3).1 (by decide)⟩, ?_⟩
  · rw [hcuts]
    decide
  · exact ((hstrip "(a)|\x7bb".toList).1 (by decide)).2.1

end LambdaDeploy.Text
