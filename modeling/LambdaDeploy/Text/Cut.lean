import LambdaDeploy.Text.Blank

/-!
# Cutting a text

Pieces between separators, the first or last separator, and a known beginning
or end.  Separators are cut out of characters and of bytes alike.

* `splitWhere` — the pieces between the elements of a class; joined again by
  those elements they give the text back.
* `cutFirst?`, `cutLast?` — the two sides of the first or last element of a
  class.
* `afterPrefix?`, `beforeSuffix?` — what a known beginning or end leaves.
* `words` — the maximal runs without blanks.
-/

namespace LambdaDeploy.Text

/-! ## Pieces between separators -/

variable {α : Type}

/-- Puts an element in front of the first piece. -/
def consFirst (c : α) : List (List α) → List (List α)
  | [] => [[c]]
  | piece :: pieces => (c :: piece) :: pieces

/-- The pieces of a list between the elements that satisfy `p`, empty ones
included: there is one more of them than there are such elements. -/
def splitWhere (p : α → Bool) (text : List α) : List (List α) :=
  text.foldr (fun c pieces => if p c then [] :: pieces else consFirst c pieces) [[]]

@[simp] theorem splitWhere_nil (p : α → Bool) : splitWhere p [] = [[]] := rfl

theorem splitWhere_cons (p : α → Bool) (c : α) (text : List α) :
    splitWhere p (c :: text) =
      if p c then [] :: splitWhere p text else consFirst c (splitWhere p text) := rfl

/-- The maximal runs of characters that are not blank. -/
def words (text : List Char) : List (List Char) :=
  (splitWhere isBlank text).filter (· ≠ [])

/-! ## One separator -/

/-- What stands before and after the first element that satisfies `p`. -/
def cutFirst? (p : α → Bool) (text : List α) : Option (List α × List α) :=
  match text.dropWhile (fun c => !p c) with
  | [] => none
  | _ :: after => some (text.takeWhile (fun c => !p c), after)

/-- The cut is at the first character of the class. -/
theorem cutFirst?_eq_some_iff {p : α → Bool} {text before after : List α} :
    cutFirst? p text = some (before, after) ↔
      ∃ c, p c = true ∧ (∀ b ∈ before, p b = false) ∧ text = before ++ c :: after := by
  induction text generalizing before with
  | nil => simp [cutFirst?]
  | cons d text ih =>
    cases hd : p d with
    | true =>
      simp only [cutFirst?, List.dropWhile_cons, List.takeWhile_cons, hd, Bool.not_true,
        Bool.false_eq_true, if_false, Option.some.injEq, Prod.mk.injEq]
      constructor
      · rintro ⟨rfl, rfl⟩
        exact ⟨d, hd, by simp, rfl⟩
      · rintro ⟨c, hc, hb, ht⟩
        cases before with
        | nil => simp_all
        | cons b before => simp_all
    | false =>
      have hcut : cutFirst? p (d :: text) =
          (cutFirst? p text).map fun cut => (d :: cut.1, cut.2) := by
        simp only [cutFirst?, List.dropWhile_cons, List.takeWhile_cons, hd, Bool.not_false, if_true]
        cases text.dropWhile (fun c => !p c) <;> rfl
      rw [hcut, Option.map_eq_some_iff]
      constructor
      · rintro ⟨cut, hc, he⟩
        obtain ⟨rfl, rfl⟩ := Prod.mk.inj he
        obtain ⟨c, hpc, hb, rfl⟩ := ih.1 hc
        exact ⟨c, hpc, by simpa [hd] using hb, rfl⟩
      · rintro ⟨c, hpc, hb, ht⟩
        cases before with
        | nil => simp_all
        | cons b before =>
          rw [List.cons_append, List.cons.injEq] at ht
          exact ⟨(before, after),
            ih.2 ⟨c, hpc, fun x hx => hb x (List.mem_cons_of_mem _ hx), ht.2⟩,
            by rw [ht.1]⟩

/-- What stands before and after the last element that satisfies `p`. -/
def cutLast? (p : α → Bool) (text : List α) : Option (List α × List α) :=
  (cutFirst? p text.reverse).map fun (after, before) => (before.reverse, after.reverse)

/-! ## A known beginning or end -/

/-- What follows `start`, if the text begins with it. -/
def afterPrefix? : List Char → List Char → Option (List Char)
  | [], text => some text
  | _ :: _, [] => none
  | s :: start, c :: text => if s = c then afterPrefix? start text else none

/-- What precedes `tail`, if the text ends in it. -/
def beforeSuffix? (tail text : List Char) : Option (List Char) :=
  (afterPrefix? tail.reverse text.reverse).map List.reverse

theorem afterPrefix?_append (start text : List Char) :
    afterPrefix? start (start ++ text) = some text := by
  induction start with
  | nil => rfl
  | cons c start ih => simpa [afterPrefix?] using ih

/-- A text begins with `start` exactly if it is `start` and a rest. -/
theorem afterPrefix?_eq_some_iff {start text rest : List Char} :
    afterPrefix? start text = some rest ↔ text = start ++ rest := by
  refine ⟨fun h => ?_, fun h => h ▸ afterPrefix?_append start rest⟩
  induction start generalizing text with
  | nil => simpa [afterPrefix?] using h
  | cons s start ih =>
    cases text with
    | nil => simp [afterPrefix?] at h
    | cons c text =>
      by_cases hsc : s = c
      · rw [afterPrefix?, if_pos hsc] at h
        rw [ih h, hsc, List.cons_append]
      · simp [afterPrefix?, hsc] at h

/-- A text ends in `tail` exactly if it is a rest and `tail`. -/
theorem beforeSuffix?_eq_some_iff {tail text rest : List Char} :
    beforeSuffix? tail text = some rest ↔ text = rest ++ tail := by
  rw [beforeSuffix?, Option.map_eq_some_iff]
  constructor
  · rintro ⟨before, hb, rfl⟩
    simpa using congrArg List.reverse (afterPrefix?_eq_some_iff.1 hb)
  · rintro rfl
    exact ⟨rest.reverse, by simp [afterPrefix?_append], by simp⟩

end LambdaDeploy.Text
