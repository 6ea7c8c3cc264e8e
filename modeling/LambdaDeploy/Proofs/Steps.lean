/-!
# Computations that may fail

The steps of a computation in `Except` that has succeeded have all succeeded, and in one that has
failed some step has.

* `exists_of_bind_eq_ok`, `eq_error_of_bind_eq_error` — a sequence of two steps.
* `foldlM_prefix`, `foldlM_invariant` — a fold over a list: what every successful step
  keeps holds of the result; `exists_of_foldlM_eq_error` — the step that has failed;
  `foldlM_insertIdx` — a step that does nothing.
* `eq_ok_of_toOption` — the result of a computation that can be evaluated.
* `exists_ok_of_any` — success, and a property of the result, of such a computation;
  `exists_error_of_toBool` — failure.
-/

namespace LambdaDeploy

variable {ε α β : Type}

/-- Two steps that succeed one after the other succeed each. -/
theorem exists_of_bind_eq_ok {x : Except ε α} {next : α → Except ε β} {b : β}
    (h : (x >>= next) = .ok b) : ∃ a, x = .ok a ∧ next a = .ok b := by
  cases x with
  | error e => cases h
  | ok a => exact ⟨a, rfl, h⟩

/-- Of two steps one after the other, one has failed. -/
theorem eq_error_of_bind_eq_error {x : Except ε α} {next : α → Except ε β} {e : ε}
    (h : (x >>= next) = .error e) : x = .error e ∨ ∃ a, x = .ok a ∧ next a = .error e := by
  cases x with
  | error cause => exact .inl (by cases h; rfl)
  | ok a => exact .inr ⟨a, rfl, h⟩

/-- What every successful step carries from the part of a list before an element to the part
with it, a successful fold shows of the whole list. -/
theorem foldlM_prefix {step : β → α → Except ε β} (P : List α → β → Prop)
    (keep : ∀ done b a b', P done b → step b a = .ok b' → P (done ++ [a]) b')
    {l : List α} {b b' : β} (hb : P [] b) (h : l.foldlM step b = .ok b') : P l b' := by
  have hrun : ∀ {done l b}, P done b → l.foldlM step b = .ok b' → P (done ++ l) b' := by
    intro done l b hb h
    induction l generalizing done b with
    | nil =>
      cases h
      rwa [List.append_nil]
    | cons a l ih =>
      rw [List.foldlM_cons] at h
      obtain ⟨next, hstep, hrest⟩ := exists_of_bind_eq_ok h
      rw [← List.singleton_append, ← List.append_assoc]
      exact ih (keep done b a next hb hstep) hrest
  exact hrun hb h

/-- What every successful step keeps, a successful fold keeps. -/
theorem foldlM_invariant {step : β → α → Except ε β} (P : β → Prop)
    (keep : ∀ b a b', P b → step b a = .ok b' → P b') {l : List α} {b b' : β}
    (hb : P b) (h : l.foldlM step b = .ok b') : P b' :=
  foldlM_prefix (fun _ => P) (fun _ => keep) hb h

/-- A fold that has failed has failed at some element, after a successful fold over those
before it. -/
theorem exists_of_foldlM_eq_error {step : β → α → Except ε β} {l : List α} {b : β} {e : ε}
    (h : l.foldlM step b = .error e) :
    ∃ done a rest next, l = done ++ a :: rest ∧ done.foldlM step b = .ok next ∧
      step next a = .error e := by
  induction l generalizing b with
  | nil => cases h
  | cons a l ih =>
    rw [List.foldlM_cons] at h
    rcases eq_error_of_bind_eq_error h with hstep | ⟨next, hstep, hrest⟩
    · exact ⟨[], a, l, b, rfl, rfl, hstep⟩
    · obtain ⟨done, c, rest, last, rfl, hdone, hfails⟩ := ih hrest
      refine ⟨a :: done, c, rest, last, rfl, ?_, hfails⟩
      rw [List.foldlM_cons, hstep]
      exact hdone

/-- An element that leaves everything as it is may stand anywhere. -/
theorem foldlM_insertIdx {step : β → α → Except ε β} {a : α} (ha : ∀ b, step b a = .ok b)
    (l : List α) (n : Nat) (b : β) : (l.insertIdx n a).foldlM step b = l.foldlM step b := by
  induction n generalizing l b with
  | zero =>
    rw [List.insertIdx_zero, List.foldlM_cons, ha]
    rfl
  | succ n ih =>
    cases l with
    | nil => rfl
    | cons c l =>
      rw [List.insertIdx_succ_cons, List.foldlM_cons, List.foldlM_cons]
      exact congrArg _ (funext fun next => ih l next)

/-- A computation whose result is seen succeeds with it. -/
theorem eq_ok_of_toOption {x : Except ε α} {a : α} (h : x.toOption = some a) : x = .ok a := by
  cases x with
  | error e => cases h
  | ok b => exact congrArg _ (Option.some.inj h)

/-- A computation whose result is seen to have a property succeeds with it. -/
theorem exists_ok_of_any {x : Except ε α} {P : α → Bool} (h : x.toOption.any P = true) :
    ∃ a, x = .ok a ∧ P a = true := by
  cases x with
  | error e => cases h
  | ok a => exact ⟨a, rfl, h⟩

/-- A run whose result is seen to be a failure ends with some failure. -/
theorem exists_error_of_toBool {σ : Type} {run : Except ε α × σ} (h : run.1.toBool = false) :
    ∃ e after, run = (.error e, after) := by
  obtain ⟨e | a, after⟩ := run
  · exact ⟨e, after, rfl⟩
  · cases h

end LambdaDeploy
