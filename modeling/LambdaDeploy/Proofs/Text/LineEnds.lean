import LambdaDeploy.Proofs.Text.Lines
import Mathlib.Data.List.Basic

/-!
# Lines that are put in, and other line ends

What a change of a text does to its lines.  A carriage return in front of a line feed may or may
not belong to the line end, so the lines are known up to the blanks at their ends.

* `lines_ended_append` — the first line of a text, and then the lines of the rest.
* `insertLine` — a text with one more line; `lines_insertLine` — **the lines that it has.**
* `withReturns` — a text with carriage returns; `lines_withReturns` — **it has the same lines.**
-/

namespace LambdaDeploy.Text

variable {line text rest : List Char} {n : Nat}

/-! ## The first line -/

/-- A text is a single line, or begins with a line and its end. -/
theorem induction_on_lines {P : List Char → Prop} (single : ∀ text, '\n' ∉ text → P text)
    (ended : ∀ line rest, '\n' ∉ line → P rest → P (line ++ '\n' :: rest)) (text : List Char) :
    P text := by
  by_cases h : '\n' ∈ text
  · obtain ⟨line, rest, htext, hline⟩ := List.eq_append_cons_of_mem h
    have hshorter : rest.length < text.length := by
      rw [htext, List.length_append, List.length_cons]
      omega
    rw [htext]
    exact ended line rest hline (induction_on_lines single ended rest)
  · exact single text h
termination_by text.length

theorem lines_single (h : '\n' ∉ text) (hne : text ≠ []) : lines text = [text] := by
  obtain ⟨c, rest, rfl⟩ := List.exists_cons_of_ne_nil hne
  rw [lines, splitWhere_line h]
  rfl

theorem lines_ended_append (h : '\n' ∉ line) (rest : List Char) :
    lines (line ++ '\n' :: rest) = (beforeSuffix? ['\r'] line).getD line :: lines rest := by
  have hfirst : lines (line ++ ['\n']) = [(beforeSuffix? ['\r'] line).getD line] := by
    rw [lines, splitWhere_append_cons (by decide), splitWhere_line h]
    rfl
  rw [List.append_cons, lines_append (by simp), hfirst, List.singleton_append]

/-- A carriage return at the end of a line is a blank. -/
theorem trimEnd_withoutReturn (line : List Char) :
    trimEnd ((beforeSuffix? ['\r'] line).getD line) = trimEnd line := by
  cases hsuffix : beforeSuffix? ['\r'] line with
  | none => rfl
  | some front =>
    rw [beforeSuffix?_eq_some_iff.1 hsuffix, trimEnd_append_of_blank (by decide)]
    rfl

/-- The first line of a text, up to blanks at its end. -/
theorem trimmedLines_ended_append (h : '\n' ∉ line) (rest : List Char) :
    (lines (line ++ '\n' :: rest)).map trimEnd = trimEnd line :: (lines rest).map trimEnd := by
  rw [lines_ended_append h, List.map_cons, trimEnd_withoutReturn]

/-! ## One more line -/

/-- The text with one more line behind its first `n` lines. -/
def insertLine (line : List Char) : Nat → List Char → List Char
  | 0, text => line ++ '\n' :: text
  | n + 1, text =>
    match cutFirst? (· == '\n') text with
    | some (first, rest) => first ++ '\n' :: insertLine line n rest
    -- the last line of the text has no end yet
    | none => text ++ '\n' :: line

theorem insertLine_ended {first : List Char} (h : '\n' ∉ first) (n : Nat) (rest : List Char) :
    insertLine line (n + 1) (first ++ '\n' :: rest) = first ++ '\n' :: insertLine line n rest := by
  have hcut : cutFirst? (· == '\n') (first ++ '\n' :: rest) = some (first, rest) :=
    cutFirst?_append_cons (fun _ hb => beq_eq_false_iff_ne.2 (ne_of_mem_of_not_mem hb h))
      (by decide)
  rw [insertLine, hcut]

theorem insertLine_single (h : '\n' ∉ text) (n : Nat) :
    insertLine line (n + 1) text = text ++ '\n' :: line := by
  have hcut : cutFirst? (· == '\n') text = none :=
    cutFirst?_eq_none fun _ hd => beq_eq_false_iff_ne.2 (ne_of_mem_of_not_mem hd h)
  rw [insertLine, hcut]

/-- **The lines of a text with one more line.** -/
theorem lines_insertLine (hline : '\n' ∉ line) (hne : line ≠ []) (hn : n ≤ (lines text).length) :
    (lines (insertLine line n text)).map trimEnd =
      ((lines text).map trimEnd).insertIdx n (trimEnd line) := by
  induction text using induction_on_lines generalizing n with
  | single text hsingle =>
    cases n with
    | zero => exact trimmedLines_ended_append hline text
    | succ n =>
      have hfilled : text ≠ [] := by
        rintro rfl
        cases hn
      have hlines := lines_single hsingle hfilled
      have hzero : n = 0 := by
        rw [hlines, List.length_singleton] at hn
        omega
      rw [hzero, insertLine_single hsingle, trimmedLines_ended_append hsingle,
        lines_single hline hne, hlines]
      rfl
  | ended first rest hfirst ih =>
    cases n with
    | zero => exact trimmedLines_ended_append hline _
    | succ n =>
      rw [lines_ended_append hfirst, List.length_cons] at hn
      rw [insertLine_ended hfirst, trimmedLines_ended_append hfirst,
        trimmedLines_ended_append hfirst, List.insertIdx_succ_cons, ih (by omega)]

/-! ## Other line ends -/

/-- The text with a carriage return in front of every line feed. -/
def withReturns (text : List Char) : List Char :=
  text.flatMap fun c => if c = '\n' then ['\r', '\n'] else [c]

theorem withReturns_single (h : '\n' ∉ text) : withReturns text = text := by
  have hkept : ∀ c ∈ text, (if c = '\n' then ['\r', '\n'] else [c]) = [c] :=
    fun c hc => if_neg (ne_of_mem_of_not_mem hc h)
  rw [withReturns, List.flatMap_congr hkept, List.flatMap_singleton']

theorem withReturns_ended (h : '\n' ∉ line) (rest : List Char) :
    withReturns (line ++ '\n' :: rest) = line ++ '\r' :: '\n' :: withReturns rest := by
  have hline := withReturns_single h
  rw [withReturns] at hline
  rw [withReturns, List.flatMap_append, hline]
  rfl

/-- **Carriage returns in front of the line feeds leave the lines as they are.** -/
theorem lines_withReturns (text : List Char) :
    (lines (withReturns text)).map trimEnd = (lines text).map trimEnd := by
  induction text using induction_on_lines with
  | single text hsingle => rw [withReturns_single hsingle]
  | ended line rest hline ih =>
    have hreturn : '\n' ∉ line ++ ['\r'] := by simp [hline]
    rw [withReturns_ended hline, List.append_cons, trimmedLines_ended_append hreturn,
      trimmedLines_ended_append hline, trimEnd_append_of_blank (by decide), ih]

end LambdaDeploy.Text
