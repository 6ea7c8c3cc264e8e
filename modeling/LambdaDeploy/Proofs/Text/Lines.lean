import LambdaDeploy.Proofs.Text.Cutting
import LambdaDeploy.Text.Lines

/-!
# Lines that are written one below the other

A text that is put together from lines has these lines.

* `ended` — the text of some lines.
* `IsLine` — a text that is a line: it holds no line end.
* `lines_append` — behind a line feed a new line begins.
* `map_text_numberedLines` — the lines of a text are those that it was put together from.
* `exists_number_of_mem_numberedLines`, `numbered_numberedLines` — the numbers of lines.
-/

namespace LambdaDeploy.Text

variable {line : List Char} {texts others : List (List Char)}

/-! ## Writing lines -/

/-- Some lines as one text, each ended by a line feed. -/
def ended (texts : List (List Char)) : List Char := texts.flatMap fun line => line ++ ['\n']

@[simp] theorem ended_nil : ended [] = [] := rfl

@[simp] theorem ended_cons (line : List Char) (texts : List (List Char)) :
    ended (line :: texts) = line ++ '\n' :: ended texts := by
  simp [ended]

@[simp] theorem ended_append (texts others : List (List Char)) :
    ended (texts ++ others) = ended texts ++ ended others := List.flatMap_append

theorem ended_replicate (n : Nat) : ended (List.replicate n []) = List.replicate n '\n' := by
  induction n with
  | zero => rfl
  | succ n ih => rw [List.replicate_succ, ended_cons, ih, List.nil_append, List.replicate_succ]

/-! ## Reading them again -/

/-- A text without line feeds that does not end in a carriage return, which would belong to the
line's end. -/
structure IsLine (line : List Char) : Prop where
  oneLine : '\n' ∉ line
  noReturn : line.getLast? ≠ some '\r'

theorem IsLine.nil : IsLine [] := ⟨by simp, by simp⟩

/-- A tight text on one line, with blanks in front of it. -/
theorem IsLine.of_tight {left : List Char} (hleft : '\n' ∉ left) (h : Tight line)
    (honeLine : '\n' ∉ line) : IsLine (left ++ line) := by
  refine ⟨by simp [hleft, honeLine], fun hlast => ?_⟩
  obtain ⟨front, c, rfl, hc⟩ := h.closes
  rw [← List.append_assoc, List.getLast?_concat] at hlast
  cases hlast
  exact absurd hc (by decide)

theorem splitWhere_line (h : '\n' ∉ line) : splitWhere (· == '\n') line = [line] :=
  splitWhere_of_forall fun _ hd => beq_eq_false_iff_ne.2 (ne_of_mem_of_not_mem hd h)

theorem splitWhere_ended (h : ∀ line ∈ texts, IsLine line) :
    splitWhere (· == '\n') (ended texts) = texts ++ [[]] := by
  induction texts with
  | nil => rfl
  | cons line texts ih =>
    rw [List.forall_mem_cons] at h
    rw [ended_cons, splitWhere_append_cons (by decide), splitWhere_line h.1.oneLine, ih h.2]
    rfl

/-- A text has the lines that it was put together from. -/
theorem lines_ended (h : ∀ line ∈ texts, IsLine line) : lines (ended texts) = texts := by
  have hkept : ∀ line ∈ texts, (beforeSuffix? ['\r'] line).getD line = line := by
    intro line hline
    cases hsuffix : beforeSuffix? ['\r'] line with
    | none => rfl
    | some front =>
      refine absurd ?_ (h line hline).noReturn
      rw [beforeSuffix?_eq_some_iff.1 hsuffix, List.getLast?_concat]
  rw [lines, splitWhere_ended h]
  simp [List.map_congr_left hkept]

/-- Behind a line feed a new line begins. -/
theorem lines_append {front : List Char} (h : front.getLast? = some '\n') (rest : List Char) :
    lines (front ++ rest) = lines front ++ lines rest := by
  obtain ⟨before, rfl⟩ := List.getLast?_eq_some_iff.1 h
  have hempty : lines (before ++ ['\n']) =
      (splitWhere (· == '\n') before).map fun line => (beforeSuffix? ['\r'] line).getD line := by
    rw [lines, splitWhere_append_cons (by decide)]
    simp
  have hlast : (splitWhere (· == '\n') before ++ splitWhere (· == '\n') rest).getLast? =
      (splitWhere (· == '\n') rest).getLast? := by
    rw [List.getLast?_append, Option.or_of_isSome]
    simpa using splitWhere_ne_nil
  rw [hempty, List.append_assoc, List.singleton_append, lines, lines,
    splitWhere_append_cons (by decide), List.dropLast_append_of_ne_nil splitWhere_ne_nil,
    List.map_append, hlast]
  split <;> simp

theorem exists_numberedLines_append {front : List Char} (h : front.getLast? = some '\n')
    (rest : List Char) :
    ∃ more, numberedLines (front ++ rest) = numberedLines front ++ more ∧
      more.map (·.text) = lines rest := by
  refine ⟨((lines rest).zipIdx (lines front).length).map fun entry => ⟨entry.2 + 1, entry.1⟩,
    ?_, ?_⟩
  · rw [numberedLines, lines_append h, List.zipIdx_append, List.map_append, Nat.zero_add]
    rfl
  · rw [List.map_map]
    exact (lines rest).zipIdx_map_fst _

/-- **The lines of a text are those that it was put together from.** -/
theorem map_text_numberedLines (h : ∀ line ∈ texts, IsLine line) :
    (numberedLines (ended texts)).map (·.text) = texts := by
  rw [numberedLines, lines_ended h, List.map_map]
  exact texts.zipIdx_map_fst 0

/-! ## Numbers -/

/-- A line has its number in the text, counted from 1. -/
theorem exists_number_of_mem_numberedLines {text : List Char} {line : Line}
    (h : line ∈ numberedLines text) :
    ∃ i, line.number = i + 1 ∧ (lines text)[i]? = some line.text := by
  obtain ⟨⟨content, i⟩, hmem, rfl⟩ := List.mem_map.1 h
  exact ⟨i, rfl, by simpa [List.mk_mem_zipIdx_iff_getElem?] using hmem⟩

/-- The lines stand in the order of their numbers. -/
def Numbered (lines : List Line) : Prop := lines.Pairwise fun a b => a.number < b.number

theorem numbered_numberedLines (text : List Char) : Numbered (numberedLines text) := by
  have hnumbers : (numberedLines text).map (·.number) =
      (List.range' 0 (lines text).length).map (· + 1) := by
    rw [numberedLines, List.map_map, ← List.zipIdx_map_snd 0 (lines text), List.map_map]
    rfl
  have hincreasing : ((numberedLines text).map (·.number)).Pairwise (· < ·) := by
    rw [hnumbers, List.pairwise_map]
    exact (List.pairwise_lt_range' ..).imp Nat.succ_lt_succ
  exact List.pairwise_map.1 hincreasing

end LambdaDeploy.Text
