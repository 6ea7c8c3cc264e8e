import LambdaDeploy.Proofs.Outline.Renumbering
import LambdaDeploy.Proofs.Steps
import LambdaDeploy.Proofs.Text.Dedenting
import LambdaDeploy.Proofs.Text.LineEnds

/-!
# Comments and line ends

What an outline describes does not depend on its comments, nor on the way in which its lines end.
A comment takes a line, so that the lines behind it have greater numbers; a carriage return at the
end of a line is one of the blanks there, which are always cut off.

* `number_insertIdx` — the numbers of the lines around a line that is put in.
* `Line.tidied` — a line without trailing blanks; `ofLines_tidied` — they do not matter.
* `ofLines_insertIdx` — a comment does not matter, whatever the lines around it are.
* `Program.ofOutline_with_comment` — **an outline with one more comment, or with other line
  ends.**
-/

namespace LambdaDeploy

open Text Outline

variable {scope : Scope} {document : String} {n : Nat} {texts : List (List Char)}

/-! ## Numbers of lines -/

namespace Text

/-- Some lines, numbered from 1. -/
def number (texts : List (List Char)) : List Line :=
  texts.zipIdx.map fun (line, i) => ⟨i + 1, line⟩

theorem numberedLines_eq (text : List Char) : numberedLines text = number (lines text) := rfl

theorem getElem?_number (texts : List (List Char)) (i : Nat) :
    (number texts)[i]? = texts[i]?.map fun line => ⟨i + 1, line⟩ := by
  rw [number, List.getElem?_map, List.getElem?_zipIdx, Option.map_map]
  simp only [Nat.zero_add]
  rfl

/-- Behind the first `n` lines, all lines move down by one. -/
def movedDown (n number : Nat) : Nat := if number ≤ n then number else number + 1

/-- **The numbers of the lines around a line that is put in.** -/
theorem number_insertIdx (hn : n ≤ texts.length) (line : List Char) :
    number (texts.insertIdx n line) =
      ((number texts).map (Line.renumber (movedDown n))).insertIdx n ⟨n + 1, line⟩ := by
  have hlength : ((number texts).map (Line.renumber (movedDown n))).length = texts.length := by
    simp [number]
  refine List.ext_getElem? fun i => ?_
  rw [getElem?_number, List.getElem?_insertIdx, List.getElem?_insertIdx, hlength]
  rcases Nat.lt_trichotomy i n with hi | rfl | hi
  · have hstays : movedDown n (i + 1) = i + 1 := if_pos hi
    rw [if_pos hi, if_pos hi, List.getElem?_map, getElem?_number, Option.map_map]
    simp only [Function.comp_def, Line.renumber, hstays]
  · rw [if_neg (Nat.lt_irrefl i), if_neg (Nat.lt_irrefl i), if_pos rfl, if_pos rfl,
      if_pos hn, if_pos hn]
    rfl
  · have hbefore : ¬i < n := Nat.lt_asymm hi
    have hat : i ≠ n := Nat.ne_of_gt hi
    have hmoves : movedDown n (i - 1 + 1) = i + 1 := by
      rw [movedDown, if_neg (by omega)]
      omega
    rw [if_neg hbefore, if_neg hat, if_neg hbefore, if_neg hat, List.getElem?_map,
      getElem?_number, Option.map_map]
    simp only [Function.comp_def, Line.renumber, hmoves]

end Text

/-! ## Trailing blanks -/

/-- The line without the blanks at its end. -/
def Text.Line.tidied (line : Line) : Line := { line with text := trimEnd line.text }

theorem Text.number_map_trimEnd (texts : List (List Char)) :
    number (texts.map trimEnd) = (number texts).map Line.tidied := by
  refine List.ext_getElem? fun i => ?_
  rw [getElem?_number, List.getElem?_map, List.getElem?_map, getElem?_number, Option.map_map,
    Option.map_map]
  rfl

theorem saysSame_tidied : SaysSame id Line.tidied :=
  ⟨fun line => trim_trimEnd line.text, fun _ => rfl⟩

namespace Outline

/-- Where a line stands does not depend on the blanks at its end, unless there is nothing else. -/
theorem place_tidied {line : Line} (h : line.trimmed ≠ []) :
    place document line.tidied = place document line := by
  have hfilled : isBlankLine line.text = false := by
    rw [Bool.eq_false_iff]
    intro hblank
    have hall := List.all_eq_true.1 hblank
    refine h ?_
    rw [Line.trimmed, ← List.nil_append line.text, trim_append_of_blank hall]
    rfl
  rw [place, place, Line.tidied, indentWidth_trimEnd hfilled]

theorem Reading.step_tidied (reading : Reading) (line : Line) :
    reading.step scope document line.tidied = reading.step scope document line := by
  have htrimmed : line.tidied.trimmed = line.trimmed := saysSame_tidied.trimmed line
  unfold step
  split
  case h_1 =>
    unfold stepOutside
    rw [htrimmed]
    by_cases hblank : line.trimmed = []
    · rw [hblank]
    · simp only [place_tidied hblank]
      rfl
  case h_2 =>
    unfold stepInside
    rw [htrimmed]

theorem Block.functions_tidied (block : Block) :
    (block.mapLines Line.tidied).functions scope = block.functions scope := by
  have hlines : (block.lines.map Line.tidied).foldlM (Reading.step scope block.name) {} =
      block.lines.foldlM (Reading.step scope block.name) {} := by
    rw [List.foldlM_map]
    simp only [Reading.step_tidied]
  unfold functions
  exact congrArg (· >>= Reading.finish) hlines

end Outline

namespace Program

theorem addBlock_tidied (program : Program) (block : Block) :
    program.addBlock (block.mapLines Line.tidied) = program.addBlock block := by
  have htexts : (block.mapLines Line.tidied).lines.map (·.text) =
      (block.lines.map (·.text)).map trimEnd := by
    rw [Block.mapLines, List.map_map, List.map_map]
    rfl
  unfold addBlock
  rw [block.functions_tidied, htexts, dedent_map_trimEnd]
  rfl

theorem renumber_id (program : Program) : program.renumber id = program := by
  have hfunctions : program.functions.map (FunctionDecl.renumber id) = program.functions :=
    List.map_id _
  rw [renumber, hfunctions]

theorem renumbered_id (result : Except BuildError Program) :
    renumbered id (renumber id) result = result := by
  cases result with
  | error e => cases e <;> rfl
  | ok program => exact congrArg _ program.renumber_id

/-- Trailing blanks do not matter. -/
theorem ofLines_tidied (lines : List Line) : ofLines (lines.map Line.tidied) = ofLines lines := by
  have hadd : ∀ program block, (renumber id program).addBlock (block.mapLines Line.tidied) =
      renumbered id (renumber id) (program.addBlock block) := by
    intro program block
    rw [renumber_id, addBlock_tidied, renumbered_id]
  rw [ofLines_map saysSame_tidied hadd, renumbered_id]

end Program

/-! ## Comments -/

theorem Outline.Layout.step_comment {comment : Line} (h : comment.trimmed.head? = some ';')
    (layout : Layout) : layout.step comment = .ok layout := by
  unfold step
  split
  · rw [stepOutside]
    exact if_pos (.inr h)
  · rw [stepInside, if_pos h]

namespace Program

/-- **A comment does not matter, whatever the lines around it are.** -/
theorem ofLines_insertIdx {comment : Line} (h : comment.trimmed.head? = some ';')
    (lines : List Line) (n : Nat) : ofLines (lines.insertIdx n comment) = ofLines lines := by
  unfold ofLines Layout.ofLines
  rw [foldlM_insertIdx (Layout.step_comment h)]

/-- What a text describes depends on its lines without trailing blanks. -/
theorem ofOutline_ofList (text : List Char) :
    ofOutline (String.ofList text) = ofLines (number ((lines text).map trimEnd)) := by
  rw [ofOutline_eq_ofLines, numberedLines_eq, String.toList_ofList, number_map_trimEnd,
    ofLines_tidied]

/-- **Comments and line ends say nothing.**  One more comment anywhere between the lines of an
outline, before the first or behind the last of them leaves what the outline describes as it is,
the texts of its documents included; only the lines behind the comment have moved down, and with
them the places of functions, or that of the error.  And a carriage return in front of every line
feed changes nothing at all. -/
theorem ofOutline_with_comment (text : String) :
    (∀ (comment : List Char) (n : Nat), n ≤ (lines text.toList).length → '\n' ∉ comment →
      (trim comment).head? = some ';' →
        ofOutline (String.ofList (insertLine comment n text.toList)) =
          renumbered (movedDown n) (renumber (movedDown n)) (ofOutline text)) ∧
    ofOutline (String.ofList (withReturns text.toList)) = ofOutline text := by
  have htext := ofOutline_ofList text.toList
  rw [String.ofList_toList] at htext
  constructor
  · intro comment n hn honeLine hcomment
    have hne : comment ≠ [] := by
      rintro rfl
      cases hcomment
    have hlength : n ≤ ((lines text.toList).map trimEnd).length := by
      rwa [List.length_map]
    have htrimmed : (Line.mk (n + 1) (trimEnd comment)).trimmed.head? = some ';' := by
      rwa [Line.trimmed, trim_trimEnd]
    have hzero : movedDown n 0 = 0 := if_pos (Nat.zero_le n)
    rw [ofOutline_ofList, lines_insertLine honeLine hne hn, number_insertIdx hlength,
      ofLines_insertIdx htrimmed, ofLines_renumber hzero, ← htext]
  · rw [ofOutline_ofList, lines_withReturns, ← htext]

end Program

/-- An outline with two functions. -/
def marked : String := "document orders \x7b
@Function
function place() \x7b\x7d

function cancel() \x7b
\x7d
\x7d
"

theorem Program.ofOutline_with_comment_marked :
    ∃ program, ofOutline marked = .ok program ∧
      program.functions.map (·.location.line) = [2, 5] ∧
      ofOutline (String.ofList (insertLine "  ; not \x7b yet".toList 2 marked.toList)) =
        .ok (program.renumber (movedDown 2)) ∧
      (program.renumber (movedDown 2)).functions.map (·.location.line) = [2, 6] := by
  have hread : (ofOutline marked).toOption.any
      (fun program => program.functions.map (·.location.line) = [2, 5]) = true := by
    rw [ofOutline, show marked = String.ofList _ from rfl, String.toList_ofList]
    decide
  obtain ⟨program, hprogram, hlines⟩ := exists_ok_of_any hread
  have hplaces : program.functions.map (·.location.line) = [2, 5] := by simpa using hlines
  have hinserted := (ofOutline_with_comment marked).1 "  ; not \x7b yet".toList 2
    (by
      rw [show marked = String.ofList _ from rfl, String.toList_ofList]
      decide)
    (by decide) (by decide)
  rw [hprogram] at hinserted
  refine ⟨program, hprogram, hplaces, hinserted, ?_⟩
  calc
    (program.renumber (movedDown 2)).functions.map (·.location.line) =
        (program.functions.map (·.location.line)).map (movedDown 2) := by
      simp [renumber, FunctionDecl.renumber, Location.renumber]
    _ = [2, 6] := by
      rw [hplaces]
      rfl

end LambdaDeploy
