import LambdaDeploy.Proofs.Text.Cutting
import LambdaDeploy.Text.Bracket
import LambdaDeploy.Text.Lines
import Mathlib.Data.List.Infix

/-!
# Parts of a text

What trimming leaves, what a cut gives and what a pair of parentheses encloses stand in the text
as one run of characters.  So does everything that is cut off these in turn.

* `infix_trim`, `infix_of_stripParens?` — a text without what is around it.
* `infix_of_afterPrefix?`, `infix_of_beforeSuffix?`, `infix_of_cutFirst?`, `infix_of_cutLast?` —
  the sides of a cut.
* `Cut` — pieces of a text, the first of which is at its beginning.
* `infix_of_mem_splitWhere`, `infix_of_mem_splitTop`, `infix_of_mem_lines` — **pieces between
  separators.**
-/

namespace LambdaDeploy.Text

variable {p : Char → Bool} {c : Char} {text piece before after inner : List Char}
  {pieces : List (List Char)}

/-! ## What is around a text -/

theorem infix_trimStart (text : List Char) : trimStart text <:+: text :=
  (List.dropWhile_suffix isBlank).isInfix

theorem infix_trim (text : List Char) : trim text <:+: text := by
  obtain ⟨left, right, -, -, htext⟩ := exists_trim_append text
  exact ⟨left, right, htext.symm⟩

theorem infix_of_afterPrefix? {start : List Char} (h : afterPrefix? start text = some after) :
    after <:+: text := by
  rw [afterPrefix?_eq_some_iff.1 h]
  exact (List.suffix_append start after).isInfix

theorem infix_of_beforeSuffix? {tail : List Char} (h : beforeSuffix? tail text = some before) :
    before <:+: text := by
  rw [beforeSuffix?_eq_some_iff.1 h]
  exact (List.prefix_append before tail).isInfix

theorem infix_of_stripParens? (h : stripParens? text = some inner) : inner <:+: text := by
  rw [stripParens?] at h
  split at h
  · cases h
    exact (List.dropLast_prefix _).isInfix.trans (List.drop_suffix 1 text).isInfix
  · cases h

/-! ## One separator -/

/-- Both sides of a cut. -/
theorem infix_of_cutFirst? (h : cutFirst? p text = some (before, after)) :
    before <:+: text ∧ after <:+: text := by
  obtain ⟨c, -, -, rfl⟩ := cutFirst?_eq_some_iff.1 h
  exact ⟨(List.prefix_append before _).isInfix,
    (List.suffix_cons c after).isInfix.trans (List.suffix_append before _).isInfix⟩

theorem infix_of_cutLast? (h : cutLast? p text = some (before, after)) :
    before <:+: text ∧ after <:+: text := by
  rw [cutLast?, Option.map_eq_some_iff] at h
  obtain ⟨⟨last, first⟩, hcut, heq⟩ := h
  cases heq
  obtain ⟨hlast, hfirst⟩ := infix_of_cutFirst? hcut
  exact ⟨List.reverse_infix.1 (by simpa using hfirst), List.reverse_infix.1 (by simpa using hlast)⟩

/-! ## Pieces between separators -/

/-- Pieces of a text.  The first one is at its beginning, so that one more character in front of
the text may be put in front of it. -/
structure Cut (text : List Char) (pieces : List (List Char)) : Prop where
  first : ∀ piece ∈ pieces.head?, piece <+: text
  each : ∀ piece ∈ pieces, piece <:+: text

theorem Cut.nil : Cut [] [[]] := by
  constructor <;> simp

/-- A separator in front of a text. -/
theorem Cut.separate (h : Cut text pieces) (c : Char) : Cut (c :: text) ([] :: pieces) := by
  constructor
  · intro piece hpiece
    cases hpiece
    exact List.nil_prefix
  · intro piece hpiece
    rcases List.mem_cons.1 hpiece with rfl | hpiece
    · exact List.nil_infix
    · exact (h.each piece hpiece).trans (List.suffix_cons c text).isInfix

/-- Any other character in front of a text. -/
theorem Cut.consFirst (h : Cut text pieces) (c : Char) : Cut (c :: text) (consFirst c pieces) := by
  cases pieces with
  | nil =>
    have hone : [c] <+: c :: text := List.prefix_append [c] text
    constructor
    · intro piece hpiece
      cases hpiece
      exact hone
    · intro piece hpiece
      rw [List.mem_singleton.1 hpiece]
      exact hone.isInfix
  | cons piece pieces =>
    have hfirst : c :: piece <+: c :: text :=
      (List.prefix_cons_inj c).2 (h.first piece rfl)
    constructor
    · intro other hother
      cases hother
      exact hfirst
    · intro other hother
      rcases List.mem_cons.1 hother with rfl | hother
      · exact hfirst.isInfix
      · exact (h.each other (List.mem_cons_of_mem _ hother)).trans (List.suffix_cons c text).isInfix

theorem cut_splitWhere (p : Char → Bool) (text : List Char) : Cut text (splitWhere p text) := by
  induction text with
  | nil => exact .nil
  | cons c text ih =>
    rw [splitWhere_cons]
    split
    · exact ih.separate c
    · exact ih.consFirst c

theorem cut_splitTopFrom (sep : Char) (depth : Int) (text : List Char) :
    Cut text (splitTopFrom sep depth text) := by
  induction text generalizing depth with
  | nil => exact .nil
  | cons c text ih =>
    rw [splitTopFrom]
    split
    · exact (ih depth).separate c
    · exact (ih _).consFirst c

/-- **Pieces between separators** stand in the text. -/
theorem infix_of_mem_splitWhere (h : piece ∈ splitWhere p text) : piece <:+: text :=
  (cut_splitWhere p text).each piece h

theorem infix_of_mem_splitTop {sep : Char} (h : piece ∈ splitTop sep text) : piece <:+: text :=
  (cut_splitTopFrom sep 0 text).each piece h

/-- A line stands in the text, without its end. -/
theorem infix_of_mem_lines {line : List Char} (h : line ∈ lines text) : line <:+: text := by
  have hended : ∀ piece, piece ∈ (splitWhere (· == '\n') text).dropLast →
      (beforeSuffix? ['\r'] piece).getD piece <:+: text := by
    intro piece hpiece
    have hinfix : piece <:+: text := infix_of_mem_splitWhere (List.mem_of_mem_dropLast hpiece)
    cases hreturn : beforeSuffix? ['\r'] piece with
    | none => exact hinfix
    | some front => exact (infix_of_beforeSuffix? hreturn).trans hinfix
  rw [lines] at h
  split at h
  · rename_i d rest hlast
    rcases List.mem_append.1 h with h | h
    · obtain ⟨piece, hpiece, rfl⟩ := List.mem_map.1 h
      exact hended piece hpiece
    · rw [List.mem_singleton.1 h]
      exact infix_of_mem_splitWhere (List.mem_of_getLast? hlast)
  · obtain ⟨piece, hpiece, rfl⟩ := List.mem_map.1 h
    exact hended piece hpiece

theorem infix_of_mem_numberedLines {line : Line} (h : line ∈ numberedLines text) :
    line.text <:+: text := by
  obtain ⟨⟨content, i⟩, hcontent, rfl⟩ := List.mem_map.1 h
  exact infix_of_mem_lines (List.fst_mem_of_mem_zipIdx hcontent)

end LambdaDeploy.Text
