import LambdaDeploy.Proofs.Text.Cutting
import LambdaDeploy.Text.Indent
import Mathlib.Data.List.Basic
import Mathlib.Data.List.TakeWhile

/-!
# Blanks at the ends of lines

Trailing blanks are cut off when lines lose their indentation, and they are not part of the
indentation, except where a line holds nothing else.  Such a line does not count when the
indentation is measured, and nothing is left of it.

* `trim_trimEnd`, `indentWidth_trimEnd` — one line without its trailing blanks.
* `dropBytes?_append`, `exists_of_dropBytes?` — bytes that are dropped from the front.
* `dedent_map_trimEnd` — **trailing blanks do not matter when lines lose their indentation.**
-/

namespace LambdaDeploy.Text

variable {line text rest right : List Char} {ls : List (List Char)} {n : Nat}

/-! ## Texts with blanks behind them -/

theorem trim_append_of_blank (hright : ∀ d ∈ right, isBlank d = true) :
    trim (text ++ right) = trim text := by
  rw [trim, trim, trimStart, trimStart, List.dropWhile_append]
  split
  case isTrue hblank =>
    have hnone : right.dropWhile isBlank = [] := List.dropWhile_eq_nil_iff.2 hright
    rw [List.isEmpty_iff.1 hblank, hnone]
  case isFalse => exact trimEnd_append_of_blank hright

theorem trim_trimEnd (text : List Char) : trim (trimEnd text) = trim text := by
  obtain ⟨right, hright, htext⟩ := exists_trimEnd_append text
  calc
    trim (trimEnd text) = trim (trimEnd text ++ right) := (trim_append_of_blank hright).symm
    _ = trim text := by rw [← htext]

theorem isBlankLine_trimEnd (line : List Char) : isBlankLine (trimEnd line) = isBlankLine line := by
  obtain ⟨right, hright, hline⟩ := exists_trimEnd_append line
  have hall : right.all isBlank = true := List.all_eq_true.2 hright
  calc
    (trimEnd line).all isBlank = (trimEnd line ++ right).all isBlank := by
      rw [List.all_append, hall, Bool.and_true]
    _ = line.all isBlank := by rw [← hline]

theorem trimEnd_eq_nil (h : isBlankLine line = true) : trimEnd line = [] := by
  have hnone : line.reverse.dropWhile isBlank = [] :=
    List.dropWhile_eq_nil_iff.2 fun d hd => List.all_eq_true.1 h d (List.mem_reverse.1 hd)
  rw [trimEnd, hnone, List.reverse_nil]

/-- The indentation of a line ends before the blanks at its end. -/
theorem takeWhile_trimEnd (h : isBlankLine line = false) :
    (trimEnd line).takeWhile isBlank = line.takeWhile isBlank := by
  obtain ⟨right, hright, hline⟩ := exists_trimEnd_append line
  have hfilled : ((trimEnd line).takeWhile isBlank).length ≠ (trimEnd line).length := by
    intro hall
    have hsame := (List.takeWhile_sublist isBlank).eq_of_length hall
    rw [← isBlankLine_trimEnd, isBlankLine, List.all_eq_false] at h
    obtain ⟨c, hc, hcblank⟩ := h
    rw [← hsame] at hc
    exact hcblank (isBlank_of_mem_takeWhile hc)
  have hblanks : (trimEnd line ++ right).takeWhile isBlank = (trimEnd line).takeWhile isBlank := by
    rw [List.takeWhile_append, if_neg hfilled]
  rw [← hblanks, ← hline]

theorem indentWidth_trimEnd (h : isBlankLine line = false) :
    indentWidth (trimEnd line) = indentWidth line := by
  rw [indentWidth, indentWidth, takeWhile_trimEnd h]

/-! ## Dropping bytes -/

@[simp] theorem byteLength_nil : byteLength [] = 0 := rfl

@[simp] theorem byteLength_cons (c : Char) (text : List Char) :
    byteLength (c :: text) = c.utf8Size + byteLength text := rfl

theorem byteLength_append (text right : List Char) :
    byteLength (text ++ right) = byteLength text + byteLength right := by
  induction text with
  | nil => simp
  | cons c text ih => rw [List.cons_append, byteLength_cons, byteLength_cons, ih, Nat.add_assoc]

theorem indentWidth_le_byteLength (line : List Char) : indentWidth line ≤ byteLength line := by
  have hsplit := byteLength_append (line.takeWhile isBlank) (line.dropWhile isBlank)
  rw [List.takeWhile_append_dropWhile] at hsplit
  rw [indentWidth]
  omega

/-- What is dropped from the front of a text does not depend on what stands behind it. -/
theorem dropBytes?_append (hn : n ≤ byteLength text) (right : List Char) :
    dropBytes? n (text ++ right) = (dropBytes? n text).map (· ++ right) := by
  induction text generalizing n with
  | nil =>
    have hzero : n = 0 := Nat.le_zero.1 hn
    subst hzero
    cases right <;> rfl
  | cons c text ih =>
    rw [List.cons_append, dropBytes?, dropBytes?]
    split
    case isTrue => rfl
    case isFalse =>
      split
      case isTrue hfits =>
        rw [byteLength_cons] at hn
        exact ih (by omega)
      case isFalse => rfl

/-- A text is cut where its beginning takes the given number of bytes. -/
theorem exists_of_dropBytes? (h : dropBytes? n text = some rest) :
    ∃ left, text = left ++ rest ∧ byteLength left = n := by
  induction text generalizing n with
  | nil =>
    rw [dropBytes?] at h
    split at h <;> cases h
    exact ⟨[], rfl, by simp_all⟩
  | cons c text ih =>
    rw [dropBytes?] at h
    split at h
    · cases h
      exact ⟨[], rfl, by simp_all⟩
    · split at h
      · obtain ⟨left, rfl, hleft⟩ := ih h
        exact ⟨c :: left, rfl, by rw [byteLength_cons]; omega⟩
      · cases h

/-! ## Lines without their indentation -/

/-- Nothing is left of a line of blanks. -/
theorem dedentLine_of_blank (h : isBlankLine line = true) (n : Nat) : dedentLine n line = [] := by
  have hblank : ∀ d ∈ line, isBlank d = true := List.all_eq_true.1 h
  refine trimEnd_eq_nil (List.all_eq_true.2 fun d hd => hblank d ?_)
  cases hdrop : dropBytes? n line with
  | none =>
    rw [hdrop] at hd
    exact (List.dropWhile_sublist isBlank).subset hd
  | some rest =>
    rw [hdrop] at hd
    obtain ⟨left, rfl, -⟩ := exists_of_dropBytes? hdrop
    exact List.mem_append_right left hd

theorem dedentLine_trimEnd (hn : isBlankLine line = false → n ≤ indentWidth line) :
    dedentLine n (trimEnd line) = dedentLine n line := by
  cases hblank : isBlankLine line with
  | true =>
    rw [dedentLine_of_blank hblank, dedentLine_of_blank ((isBlankLine_trimEnd line).trans hblank)]
  | false =>
    have hfits : n ≤ byteLength (trimEnd line) :=
      calc
        n ≤ indentWidth (trimEnd line) := indentWidth_trimEnd hblank ▸ hn hblank
        _ ≤ byteLength (trimEnd line) := indentWidth_le_byteLength _
    obtain ⟨right, hright, hline⟩ := exists_trimEnd_append line
    have hdrop := dropBytes?_append hfits right
    rw [← hline] at hdrop
    rw [dedentLine, dedentLine, hdrop]
    cases dropBytes? n (trimEnd line) with
    | none => exact trim_trimEnd line
    | some rest => exact (trimEnd_append_of_blank hright).symm

theorem commonIndent_map_trimEnd (ls : List (List Char)) :
    commonIndent (ls.map trimEnd) = commonIndent ls := by
  have hfilled : (ls.map trimEnd).filter (fun line => !isBlankLine line) =
      (ls.filter fun line => !isBlankLine line).map trimEnd := by
    rw [List.filter_map]
    simp only [Function.comp_def, isBlankLine_trimEnd]
  have hwidths : ((ls.filter fun line => !isBlankLine line).map trimEnd).map indentWidth =
      (ls.filter fun line => !isBlankLine line).map indentWidth := by
    rw [List.map_map]
    refine List.map_congr_left fun line hline => indentWidth_trimEnd ?_
    simpa using (List.mem_filter.1 hline).2
  rw [commonIndent, commonIndent, hfilled, hwidths]

/-- The shared indentation is no wider than that of any line, blank lines apart. -/
theorem commonIndent_le (hline : line ∈ ls) (hfilled : isBlankLine line = false) :
    commonIndent ls ≤ indentWidth line := by
  have hmem : indentWidth line ∈ (ls.filter fun line => !isBlankLine line).map indentWidth :=
    List.mem_map_of_mem (List.mem_filter.2 ⟨hline, by simp [hfilled]⟩)
  rw [commonIndent]
  cases hmin : ((ls.filter fun line => !isBlankLine line).map indentWidth).min? with
  | none => exact Nat.zero_le _
  | some least => exact (List.min?_eq_some_iff.1 hmin).2 _ hmem

/-- **Trailing blanks do not matter when lines lose their indentation.** -/
theorem dedent_map_trimEnd (ls : List (List Char)) : dedent (ls.map trimEnd) = dedent ls := by
  rw [dedent, dedent, commonIndent_map_trimEnd, List.flatMap_map]
  refine List.flatMap_congr fun line hline => ?_
  rw [dedentLine_trimEnd (commonIndent_le hline)]

end LambdaDeploy.Text
