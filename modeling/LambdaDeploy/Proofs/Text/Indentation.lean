import LambdaDeploy.Proofs.Text.Dedenting
import LambdaDeploy.Proofs.Text.Lines
import Mathlib.Data.List.Forall2

/-!
# Lines that lose their indentation

The indentation that lines share is counted in bytes, and is cut off every line.  It may be wider
than a line of blanks, and its end may fall inside a blank that takes several bytes; then all
leading blanks of the line are cut off.  In any case nothing is lost but blanks.

* `Shortened` — a line without its trailing blanks and some of its leading ones.
* `shortened_dedentLine` — every line is shortened.
* `exists_dedentLine_eq_trim` — the line with the least indentation loses all of it.
* `shortened_dedentLine_of_narrow` — blanks of one byte are cut off one by one.
* `dedented`, `lines_dedent`, `commonIndent_dedented` — the lines that are left share no indentation.
* `dedent_loses_indentation` — **all of this together.**
-/

namespace LambdaDeploy.Text

variable {line out text rest left : List Char} {ls : List (List Char)} {n : Nat}

/-! ## Blanks at both ends -/

theorem trimEnd_trimEnd (text : List Char) : trimEnd (trimEnd text) = trimEnd text :=
  trimEnd_eq_self fun _ hd => isBlank_of_getLast?_trimEnd hd

theorem trimEnd_ne_nil (h : isBlankLine text = false) : trimEnd text ≠ [] := by
  intro hnone
  rw [← isBlankLine_trimEnd, hnone] at h
  cases h

/-- A text that is not blank keeps what stands in front of it. -/
theorem trimEnd_append_of_filled (h : isBlankLine text = false) (left : List Char) :
    trimEnd (left ++ text) = left ++ trimEnd text := by
  obtain ⟨right, hright, htext⟩ := exists_trimEnd_append text
  have hlast : (left ++ trimEnd text).getLast? = (trimEnd text).getLast? := by
    rw [List.getLast?_append, Option.or_of_isSome]
    simpa using trimEnd_ne_nil h
  calc
    trimEnd (left ++ text) = trimEnd (left ++ trimEnd text ++ right) := by
      rw [List.append_assoc, ← htext]
    _ = trimEnd (left ++ trimEnd text) := trimEnd_append_of_blank hright
    _ = left ++ trimEnd text := trimEnd_eq_self fun d hd =>
      isBlank_of_getLast?_trimEnd (hlast ▸ hd)

theorem isBlankLine_append (left text : List Char) :
    isBlankLine (left ++ text) = (isBlankLine left && isBlankLine text) := List.all_append

/-- A line without its trailing blanks and without the leading blanks `left`. -/
structure Shortened (left line out : List Char) : Prop where
  blank : ∀ c ∈ left, isBlank c = true
  cut : trimEnd line = left ++ out

namespace Shortened

theorem of_append (hblank : ∀ c ∈ left, isBlank c = true)
    (hfilled : isBlankLine (left ++ rest) = false) :
    Shortened left (left ++ rest) (trimEnd rest) := by
  have hleft : isBlankLine left = true := List.all_eq_true.2 hblank
  rw [isBlankLine_append, hleft, Bool.true_and] at hfilled
  exact ⟨hblank, trimEnd_append_of_filled hfilled left⟩

theorem trim_eq (h : Shortened left line out) : trim out = trim line := by
  rw [← trim_trimEnd line, h.cut, trim, trim, trimStart_append_of_blank h.blank]

theorem subset (h : Shortened left line out) : out ⊆ line := by
  obtain ⟨right, -, hline⟩ := exists_trimEnd_append line
  rw [h.cut] at hline
  intro c hc
  rw [hline]
  simp [hc]

end Shortened

/-! ## Cutting behind some bytes -/

theorem indentWidth_cons (c : Char) (text : List Char) :
    indentWidth (c :: text) = if isBlank c then c.utf8Size + indentWidth text else 0 := by
  rw [indentWidth, List.takeWhile_cons]
  split <;> rfl

/-- What takes no more bytes than the indentation belongs to it. -/
theorem isBlank_of_byteLength_le (h : byteLength left ≤ indentWidth (left ++ rest)) :
    ∀ c ∈ left, isBlank c = true := by
  induction left with
  | nil => simp
  | cons c left ih =>
    have hsize := c.utf8Size_pos
    rw [List.cons_append, indentWidth_cons, byteLength_cons] at h
    split at h
    case isTrue hc => exact List.forall_mem_cons.2 ⟨hc, ih (by omega)⟩
    case isFalse => omega

theorem dropBytes?_byteLength (text : List Char) : dropBytes? (byteLength text) text = some [] := by
  induction text with
  | nil => rfl
  | cons c text ih =>
    have hsize := c.utf8Size_pos
    rw [byteLength_cons, dropBytes?, if_neg (by omega), if_pos (by omega), Nat.add_sub_cancel_left,
      ih]

/-- A text is cut behind the bytes of its beginning. -/
theorem dropBytes?_append_left (left rest : List Char) :
    dropBytes? (byteLength left) (left ++ rest) = some rest := by
  rw [dropBytes?_append (Nat.le_refl _), dropBytes?_byteLength]
  rfl

theorem dropBytes?_zero (text : List Char) : dropBytes? 0 text = some text := by
  cases text <;> rfl

/-! ## Single lines -/

theorem takeWhile_append_trimStart (line : List Char) :
    line.takeWhile isBlank ++ trimStart line = line := List.takeWhile_append_dropWhile

/-- A line that loses no more than its indentation is shortened. -/
theorem shortened_dedentLine (hn : isBlankLine line = false → n ≤ indentWidth line) :
    ∃ left, Shortened left line (dedentLine n line) := by
  cases hblank : isBlankLine line with
  | true =>
    rw [dedentLine_of_blank hblank]
    exact ⟨[], by simp, trimEnd_eq_nil hblank⟩
  | false =>
    rw [dedentLine]
    cases hdrop : dropBytes? n line with
    | none =>
      have hline := takeWhile_append_trimStart line
      refine ⟨line.takeWhile isBlank, ?_⟩
      have hshort := Shortened.of_append (fun c hc => isBlank_of_mem_takeWhile hc)
        (hline.symm ▸ hblank)
      rwa [hline] at hshort
    | some rest =>
      obtain ⟨left, rfl, rfl⟩ := exists_of_dropBytes? hdrop
      exact ⟨left, .of_append (isBlank_of_byteLength_le (hn hblank)) hblank⟩

/-- A line that loses all of its indentation is trimmed. -/
theorem dedentLine_indentWidth (line : List Char) :
    dedentLine (indentWidth line) line = trim line := by
  have hdrop := dropBytes?_append_left (line.takeWhile isBlank) (trimStart line)
  rw [takeWhile_append_trimStart] at hdrop
  rw [dedentLine, indentWidth, hdrop]
  rfl

theorem dedentLine_zero (line : List Char) : dedentLine 0 line = trimEnd line := by
  rw [dedentLine, dropBytes?_zero]
  rfl

theorem trimEnd_dedentLine (n : Nat) (line : List Char) :
    trimEnd (dedentLine n line) = dedentLine n line := trimEnd_trimEnd _

theorem byteLength_of_narrow (h : ∀ c ∈ text, c.utf8Size = 1) : byteLength text = text.length := by
  induction text with
  | nil => rfl
  | cons c text ih =>
    rw [List.forall_mem_cons] at h
    rw [byteLength_cons, h.1, ih h.2, List.length_cons, Nat.add_comm]

/-- Where the leading blanks take one byte each, as many of them are cut off as bytes are. -/
theorem shortened_dedentLine_of_narrow (hfilled : isBlankLine line = false)
    (hnarrow : ∀ c ∈ line.takeWhile isBlank, c.utf8Size = 1) (hn : n ≤ indentWidth line) :
    ∃ left, left.length = n ∧ Shortened left line (dedentLine n line) := by
  have hwidth : indentWidth line = (line.takeWhile isBlank).length := byteLength_of_narrow hnarrow
  have hlength : ((line.takeWhile isBlank).take n).length = n := by
    rw [List.length_take]
    omega
  have hbytes : byteLength ((line.takeWhile isBlank).take n) = n := by
    rw [byteLength_of_narrow fun c hc => hnarrow c (List.mem_of_mem_take hc), hlength]
  have hline : (line.takeWhile isBlank).take n ++
      ((line.takeWhile isBlank).drop n ++ trimStart line) = line := by
    rw [← List.append_assoc, List.take_append_drop, takeWhile_append_trimStart]
  have hdrop := dropBytes?_append_left ((line.takeWhile isBlank).take n)
    ((line.takeWhile isBlank).drop n ++ trimStart line)
  rw [hbytes, hline] at hdrop
  have hshort := Shortened.of_append
    (fun c hc => isBlank_of_mem_takeWhile (List.mem_of_mem_take hc)) (hline.symm ▸ hfilled)
  rw [hline] at hshort
  refine ⟨_, hlength, ?_⟩
  rw [dedentLine, hdrop]
  exact hshort

/-- The leading blanks of a line are those that are cut off and those that stay. -/
theorem Shortened.takeWhile_eq (h : Shortened left line out) (hfilled : isBlankLine line = false) :
    line.takeWhile isBlank = left ++ out.takeWhile isBlank := by
  rw [← takeWhile_trimEnd hfilled, h.cut, List.takeWhile_append_of_pos h.blank]

/-! ## All lines -/

/-- The line with the least indentation loses all of it. -/
theorem exists_dedentLine_eq_trim (h : ∃ line ∈ ls, isBlankLine line = false) :
    ∃ line ∈ ls, isBlankLine line = false ∧ dedentLine (commonIndent ls) line = trim line := by
  obtain ⟨first, hfirst, hfilled⟩ := h
  have hwidths : ((ls.filter fun line => !isBlankLine line).map indentWidth) ≠ [] := by
    refine List.ne_nil_of_mem (List.mem_map_of_mem (List.mem_filter.2 ⟨hfirst, ?_⟩))
    rw [hfilled]
    rfl
  obtain ⟨least, hleast⟩ := Option.isSome_iff_exists.1 (List.isSome_min?_of_ne_nil hwidths)
  obtain ⟨line, hline, hwidth⟩ := List.mem_map.1 (List.min?_mem hleast)
  have hcommon : commonIndent ls = indentWidth line := by
    rw [commonIndent, hleast, hwidth]
    rfl
  rw [List.mem_filter, Bool.not_eq_true'] at hline
  refine ⟨line, hline.1, hline.2, ?_⟩
  rw [hcommon, dedentLine_indentWidth]

/-- The lines without the indentation that they share, each for itself. -/
def dedented (ls : List (List Char)) : List (List Char) := ls.map (dedentLine (commonIndent ls))

theorem dedent_eq_ended (ls : List (List Char)) : dedent ls = ended (dedented ls) := by
  rw [dedent, dedented, ended, List.flatMap_map]

theorem exists_shortened (hline : line ∈ ls) :
    ∃ left, Shortened left line (dedentLine (commonIndent ls) line) :=
  shortened_dedentLine (commonIndent_le hline)

theorem lines_dedent (hls : ∀ line ∈ ls, '\n' ∉ line) : lines (dedent ls) = dedented ls := by
  have hkept : ∀ out ∈ dedented ls, IsLine out := by
    intro out hout
    obtain ⟨line, hline, rfl⟩ := List.mem_map.1 hout
    obtain ⟨left, hshort⟩ := exists_shortened hline
    refine ⟨fun hend => hls line hline (hshort.subset hend), fun hlast => ?_⟩
    -- a carriage return would be a trailing blank
    exact absurd (isBlank_of_getLast?_trimEnd hlast) (by decide)
  rw [dedent_eq_ended, lines_ended hkept]

/-- A line that is left begins without a blank, if not all lines are blank. -/
theorem exists_flush_dedented (h : ∃ line ∈ ls, isBlankLine line = false) :
    ∃ out ∈ dedented ls, ∃ c rest, out = c :: rest ∧ isBlank c = false := by
  obtain ⟨line, hline, hfilled, htrim⟩ := exists_dedentLine_eq_trim h
  refine ⟨trim line, htrim ▸ List.mem_map_of_mem hline, ?_⟩
  have hne : trim line ≠ [] := by
    refine trimEnd_ne_nil ?_
    rw [← takeWhile_append_trimStart line, isBlankLine_append] at hfilled
    have hblank : isBlankLine (line.takeWhile isBlank) = true := List.all_takeWhile
    rwa [hblank, Bool.true_and] at hfilled
  exact (Tight.of_trim (trim_trim line) hne).opens

theorem commonIndent_of_blank (h : ∀ line ∈ ls, isBlankLine line = true) : commonIndent ls = 0 := by
  have hnone : ls.filter (fun line => !isBlankLine line) = [] := by
    simpa using h
  rw [commonIndent, hnone]
  rfl

/-- The lines that are left share no indentation. -/
theorem commonIndent_dedented (ls : List (List Char)) : commonIndent (dedented ls) = 0 := by
  by_cases h : ∃ line ∈ ls, isBlankLine line = false
  · obtain ⟨out, hout, c, rest, rfl, hc⟩ := exists_flush_dedented h
    have hfilled : isBlankLine (c :: rest) = false := by simp [isBlankLine, hc]
    have hle := commonIndent_le hout hfilled
    rw [indentWidth_cons, hc] at hle
    exact Nat.le_zero.1 hle
  · refine commonIndent_of_blank fun out hout => ?_
    obtain ⟨line, hline, rfl⟩ := List.mem_map.1 hout
    have hblank : isBlankLine line = true := by
      by_contra hfilled
      exact h ⟨line, hline, by simpa using hfilled⟩
    rw [dedentLine_of_blank hblank]
    rfl

theorem dedented_dedented (ls : List (List Char)) : dedented (dedented ls) = dedented ls := by
  have hkept : ∀ out ∈ dedented ls, dedentLine 0 out = out := by
    intro out hout
    obtain ⟨line, -, rfl⟩ := List.mem_map.1 hout
    rw [dedentLine_zero, trimEnd_dedentLine]
  calc
    dedented (dedented ls) = (dedented ls).map (dedentLine 0) := by
      rw [dedented, commonIndent_dedented]
    _ = (dedented ls).map id := List.map_congr_left hkept
    _ = dedented ls := List.map_id _

/-- The lines before and after, one by one. -/
theorem forall₂_dedented {R : List Char → List Char → Prop}
    (h : ∀ line ∈ ls, R line (dedentLine (commonIndent ls) line)) :
    List.Forall₂ R ls (dedented ls) :=
  List.forall₂_map_right_iff.2 (List.forall₂_same.2 h)

/-- **Lines lose nothing but indentation**, whatever blanks they hold.

As many lines are left, in the same order, each ended by a line feed.  A line loses its trailing
blanks and some leading ones, so that it is the same up to blanks.  If not all lines are blank, one
of those that are left begins without a blank.  If no leading blank takes more than one byte, all
lines but blank ones lose the same number of them, and keep the others.  Lines that have lost their
indentation have none to lose. -/
theorem dedent_loses_indentation (hls : ∀ line ∈ ls, '\n' ∉ line) :
    dedent ls = ended (lines (dedent ls)) ∧
    List.Forall₂ (fun line out => trim out = trim line ∧ ∃ left, Shortened left line out)
      ls (lines (dedent ls)) ∧
    ((∃ line ∈ ls, isBlankLine line = false) →
      ∃ out ∈ lines (dedent ls), ∃ c rest, out = c :: rest ∧ isBlank c = false) ∧
    ((∀ line ∈ ls, isBlankLine line = false → ∀ c ∈ line.takeWhile isBlank, c.utf8Size = 1) →
      ∃ n, List.Forall₂ (fun line out => isBlankLine line = false →
        (∃ left, left.length = n ∧ Shortened left line out) ∧
          (line.takeWhile isBlank).length = n + (out.takeWhile isBlank).length)
        ls (lines (dedent ls))) ∧
    dedent (lines (dedent ls)) = dedent ls := by
  rw [lines_dedent hls]
  refine ⟨dedent_eq_ended ls, forall₂_dedented fun line hline => ?_, exists_flush_dedented,
    fun hnarrow => ⟨commonIndent ls, forall₂_dedented fun line hline hfilled => ?_⟩, ?_⟩
  · obtain ⟨left, hshort⟩ := exists_shortened hline
    exact ⟨hshort.trim_eq, left, hshort⟩
  · obtain ⟨left, hlength, hshort⟩ := shortened_dedentLine_of_narrow hfilled
      (hnarrow line hline hfilled) (commonIndent_le hline hfilled)
    refine ⟨⟨left, hlength, hshort⟩, ?_⟩
    rw [hshort.takeWhile_eq hfilled, List.length_append, hlength]
  · rw [dedent_eq_ended, dedented_dedented, dedent_eq_ended]

/-- The shared indentation of two bytes ends inside the wide blank of the first line and behind the
end of the third one.  Then three lines with the blanks of a block. -/
theorem dedent_loses_indentation_sample :
    let wide := ["\u3000first".toList, "   second ".toList, "\t".toList, "  third".toList]
    let block := ["    if (ready) \x7b".toList, "".toList, "\t     save();\r".toList]
    ((∀ line ∈ wide, '\n' ∉ line) ∧ (∃ line ∈ wide, isBlankLine line = false) ∧
      dedent wide = "first\n second\n\nthird\n".toList ∧
      (∃ out ∈ lines (dedent wide), ∃ c rest, out = c :: rest ∧ isBlank c = false) ∧
      dedent (lines (dedent wide)) = dedent wide) ∧
    (∀ line ∈ block, '\n' ∉ line) ∧
      (∀ line ∈ block, isBlankLine line = false →
        ∀ c ∈ line.takeWhile isBlank, c.utf8Size = 1) ∧
      ∃ n, List.Forall₂ (fun line out => isBlankLine line = false →
        (∃ left, left.length = n ∧ Shortened left line out) ∧
          (line.takeWhile isBlank).length = n + (out.takeWhile isBlank).length)
        block (lines (dedent block)) := by
  intro wide block
  have hwide : ∀ line ∈ wide, '\n' ∉ line := by decide
  have hblock : ∀ line ∈ block, '\n' ∉ line := by decide
  have hfilled : ∃ line ∈ wide, isBlankLine line = false := by decide
  have hnarrow : ∀ line ∈ block, isBlankLine line = false →
      ∀ c ∈ line.takeWhile isBlank, c.utf8Size = 1 := by decide
  obtain ⟨-, -, hflush, -, hagain⟩ := dedent_loses_indentation hwide
  obtain ⟨-, -, -, hsame, -⟩ := dedent_loses_indentation hblock
  exact ⟨⟨hwide, hfilled, by decide, hflush hfilled, hagain⟩, hblock, hnarrow, hsame hnarrow⟩

end LambdaDeploy.Text
