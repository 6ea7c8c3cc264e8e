import LambdaDeploy.Outline.Reader
import LambdaDeploy.Proofs.Outline.Extent
import LambdaDeploy.Proofs.Outline.Passage
import LambdaDeploy.Proofs.Program.Holding
import LambdaDeploy.Proofs.Text.Lines

/-!
# The lines that errors point at

An outline is refused for one of its lines, and the error has the number of that line.  Most errors
are about the line that is read.  Those about something that is not closed, or not attached, are
found at the end, and point back: at the header of the document or function, or at the first of
the annotations that wait.

* `PointsAt` — the error is about one of these lines.
* `Layout.pointsAt_of_ofLines`, `Block.pointsAt_of_functions` — the two passes over the lines.
* `Reading.isSome_first_iff` — a first place is remembered exactly while annotations wait.
* `Program.ofOutline_error_line` — **every error points at a line of the text.**
-/

namespace LambdaDeploy

open Text Outline

variable {lines others : List Line} {e : BuildError}

namespace Outline

/-- The error is about one of the lines, which is neither blank nor a comment. -/
def PointsAt (lines : List Line) (e : BuildError) : Prop :=
  ∃ line ∈ lines, ¬Idle line ∧ ∃ fault, e = .outline line.number fault

theorem PointsAt.mono (h : PointsAt lines e) (hsubset : lines ⊆ others) : PointsAt others e := by
  obtain ⟨line, hline, hrest⟩ := h
  exact ⟨line, hsubset hline, hrest⟩

/-! ## Declarations and documents -/

theorem Layout.not_idle_of_step_error {layout : Layout} {line : Line}
    (h : layout.step line = .error e) : ¬Idle line ∧ ∃ fault, e = .outline line.number fault := by
  rw [step] at h
  split at h
  · rw [stepOutside] at h
    split at h
    · cases h
    · rename_i hfilled
      refine ⟨hfilled, ?_⟩
      split at h
      · split at h
        · cases h
        · cases h
          exact ⟨_, rfl⟩
      · split at h
        · cases h
        · cases h
          exact ⟨_, rfl⟩
  · cases h

/-- The declarations and documents of an outline are refused for one of its lines; a document
that is not closed, for its header. -/
theorem Layout.pointsAt_of_ofLines (h : ofLines lines = .error e) : PointsAt lines e := by
  rcases eq_error_of_bind_eq_error h with hstep | ⟨layout, hread, hfinish⟩
  · obtain ⟨done, line, rest, next, rfl, -, hstep⟩ := exists_of_foldlM_eq_error hstep
    exact ⟨line, by simp, not_idle_of_step_error hstep⟩
  · cases covers_of_foldlM hread with
    | outside => cases hfinish
    | @inside items scope blocks header name inside hitems hheader hopen =>
      cases hfinish
      exact ⟨header, by simp, hheader.not_idle, _, rfl⟩

/-! ## Functions -/

section Functions

variable {scope : Scope} {document : String} {block : Block} {reading : Reading}

/-- While a document is read, a first place is remembered exactly while annotations wait for a
header. -/
theorem Reading.isSome_first_iff (h : lines.foldlM (step scope document) {} = .ok reading) :
    reading.first.isSome = true ↔ reading.annotations ≠ [] := by
  cases covers_of_foldlM h with
  | waiting hpassages hmarks =>
    dsimp only
    rw [firstPlace?, Option.isSome_map, List.isSome_head?, ← List.length_pos_iff, hmarks.length_eq,
      List.length_pos_iff]
  | within => simp

theorem Reading.filled_of_step_error {line : Line}
    (h : reading.step scope document line = .error e) :
    line.trimmed ≠ [] ∧ ∃ fault, e = .outline line.number fault := by
  rw [step] at h
  split at h
  · rw [stepOutside] at h
    split at h
    case h_1 => cases h
    case h_2 text htext =>
      refine ⟨by simp [htext], ?_⟩
      split at h
      · cases h
        exact ⟨_, rfl⟩
      · cases h
    case h_3 hfilled hplain =>
      refine ⟨hfilled, ?_⟩
      split at h
      · cases h
        exact ⟨_, rfl⟩
      · split at h <;> cases h
  · cases h

/-- At the end a function is refused for its header, and annotations for the first of them. -/
theorem Reading.filled_of_finish_error (hcovers : Covers scope document lines reading)
    (h : reading.finish = .error e) :
    ∃ line ∈ lines, line.trimmed ≠ [] ∧ ∃ fault, e = .outline line.number fault := by
  cases hcovers with
  | @waiting passages functions marks annotations hpassages hmarks =>
    rw [finish] at h
    dsimp only at h
    split at h
    · cases h
    · rename_i hwaiting
      cases hfilled : filled marks with
      | nil =>
        rw [hfilled, List.forall₂_nil_left_iff] at hmarks
        exact absurd hmarks hwaiting
      | cons line rest =>
        have hmem : line ∈ filled marks := hfilled ▸ List.mem_cons_self
        obtain ⟨hline, hne⟩ := List.mem_filter.1 hmem
        rw [firstPlace?, hfilled] at h
        cases h
        exact ⟨line, List.mem_append_right _ hline, by simpa using hne, _, rfl⟩
  | @within passages functions p f hpassages hbegins hopen hinside =>
    cases h
    exact ⟨p.header, by simp [Passage.lines], (start_of_readHeader hbegins.header).1, _, rfl⟩

/-- The functions of a document are refused for one of its lines. -/
theorem Block.pointsAt_of_functions (hkept : ∀ line ∈ block.lines, line.trimmed.head? ≠ some ';')
    (h : block.functions scope = .error e) : PointsAt block.lines e := by
  have hpoints : ∃ line ∈ block.lines, line.trimmed ≠ [] ∧
      ∃ fault, e = .outline line.number fault := by
    rcases eq_error_of_bind_eq_error h with hstep | ⟨reading, hread, hfinish⟩
    · obtain ⟨done, line, rest, next, hlines, -, hstep⟩ := exists_of_foldlM_eq_error hstep
      exact ⟨line, by simp [hlines], Reading.filled_of_step_error hstep⟩
    · exact Reading.filled_of_finish_error (Reading.covers_of_foldlM hread) hfinish
  obtain ⟨line, hline, hfilled, hfault⟩ := hpoints
  exact ⟨line, hline, fun hidle => hidle.elim hfilled (hkept line hline), hfault⟩

end Functions

/-- The lines of a document are lines of the outline, and no comments. -/
theorem Composed.subset_of_mem {scope result : Scope} {items : List Item} {blocks : List Block}
    {block : Block} (h : Composed scope items result blocks) (hblock : block ∈ blocks) :
    block.lines ⊆ items.flatMap Item.lines ∧
      ∀ line ∈ block.lines, line.trimmed.head? ≠ some ';' := by
  obtain ⟨e, he, hextent⟩ := exists_of_mem_forall₂ h.documents hblock
  have hlines : block.lines = kept e.inside := hextent.inside
  rw [hlines]
  refine ⟨(kept_sublist_of_mem he).subset, fun line hline => ?_⟩
  simpa using (List.mem_filter.1 hline).2

end Outline

/-! ## Whole outlines -/

namespace Program

/-- A document can be added as soon as its functions can be read. -/
theorem functions_eq_error_of_addBlock {program : Program} {block : Block}
    (h : program.addBlock block = .error e) : block.functions program.toScope = .error e := by
  cases hread : block.functions program.toScope with
  | error cause =>
    rw [addBlock, hread] at h
    cases h
    rfl
  | ok functions =>
    rw [addBlock_eq hread] at h
    cases h

theorem pointsAt_of_ofOutline {text : String} (h : ofOutline text = .error e) :
    PointsAt (numberedLines text.toList) e := by
  rcases eq_error_of_bind_eq_error h with hlayout | ⟨layout, hlayout, hblocks⟩
  · exact Layout.pointsAt_of_ofLines hlayout
  · obtain ⟨items, hlines, -, hitems⟩ := ofLines_eq_ok_iff.1 hlayout
    obtain ⟨done, block, rest, program, hall, -, hadd⟩ := exists_of_foldlM_eq_error hblocks
    have hblock : block ∈ layout.blocks := by simp [hall]
    obtain ⟨hsubset, hkept⟩ := hitems.subset_of_mem hblock
    rw [hlines]
    exact (Block.pointsAt_of_functions hkept (functions_eq_error_of_addBlock hadd)).mono hsubset

end Program

theorem number_of_mem_numberedLines {text : List Char} {line : Line}
    (h : line ∈ numberedLines text) : 1 ≤ line.number ∧ line.number ≤ (Text.lines text).length := by
  obtain ⟨i, hnumber, hline⟩ := exists_number_of_mem_numberedLines h
  obtain ⟨hlt, -⟩ := List.getElem?_eq_some_iff.1 hline
  omega

/-- **Every error points at a line of the text.**  An outline that cannot be read is refused for a
line that is neither blank nor a comment: the error has the number of this line, and no other kind
of error occurs.  So the number is not 0, which would stand for annotations whose first place is
not known: wherever a document is read to, a first place is remembered exactly while annotations
wait. -/
theorem Program.ofOutline_error_line (text : String) :
    (∀ e, ofOutline text = .error e → ∃ number fault, e = .outline number fault ∧
      1 ≤ number ∧ number ≤ (Text.lines text.toList).length ∧
      ∃ line ∈ numberedLines text.toList, line.number = number ∧ ¬Idle line) ∧
    ∀ (scope : Scope) (document : String) (lines : List Line) (reading : Reading),
      lines.foldlM (Reading.step scope document) {} = .ok reading →
        (reading.first.isSome = true ↔ reading.annotations ≠ []) := by
  refine ⟨fun e h => ?_, fun scope document lines reading h => Reading.isSome_first_iff h⟩
  obtain ⟨line, hline, hidle, fault, rfl⟩ := pointsAt_of_ofOutline h
  obtain ⟨hpos, hle⟩ := number_of_mem_numberedLines hline
  exact ⟨line.number, fault, rfl, hpos, hle, line, hline, rfl, hidle⟩

/-- An outline whose annotations have no function behind them. -/
def unattached : String := "document orders \x7b
; to be marked
@Function

@Function
\x7d
"

theorem Program.ofOutline_error_line_unattached :
    ∃ number fault, ofOutline unattached = .error (.outline number fault) ∧
      1 ≤ number ∧ number ≤ (Text.lines unattached.toList).length := by
  have hread : ofOutline unattached = .error (.outline 3 .annotationsWithoutFunction) := by
    rw [ofOutline, show unattached = String.ofList _ from rfl, String.toList_ofList]
    decide
  obtain ⟨number, fault, heq, hpos, hle, -⟩ := (ofOutline_error_line unattached).1 _ hread
  exact ⟨number, fault, hread.trans (congrArg _ heq), hpos, hle⟩

end LambdaDeploy
