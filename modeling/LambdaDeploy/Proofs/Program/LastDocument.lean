import LambdaDeploy.Proofs.Program.Transcript
import LambdaDeploy.Proofs.Text.Lines

/-!
# A line at the end of an outline

The last document of an outline ends with its last line.  A header that is written in front of
that line stands at the end of the document, behind all functions that are already there.

* `ofLines_insert` — the line becomes the last one of the last block.
* `functions_concat` — there it declares one more function if it is a header with an empty body.
* `Program.Gains` — the program has one more function, at the end of its last document.
* `Program.exists_place_of_insert` — **the outline can be read exactly if the header can.**
-/

namespace LambdaDeploy

open Text Outline

namespace Outline

variable {scope : Scope}

/-! ## Blocks -/

/-- A line with even braces in front of the last closing line belongs to the last document. -/
theorem ofLines_insert {front : List Line} {line closing last : Line} {layout : Layout}
    (hclosing : closing.trimmed = ['}']) (hlast : last.trimmed = ['}'])
    (hcomment : line.trimmed.head? ≠ some ';') (heven : braceDelta line.trimmed = 0)
    (h : Layout.ofLines (front ++ [closing]) = .ok layout) :
    ∃ blocks block, layout.blocks = blocks ++ [block] ∧
      Layout.ofLines (front ++ [line, last]) =
        .ok { layout with
          blocks := blocks ++ [{ block with lines := block.lines ++ [line] }] } := by
  have hdelta : braceDelta ['}'] = -1 := by decide
  obtain ⟨read, hread, hfinish⟩ := exists_of_bind_eq_ok h
  rw [List.foldlM_append] at hread
  obtain ⟨mid, hmid, hread⟩ := exists_of_bind_eq_ok hread
  rw [List.foldlM_cons] at hread
  obtain ⟨done, hstep, hread⟩ := exists_of_bind_eq_ok hread
  cases hread
  have hcovers : Layout.Covers front mid :=
    foldlM_prefix Layout.Covers (fun _ _ _ _ hdone hstep => hdone.step hstep) (.outside (.nil _))
      hmid
  cases hcovers with
  | @outside items scope blocks hitems =>
    -- a brace alone is no declaration
    have hdeclare : declare scope ['}'] = .error .unterminatedDeclaration := rfl
    simp [Layout.step, Layout.stepOutside, hclosing, hdeclare] at hstep
    cases hstep
  | @inside items scope blocks header name inside hitems hheader hopen =>
    have hdepth := hopen.pos (by decide)
    simp only [Layout.step, Layout.stepInside, hclosing, hdelta] at hstep
    rw [if_neg (by simp)] at hstep
    split at hstep
    case isFalse hstill =>
      cases hstep
      cases hfinish
    case isTrue hclosed =>
      cases hstep
      cases hfinish
      refine ⟨blocks, ⟨name, kept inside⟩, rfl, ?_⟩
      have hnext : ¬ (1 + totalDelta ((kept inside).map (·.trimmed)) + 0 ≤ 0) := by omega
      have hend : 1 + totalDelta ((kept inside).map (·.trimmed)) + 0 + -1 ≤ 0 := by omega
      rw [Layout.ofLines, List.foldlM_append, hmid]
      simp only [bind, Except.bind, List.foldlM_cons, List.foldlM_nil, Layout.step,
        Layout.stepInside, if_neg hcomment, heven, if_neg hnext, hlast, hdelta, if_pos hend]
      rfl

/-! ## Functions -/

theorem Reading.finish_eq_ok_iff {reading : Reading} {functions : List FunctionDecl} :
    reading.finish = .ok functions ↔
      reading.current = none ∧ reading.annotations = [] ∧ reading.functions = functions := by
  rw [finish]
  cases reading.current with
  | some f => simp
  | none =>
    dsimp only
    split
    case isTrue hnone => simp [hnone]
    case isFalse hwaiting => simp [hwaiting]

/-- Outside of bodies, a last line that is neither blank nor an annotation must be a header with an
empty body. -/
theorem Reading.finish_stepOutside_iff {reading : Reading} {document : String} {line : Line}
    {all : List FunctionDecl} (hfilled : line.trimmed ≠ [])
    (hplain : ∀ text, line.trimmed ≠ '@' :: text) (hnone : reading.annotations = []) :
    (reading.stepOutside scope document line >>= Reading.finish) = .ok all ↔
      ∃ f, readHeader scope (reading.first.getD (Outline.place document line)) line.trimmed =
        .ok (f, false) ∧ all = reading.functions ++ [f] := by
  rw [stepOutside]
  split
  case h_1 hblank => exact absurd hblank hfilled
  case h_2 text hat => exact absurd hat (hplain text)
  case h_3 =>
    cases hheader : readHeader scope (reading.first.getD (Outline.place document line))
        line.trimmed with
    | error fault =>
      exact iff_of_false (fun h => by cases h) (by rintro ⟨f, hf, -⟩; cases hf)
    | ok result =>
      obtain ⟨f, hasBody⟩ := result
      have hsame : { f with annotations := reading.annotations } = f := by
        rw [hnone, ← (bare_of_readHeader hheader).annotations]
      dsimp only
      rw [hsame]
      cases hasBody with
      | true => exact iff_of_false (fun h => by cases h) (by rintro ⟨g, hg, -⟩; cases hg)
      | false =>
        constructor
        · intro h
          cases h
          exact ⟨f, rfl, rfl⟩
        · rintro ⟨g, hg, rfl⟩
          cases hg
          rfl

/-- A header behind the lines of a document declares one more function. -/
theorem functions_concat {block : Block} {functions : List FunctionDecl} {line : Line}
    (hfilled : line.trimmed ≠ []) (hplain : ∀ text, line.trimmed ≠ '@' :: text)
    (h : block.functions scope = .ok functions) :
    ∃ place, ∀ all,
      Block.functions { block with lines := block.lines ++ [line] } scope = .ok all ↔
        ∃ f, readHeader scope place line.trimmed = .ok (f, false) ∧ all = functions ++ [f] := by
  obtain ⟨reading, hlines, hfinish⟩ := exists_of_bind_eq_ok h
  obtain ⟨hcurrent, hnone, rfl⟩ := Reading.finish_eq_ok_iff.1 hfinish
  refine ⟨reading.first.getD (Outline.place block.name line), fun all => ?_⟩
  have hread : Block.functions { block with lines := block.lines ++ [line] } scope =
      reading.stepOutside scope block.name line >>= Reading.finish := by
    rw [Block.functions, List.foldlM_append, hlines]
    simp only [bind, Except.bind, List.foldlM_cons, List.foldlM_nil, Reading.step, hcurrent]
    cases reading.stepOutside scope block.name line <;> rfl
  rw [hread]
  exact Reading.finish_stepOutside_iff hfilled hplain hnone

end Outline

namespace Program

variable {program next : Program} {base : String} {text : List Char} {f : FunctionDecl}

/-! ## Programs -/

/-- The program has one more function, at the end of its last document. -/
structure Gains (program next : Program) (f : FunctionDecl) : Prop where
  scope : next.toScope = program.toScope
  functions : next.functions = program.functions ++ [f]
  documents : next.documents.dropLast = program.documents.dropLast
  home : ∃ d e, program.documents.getLast? = some d ∧ next.documents.getLast? = some e ∧
    e.name = d.name ∧ e.functions = d.functions ++ [program.functions.length]

/-- A block with one more function becomes a document with one more id. -/
theorem gains_of_addBlock {block : Block} {line : Line} {functions : List FunctionDecl}
    {before : Program} (h : block.functions before.toScope = .ok functions)
    (hprogram : before.addBlock block = .ok program)
    (hmore : Block.functions { block with lines := block.lines ++ [line] } before.toScope =
      .ok (functions ++ [f])) :
    ∃ next, before.addBlock { block with lines := block.lines ++ [line] } = .ok next ∧
      program.Gains next f := by
  rw [addBlock_eq h] at hprogram
  cases hprogram
  refine ⟨_, addBlock_eq hmore, rfl, ?_, ?_, ?_⟩
  · rw [List.append_assoc]
  · rw [List.dropLast_concat, List.dropLast_concat]
  · refine ⟨_, _, List.getLast?_concat, List.getLast?_concat, rfl, ?_⟩
    rw [List.length_append, List.length_singleton, List.range'_1_concat, List.length_append]

/-- With one more line at the end of its last document an outline has the same blocks, but for
this line in the last one. -/
theorem exists_addBlock_of_insert (hended : base.toList.getLast? = some '\n')
    (hline : IsLine text) (htight : Tight text) (hcomment : text.head? ≠ some ';')
    (heven : braceDelta text = 0) (h : ofOutline (base ++ "\x7d\n") = .ok program) :
    ∃ (before : Program) (block : Block) (line : Line),
      before.addBlock block = .ok program ∧ line.trimmed = text ∧
        ofOutline (base ++ String.ofList text ++ "\n\x7d\n") =
          before.addBlock { block with lines := block.lines ++ [line] } := by
  have hbrace : IsLine ['}'] := ⟨by decide, by decide⟩
  have hshort : lines (ended [['}']]) = [['}']] := lines_ended (by simp [hbrace])
  have hlong : lines (ended [text, ['}']]) = [text, ['}']] :=
    lines_ended (by simp [hline, hbrace])
  obtain ⟨more, hold, htexts⟩ := exists_numberedLines_append hended (ended [['}']])
  rw [hshort] at htexts
  obtain ⟨closing, rfl, hclosing⟩ := List.map_eq_singleton_iff.1 htexts
  obtain ⟨added, hnew, htexts⟩ := exists_numberedLines_append hended (ended [text, ['}']])
  rw [hlong] at htexts
  obtain ⟨line, rest, rfl, htext, hrest⟩ := List.map_eq_cons_iff.1 htexts
  obtain ⟨last, rfl, hlast⟩ := List.map_eq_singleton_iff.1 hrest
  have hclosed : closing.trimmed = ['}'] := by rw [Line.trimmed, hclosing]; rfl
  have htrimmed : line.trimmed = text := by rw [Line.trimmed, htext, htight.trim_eq]
  have hends : last.trimmed = ['}'] := by rw [Line.trimmed, hlast]; rfl
  have hbefore : (base ++ "\x7d\n").toList = base.toList ++ ended [['}']] := by simp
  have hafter : (base ++ String.ofList text ++ "\n\x7d\n").toList =
      base.toList ++ ended [text, ['}']] := by simp
  obtain ⟨layout, hlayout, hblocks⟩ := exists_of_bind_eq_ok h
  rw [hbefore, hold] at hlayout
  have hkept : line.trimmed.head? ≠ some ';' := by rwa [htrimmed]
  have hlevel : braceDelta line.trimmed = 0 := by rwa [htrimmed]
  obtain ⟨blocks, block, hsplit, hinsert⟩ := ofLines_insert hclosed hends hkept hlevel hlayout
  rw [hsplit, List.foldlM_append] at hblocks
  obtain ⟨before, hfirst, hblock⟩ := exists_of_bind_eq_ok hblocks
  rw [List.foldlM_cons] at hblock
  obtain ⟨done, hblock, hdone⟩ := exists_of_bind_eq_ok hblock
  cases hdone
  refine ⟨before, block, line, hblock, htrimmed, ?_⟩
  rw [ofOutline, hafter, hnew, hinsert]
  simp only [bind, Except.bind, List.foldlM_append, hfirst, List.foldlM_cons, List.foldlM_nil]
  cases before.addBlock { block with lines := block.lines ++ [line] } <;> rfl

/-- **A header at the end of the last document** is read in the scope of the whole outline, and
the outline can be read exactly if the header can. -/
theorem exists_place_of_insert (hended : base.toList.getLast? = some '\n') (hline : IsLine text)
    (htight : Tight text) (hplain : ∀ rest, text ≠ '@' :: rest) (hcomment : text.head? ≠ some ';')
    (heven : braceDelta text = 0) (h : ofOutline (base ++ "\x7d\n") = .ok program) :
    ∃ place,
      (∀ next, ofOutline (base ++ String.ofList text ++ "\n\x7d\n") = .ok next →
        ∃ f, readHeader program.toScope place text = .ok (f, false) ∧ program.Gains next f) ∧
      ∀ f, readHeader program.toScope place text = .ok (f, false) →
        ∃ next, ofOutline (base ++ String.ofList text ++ "\n\x7d\n") = .ok next ∧
          program.Gains next f := by
  obtain ⟨before, block, line, hblock, htrimmed, hread⟩ :=
    exists_addBlock_of_insert hended hline htight hcomment heven h
  obtain ⟨functions, hfunctions, -⟩ := exists_of_bind_eq_ok hblock
  have hscope : program.toScope = before.toScope := by
    rw [addBlock_eq hfunctions] at hblock
    cases hblock
    rfl
  have hfilled : line.trimmed ≠ [] := by rw [htrimmed]; exact htight.ne_nil
  have hunmarked : ∀ rest, line.trimmed ≠ '@' :: rest := by rwa [htrimmed]
  obtain ⟨place, hplace⟩ := functions_concat hfilled hunmarked hfunctions
  rw [htrimmed] at hplace
  rw [hscope, hread]
  refine ⟨place, fun next hnext => ?_, fun f hf => ?_⟩
  · obtain ⟨all, hall, -⟩ := exists_of_bind_eq_ok hnext
    obtain ⟨f, hf, rfl⟩ := (hplace all).1 hall
    obtain ⟨found, hfound, hgains⟩ := gains_of_addBlock hfunctions hblock hall
    rw [hnext] at hfound
    cases hfound
    exact ⟨f, hf, hgains⟩
  · exact gains_of_addBlock hfunctions hblock ((hplace _).2 ⟨f, hf, rfl⟩)

end Program

end LambdaDeploy
