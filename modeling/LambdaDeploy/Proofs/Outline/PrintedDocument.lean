import LambdaDeploy.Proofs.Outline.Extent
import LambdaDeploy.Proofs.Outline.PrintedFunction
import LambdaDeploy.Proofs.Text.Lines

/-!
# Reading printed documents

A document is written as a header, its functions with the same number of empty lines between any
two of them, and a closing brace.

* `Scope.bodyLines` — the lines between a document's header and its closing brace.
* `KeptLine`, `keptLine_bodyLines`, `balanced_bodyLines` — none of them is a comment, and their
  braces are balanced.
* `exists_passages`, `functions_of_bodyLines` — **they declare the functions that were written.**
* `foldlM_document` — **a printed document is found again** among the lines of an outline.
-/

namespace LambdaDeploy

open Text Outline

namespace Scope

/-! ## Writing documents -/

/-- The header of a document. -/
def renderOpening (name : String) : String := "document \"" ++ name ++ "\" \x7b"

/-- The lines of some functions, with empty lines between any two functions. -/
def bodyLines (scope : Scope) (gap : Nat) (functions : List FunctionDecl) : List (List Char) :=
  (List.replicate gap []).intercalate (functions.map (functionTexts scope))

/-- The lines of a document. -/
def draftLines (scope : Scope) (gap : Nat) (draft : Draft) : List (List Char) :=
  [(renderOpening draft.name).toList] ++ scope.bodyLines gap draft.functions ++ [['}']]

end Scope

namespace Outline

/-! ## No comments, balanced braces -/

variable {scope : Scope} {f : FunctionDecl} {functions : List FunctionDecl} {gap : Nat}
  {lines : List Line} {document name : String} {draft : Draft}

/-- A line that is no comment. -/
structure KeptLine (text : List Char) : Prop where
  isLine : IsLine text
  noComment : (trim text).head? ≠ some ';'

theorem KeptLine.nil : KeptLine [] := ⟨.nil, by decide⟩

theorem KeptLine.of_printable {left text : List Char} (hleft : ∀ c ∈ left, isBlank c = true)
    (hend : '\n' ∉ left) (h : PrintableLine text) : KeptLine (left ++ text) := by
  refine ⟨.of_tight hend h.tight h.oneLine, ?_⟩
  rw [trim_blank_append hleft h.tight.trim_eq]
  exact h.noComment

theorem KeptLine.of_line {text : List Char} (h : PrintableLine text) : KeptLine text := by
  have hkept : KeptLine ([] ++ text) := .of_printable (by simp) (by simp) h
  exact hkept

theorem keptLine_functionTexts (hscope : scope.Printable) (h : scope.PrintableFunction f) :
    ∀ text ∈ functionTexts scope f, KeptLine text := by
  rw [functionTexts_eq, List.forall_mem_append, List.forall_mem_append, List.forall_mem_append,
    List.forall_mem_map, List.forall_mem_map, List.forall_mem_singleton, List.forall_mem_singleton]
  refine ⟨⟨⟨fun a ha => ?_, ?_⟩, fun stmt hstmt => ?_⟩, ?_⟩
  · exact .of_line (annotationLine hscope (h.annotations a ha)).1
  · exact .of_line (Scope.headerLine hscope h).1
  · exact .of_printable (by decide) (by decide) (h.lines _ (List.mem_map_of_mem hstmt))
  · exact .of_line (by decide)

theorem balanced_functionTexts (hscope : scope.Printable) (h : scope.PrintableFunction f) :
    Balanced ((functionTexts scope f).map trim) := by
  have hannotations :
      Balanced (f.annotations.map fun a => trim (scope.renderAnnotation a).toList) := by
    refine .of_forall (List.forall_mem_map.2 fun a ha => ?_)
    obtain ⟨hline, hdelta⟩ := annotationLine hscope (h.annotations a ha)
    rw [hline.tight.trim_eq, hdelta]
  obtain ⟨hheader, hopening⟩ := Scope.headerLine hscope h
  have hbody : (f.body.map fun stmt => trim (indentation ++ (scope.renderStmt stmt).toList)) =
      scope.statementLines f :=
    List.map_congr_left fun stmt hstmt =>
      trim_blank_append (by decide) (h.lines _ (List.mem_map_of_mem hstmt)).tight.trim_eq
  have hbraces : Balanced ([trim (scope.renderSignature f).toList] ++ scope.statementLines f ++
      [trim ['}']]) :=
    .between (by rw [hheader.tight.trim_eq, hopening]) h.balanced (by decide)
  have hshape : (functionTexts scope f).map trim =
      (f.annotations.map fun a => trim (scope.renderAnnotation a).toList) ++
        ([trim (scope.renderSignature f).toList] ++ scope.statementLines f ++ [trim ['}']]) := by
    rw [functionTexts_eq, ← hbody]
    simp [Function.comp_def]
  rw [hshape]
  exact hannotations.append hbraces

theorem keptLine_bodyLines (hscope : scope.Printable)
    (h : ∀ f ∈ functions, scope.PrintableFunction f) :
    ∀ text ∈ scope.bodyLines gap functions, KeptLine text := by
  have hgap : ∀ text ∈ List.replicate gap [], KeptLine text := fun text htext =>
    List.eq_of_mem_replicate htext ▸ KeptLine.nil
  exact forall_mem_intercalate hgap
    (List.forall_mem_map.2 fun f hf => keptLine_functionTexts hscope (h f hf))

theorem balanced_bodyLines (hscope : scope.Printable)
    (h : ∀ f ∈ functions, scope.PrintableFunction f) :
    Balanced ((scope.bodyLines gap functions).map trim) := by
  have hgap : Balanced ((List.replicate gap []).map trim) := by
    refine .of_forall (List.forall_mem_map.2 fun text htext => ?_)
    rw [List.eq_of_mem_replicate htext]
    rfl
  rw [Scope.bodyLines, intercalate_map List.map_nil fun _ _ => List.map_append, List.map_map]
  exact hgap.intercalate
    (List.forall_mem_map.2 fun f hf => balanced_functionTexts hscope (h f hf))

/-! ## The functions of a body -/

/-- The lines between a printed document's braces are the passages of its functions. -/
theorem exists_passages (hscope : scope.Printable)
    (h : ∀ f ∈ functions, scope.PrintableFunction f)
    (hlines : lines.map (·.text) = scope.bodyLines gap functions) (document : String) :
    ∃ (passages : List Passage) (placed : List FunctionDecl),
      lines = passages.flatMap Passage.lines ∧
        List.Forall₂ (Passage.Declares scope document) passages placed ∧
          placed.map FunctionDecl.unplaced = functions.map (FunctionDecl.asRead scope) := by
  induction functions generalizing lines with
  | nil =>
    obtain rfl := List.map_eq_nil_iff.1 hlines
    exact ⟨[], [], rfl, .nil, rfl⟩
  | cons f functions ih =>
    rw [List.forall_mem_cons] at h
    -- empty lines stand between two functions, but not behind the last one
    cases functions with
    | nil =>
      rw [Scope.bodyLines, List.map_singleton, List.intercalate_singleton] at hlines
      obtain ⟨p, g, rfl, hdeclares, hg⟩ := exists_passage hscope h.1 hlines document
      exact ⟨[p], [g], by simp, .cons hdeclares .nil, by simp [hg]⟩
    | cons next functions =>
      rw [Scope.bodyLines, List.map_cons, List.map_cons, List.intercalate_cons_cons] at hlines
      obtain ⟨front, others, rfl, hfront, hothers⟩ := List.map_eq_append_iff.1 hlines
      obtain ⟨own, blank, rfl, hown, hblank⟩ := List.map_eq_append_iff.1 hfront
      have hempty : ∀ line ∈ blank, line.trimmed = [] := by
        intro line hline
        have htext : line.text = [] := List.eq_of_mem_replicate (hblank ▸ List.mem_map_of_mem hline)
        rw [Line.trimmed, htext]
        rfl
      obtain ⟨p, g, rfl, hdeclares, hg⟩ := exists_passage hscope h.1 hown document
      obtain ⟨passages, placed, rfl, hrest, hplaced⟩ := ih h.2 hothers
      -- the empty lines belong to the passage behind them
      cases hrest with
      | nil => cases hplaced
      | @cons first firstPlaced passages placed hfirst hrest =>
        refine ⟨p :: { first with marks := blank ++ first.marks } :: passages,
          g :: firstPlaced :: placed, by simp [Passage.lines], ?_,
          by rw [List.map_cons, hg, hplaced]; rfl⟩
        exact .cons hdeclares (.cons (hfirst.blank_append hempty) hrest)

/-- **The lines between a printed document's braces declare its functions.** -/
theorem functions_of_bodyLines (hscope : scope.Printable)
    (h : ∀ f ∈ functions, scope.PrintableFunction f) {block : Block}
    (hlines : block.lines.map (·.text) = scope.bodyLines gap functions) :
    ∃ placed : List FunctionDecl,
      placed.map FunctionDecl.unplaced = functions.map (FunctionDecl.asRead scope) ∧
        block.functions scope = .ok placed := by
  obtain ⟨passages, placed, hpassages, hdeclares, hplaced⟩ :=
    exists_passages hscope h hlines block.name
  refine ⟨placed, hplaced, functions_eq_ok_iff.2 ⟨passages, [], ?_, by simp, hdeclares⟩⟩
  rw [hpassages, List.append_nil]

/-! ## Documents in an outline -/

theorem toList_renderOpening (name : String) :
    (Scope.renderOpening name).toList =
      "document ".toList ++ (['"'] ++ name.toList ++ ['"'] ++ [' '] ++ ['{']) := by
  simp [Scope.renderOpening]

/-- A printed header of a document is a line of its own. -/
theorem openingLine (hend : '\n' ∉ name.toList) :
    PrintableLine (Scope.renderOpening name).toList := by
  have hword : Tight "document".toList := .of_forall (by decide) (by decide)
  have hbrace : Tight ['{'] := .of_forall (by simp) (by decide)
  rw [toList_renderOpening]
  refine ⟨?_, by simp [hend], by simp⟩
  have hbetween := hword.between hbrace ([' '] ++ (['"'] ++ name.toList ++ ['"'] ++ [' ']))
  simpa using hbetween

/-- The name of a printed document is read back, quotes in it included. -/
theorem readDocumentName_renderOpening (hname : name ≠ "") :
    readDocumentName (['"'] ++ name.toList ++ ['"'] ++ [' '] ++ ['{']) = .ok name := by
  have hquote : Tight ['"'] := .of_forall (by simp) (by decide)
  have hbrace : Tight ['{'] := .of_forall (by simp) (by decide)
  have hquoted : Tight (['"'] ++ name.toList ++ ['"']) := hquote.between hquote _
  have htext : trim (['"'] ++ name.toList ++ ['"'] ++ [' '] ++ ['{']) =
      ['"'] ++ name.toList ++ ['"'] ++ [' '] ++ ['{'] := (hquoted.between hbrace _).trim_eq
  have hunquoted : (afterPrefix? ['"'] (['"'] ++ name.toList ++ ['"'])).bind
      (beforeSuffix? ['"']) = some name.toList := by
    rw [List.append_assoc, afterPrefix?_append, Option.bind_some, beforeSuffix?_append]
  rw [readDocumentName, htext, beforeSuffix?_append]
  dsimp only
  rw [trim_append_blank (by decide) hquoted.trim_eq, hunquoted, Option.getD_some,
    if_neg (by simpa using hname), String.ofList_toList]

theorem opens_of_text (hname : name ≠ "") (hend : '\n' ∉ name.toList) {line : Line}
    (hline : line.text = (Scope.renderOpening name).toList) : Opens line name := by
  refine ⟨['"'] ++ name.toList ++ ['"'] ++ [' '] ++ ['{'], ?_, readDocumentName_renderOpening hname⟩
  rw [Line.trimmed, hline, (openingLine hend).tight.trim_eq, toList_renderOpening,
    afterPrefix?_append]

/-- **A printed document is found again** among the lines of an outline. -/
theorem foldlM_document (hscope : scope.Printable) (h : scope.PrintableDraft draft)
    (hlines : lines.map (·.text) = scope.draftLines gap draft) (blocks : List Block) :
    ∃ block : Block, block.name = draft.name ∧
      block.lines.map (·.text) = scope.bodyLines gap draft.functions ∧
        lines.foldlM Layout.step { scope := scope, blocks := blocks } =
          .ok { scope := scope, blocks := blocks ++ [block] } := by
  rw [Scope.draftLines] at hlines
  obtain ⟨front, closing, rfl, hfront, hclosing⟩ := List.map_eq_append_iff.1 hlines
  obtain ⟨opening, inside, rfl, hopening, hinside⟩ := List.map_eq_append_iff.1 hfront
  obtain ⟨opening, rfl, hheader⟩ := List.map_eq_singleton_iff.1 hopening
  obtain ⟨closing, rfl, hbrace⟩ := List.map_eq_singleton_iff.1 hclosing
  have hkept : kept inside = inside := by
    refine List.filter_eq_self.2 fun line hline => decide_eq_true ?_
    exact (keptLine_bodyLines hscope h.functions line.text
      (hinside ▸ List.mem_map_of_mem hline)).noComment
  have hbalanced : Balanced (inside.map (·.trimmed)) := by
    have htexts : Balanced ((scope.bodyLines gap draft.functions).map trim) :=
      balanced_bodyLines hscope h.functions
    rw [← hinside, List.map_map] at htexts
    exact htexts
  have hlast : closing.trimmed = ['}'] := by
    rw [Line.trimmed, hbrace]
    rfl
  have hcloses : Closes ((kept inside).map (·.trimmed)) closing.trimmed := by
    rw [hkept, hlast]
    exact ⟨hbalanced.inside, by rw [hbalanced.even]; decide⟩
  have hextent : Extent.Encloses ⟨opening, inside, closing⟩ ⟨draft.name, inside⟩ :=
    ⟨opens_of_text h.named h.oneLine hheader, hkept.symm, by simp [hlast], hcloses⟩
  refine ⟨⟨draft.name, inside⟩, rfl, hinside, ?_⟩
  have hread : (Extent.lines ⟨opening, inside, closing⟩).foldlM Layout.step
      { scope := scope, blocks := blocks } =
        .ok { scope := scope, blocks := blocks ++ [⟨draft.name, inside⟩] } :=
    foldlM_extent hextent blocks
  simpa [Extent.lines] using hread

end Outline

end LambdaDeploy
