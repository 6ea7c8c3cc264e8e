import LambdaDeploy.Proofs.Outline.Passage
import LambdaDeploy.Proofs.Outline.PrintedHeader

/-!
# Reading printed functions

The lines of a written function are a passage: annotations, the header, the statements and the
closing brace.

* `functionTexts_eq` — the lines of a written function.
* `annotates_of_texts`, `statements_of_texts` — its annotations and its statements.
* `exists_passage` — **a printed function is the passage of the function that is read back.**
-/

namespace LambdaDeploy.Outline

open Text

variable {scope : Scope} {f : FunctionDecl} {document : String} {lines : List Line}

/-! ## The lines of a function -/

/-- The lines of a written function as texts. -/
def functionTexts (scope : Scope) (f : FunctionDecl) : List (List Char) :=
  (scope.functionLines f).map String.toList

/-- The four blanks in front of a statement. -/
def indentation : List Char := [' ', ' ', ' ', ' ']

theorem functionTexts_eq (scope : Scope) (f : FunctionDecl) :
    functionTexts scope f =
      (f.annotations.map fun a => (scope.renderAnnotation a).toList) ++
        [(scope.renderSignature f).toList] ++
        (f.body.map fun stmt => indentation ++ (scope.renderStmt stmt).toList) ++ [['}']] := by
  have hindented : (String.toList ∘ fun stmt => "    " ++ scope.renderStmt stmt) =
      fun stmt => indentation ++ (scope.renderStmt stmt).toList :=
    funext fun stmt => String.toList_append
  rw [functionTexts, Scope.functionLines, List.map_append, List.map_append, List.map_append,
    List.map_map, List.map_map, hindented]
  rfl

/-! ## Annotations -/

theorem renderAnnotation_eq (scope : Scope) (a : Annotation) :
    (scope.renderAnnotation a).toList = '@' :: (scope.qualify a.package a.name).toList := by
  simp [Scope.renderAnnotation]

/-- The name of a printed annotation, with its module prefix. -/
theorem exists_qualified (hscope : scope.Printable) {a : Annotation}
    (h : scope.PrintableAnnotation a) :
    ∃ front, (scope.qualify a.package a.name).toList = front ++ a.name.toList ∧ Settled front := by
  rcases h.package with hown | ⟨i, hi, himported⟩
  · exact ⟨[], by rw [hown, Scope.qualify_own]; rfl, .of_forall (by simp)⟩
  · obtain ⟨j, hj, -, hqualify⟩ := hscope.exists_qualify hi a.name
    have hcolon : Settled [':'] := .of_forall (by decide)
    refine ⟨j.modulePrefix.toList ++ [':'], ?_, (hscope.prefixes j hj).settled.append hcolon⟩
    rw [← himported, hqualify]
    simp

/-- A printed annotation is a line of its own without braces. -/
theorem annotationLine (hscope : scope.Printable) {a : Annotation}
    (h : scope.PrintableAnnotation a) :
    PrintableLine (scope.renderAnnotation a).toList ∧
      braceDelta (scope.renderAnnotation a).toList = 0 := by
  obtain ⟨front, htext, hfront⟩ := exists_qualified hscope h
  have hsign : Settled ['@'] := .of_forall (by decide)
  have hat : Tight ['@'] := .of_forall (by simp) (by decide)
  have hshape : (scope.renderAnnotation a).toList = ['@'] ++ front ++ a.name.toList := by
    rw [renderAnnotation_eq, htext]
    rfl
  have hsettled : Settled (['@'] ++ front ++ a.name.toList) :=
    (hsign.append hfront).append h.name.settled
  rw [hshape]
  have honeLine : '\n' ∉ ['@'] ++ front ++ a.name.toList := fun hend =>
    (hsettled.plain _ hend).2 rfl
  exact ⟨⟨hat.between h.name.tight front, honeLine, by simp⟩, hsettled.braceDelta_eq⟩

/-- Annotation lines are read as the annotations that were written. -/
theorem annotates_of_texts (hscope : scope.Printable) {annotations : List Annotation}
    (h : ∀ a ∈ annotations, scope.PrintableAnnotation a)
    (hlines : lines.map (·.text) = annotations.map fun a => (scope.renderAnnotation a).toList) :
    List.Forall₂ (Annotates scope) (filled lines) annotations := by
  induction annotations generalizing lines with
  | nil =>
    obtain rfl := List.map_eq_nil_iff.1 hlines
    exact .nil
  | cons a annotations ih =>
    rw [List.forall_mem_cons] at h
    obtain ⟨line, others, rfl, hline, hothers⟩ := List.map_eq_cons_iff.1 hlines
    have htrimmed : line.trimmed = '@' :: (scope.qualify a.package a.name).toList := by
      rw [Line.trimmed, hline, (annotationLine hscope h.1).1.tight.trim_eq, renderAnnotation_eq]
    rw [filled_cons (by simp [htrimmed])]
    exact .cons ⟨_, htrimmed, Scope.readAnnotation_qualify hscope h.1⟩ (ih h.2 hothers)

/-! ## Statements -/

/-- The lines of a body are its statements. -/
theorem statements_of_texts {stmts : List Stmt}
    (h : ∀ stmt ∈ stmts, PrintableLine (scope.renderStmt stmt).toList)
    (hlines : lines.map (·.text) =
      stmts.map fun stmt => indentation ++ (scope.renderStmt stmt).toList) :
    statements lines = stmts.map (fun stmt => .verbatim (scope.renderStmt stmt)) ∧
      lines.map (·.trimmed) = stmts.map fun stmt => (scope.renderStmt stmt).toList := by
  induction stmts generalizing lines with
  | nil =>
    obtain rfl := List.map_eq_nil_iff.1 hlines
    exact ⟨rfl, rfl⟩
  | cons stmt stmts ih =>
    rw [List.forall_mem_cons] at h
    obtain ⟨line, others, rfl, hline, hothers⟩ := List.map_eq_cons_iff.1 hlines
    dsimp only at hline
    have htrimmed : line.trimmed = (scope.renderStmt stmt).toList := by
      rw [Line.trimmed, hline]
      exact trim_blank_append (by decide) h.1.tight.trim_eq
    have hfilled : line.trimmed ≠ [] := by
      rw [htrimmed]
      exact h.1.tight.ne_nil
    obtain ⟨hstatements, htexts⟩ := ih h.2 hothers
    rw [statements] at hstatements ⊢
    rw [filled_cons hfilled, List.map_cons, List.map_cons, List.map_cons, List.map_cons,
      hstatements, htexts, htrimmed, String.ofList_toList]
    exact ⟨rfl, rfl⟩

/-! ## Whole functions -/

/-- **A printed function is the passage of the function that is read back.** -/
theorem exists_passage (hscope : scope.Printable) (h : scope.PrintableFunction f)
    (hlines : lines.map (·.text) = functionTexts scope f) (document : String) :
    ∃ (p : Passage) (g : FunctionDecl), lines = p.lines ∧ p.Declares scope document g ∧
      g.unplaced = f.asRead scope := by
  -- the four parts of the function's lines
  rw [functionTexts_eq] at hlines
  obtain ⟨front, closing, rfl, hfront, hclosing⟩ := List.map_eq_append_iff.1 hlines
  obtain ⟨front, body, rfl, hfront, hbody⟩ := List.map_eq_append_iff.1 hfront
  obtain ⟨annotations, header, rfl, hannotations, hheader⟩ := List.map_eq_append_iff.1 hfront
  obtain ⟨header, rfl, hsignature⟩ := List.map_eq_singleton_iff.1 hheader
  obtain ⟨closing, rfl, hbrace⟩ := List.map_eq_singleton_iff.1 hclosing
  have hlinesOf : ∀ stmt ∈ f.body, PrintableLine (scope.renderStmt stmt).toList :=
    fun stmt hstmt => h.lines _ (List.mem_map_of_mem hstmt)
  obtain ⟨hstatements, htexts⟩ := statements_of_texts hlinesOf hbody
  have htrimmed : header.trimmed = (scope.renderSignature f).toList := by
    rw [Line.trimmed, hsignature, (Scope.headerLine hscope h).1.tight.trim_eq]
  have hlast : closing.trimmed = ['}'] := by
    rw [Line.trimmed, hbrace]
    rfl
  have hcloses : Closes (body.map (·.trimmed)) closing.trimmed := by
    have heven : totalDelta (f.body.map fun stmt => (scope.renderStmt stmt).toList) = 0 :=
      h.balanced.even
    rw [htexts, hlast]
    exact ⟨h.balanced.inside, by rw [heven]; decide⟩
  refine ⟨⟨annotations, header, body, some closing⟩,
    { name := f.name
      isPublic := f.isPublic
      annotations := f.annotations
      params := f.params
      restParam := f.restParam
      returnType := f.returnType
      body := f.body.map fun stmt => .verbatim (scope.renderStmt stmt)
      location := (firstPlace? document annotations).getD (place document header) },
    by simp [Passage.lines], ⟨⟨?marks, ?header, ?body⟩, ?closes, nofun⟩, rfl⟩
  case marks => exact annotates_of_texts hscope h.annotations hannotations
  case header =>
    dsimp only
    rw [htrimmed]
    exact Scope.readHeader_renderSignature hscope h _
  case body => exact hstatements.symm
  case closes =>
    rintro _ ⟨⟩
    exact hcloses

end LambdaDeploy.Outline
