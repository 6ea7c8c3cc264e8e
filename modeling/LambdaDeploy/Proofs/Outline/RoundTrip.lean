import LambdaDeploy.Proofs.Outline.PrintedDocument
import LambdaDeploy.Proofs.Outline.PrintedScope
import LambdaDeploy.Proofs.Program.Holding

/-!
# Outlines that are written and read again

A scope and some documents with their functions can be written as an outline.  What is read from
it are the same functions in the same documents.  Only what an outline does not show is lost: the
places of the functions, and how their statements were built.

* `Scope.renderOutline` — the written form of a scope and its documents.
* `Scope.renderFunction_asRead` — what is read back looks the same when it is written again.
* `isLine_outlineLines`, `ofLines_outlineLines` — its lines and its documents are found again.
* `Program.ofOutline_renderOutline` — **reading undoes writing.**
-/

namespace LambdaDeploy

open Text Outline

variable {scope : Scope} {drafts : List Draft} {gap : Nat} {lines : List Line}

/-! ## Writing an outline -/

namespace Scope

/-- The written form of a document, with empty lines between any two functions. -/
def renderDraft (scope : Scope) (gap : Nat) (draft : Draft) : String :=
  renderOpening draft.name ++ "\n" ++
    String.intercalate (String.ofList (List.replicate gap '\n'))
      (draft.functions.map scope.renderFunction) ++ "\x7d\n"

/-- The written form of a scope and its documents. -/
def renderOutline (scope : Scope) (gap : Nat) (drafts : List Draft) : String :=
  String.join (scope.renderDeclarations.map (· ++ "\n")) ++
    String.join (drafts.map (scope.renderDraft gap))

/-- The lines of an outline. -/
def outlineLines (scope : Scope) (gap : Nat) (drafts : List Draft) : List (List Char) :=
  scope.renderDeclarations.map String.toList ++ drafts.flatMap (scope.draftLines gap)

theorem toList_join_ended (texts : List String) :
    (String.join (texts.map (· ++ "\n"))).toList = ended (texts.map String.toList) := by
  rw [String.toList_join, ended, List.flatMap_map, List.flatMap_map]
  simp

theorem toList_renderDraft (scope : Scope) (gap : Nat) (draft : Draft) :
    (scope.renderDraft gap draft).toList = ended (scope.draftLines gap draft) := by
  have hfunctions : (draft.functions.map scope.renderFunction).map String.toList =
      (draft.functions.map (functionTexts scope)).map ended := by
    rw [List.map_map, List.map_map]
    exact List.map_congr_left fun f _ => toList_join_ended (scope.functionLines f)
  have hbody : (String.intercalate (String.ofList (List.replicate gap '\n'))
      (draft.functions.map scope.renderFunction)).toList =
        ended (scope.bodyLines gap draft.functions) := by
    rw [bodyLines, intercalate_map ended_nil ended_append, ended_replicate,
      String.toList_intercalate, hfunctions, String.toList_ofList]
  rw [renderDraft, draftLines, ended_append, ended_append, ← hbody]
  simp

theorem toList_renderOutline (scope : Scope) (gap : Nat) (drafts : List Draft) :
    (scope.renderOutline gap drafts).toList = ended (scope.outlineLines gap drafts) := by
  have hdrafts : (String.join (drafts.map (scope.renderDraft gap))).toList =
      ended (drafts.flatMap (scope.draftLines gap)) := by
    rw [String.toList_join, List.flatMap_map]
    simp only [toList_renderDraft]
    rw [ended, List.flatMap_assoc]
    rfl
  rw [renderOutline, outlineLines, ended_append, String.toList_append, toList_join_ended, hdrafts]

/-- What is read back looks the same when it is written again. -/
theorem renderFunction_asRead (scope : Scope) (f : FunctionDecl) :
    scope.renderFunction (f.asRead scope) = scope.renderFunction f := by
  have hbody : (f.asRead scope).body.map (fun stmt => "    " ++ scope.renderStmt stmt) =
      f.body.map fun stmt => "    " ++ scope.renderStmt stmt := by
    rw [FunctionDecl.asRead, List.map_map]
    rfl
  rw [renderFunction, renderFunction, functionLines, functionLines, hbody]
  rfl

end Scope

/-! ## Finding the documents -/

namespace Outline

theorem Declaration.isLine {text : List Char} {update : Scope → Scope}
    (h : Declaration text update) : IsLine text :=
  KeptLine.isLine (.of_line h.toPrintableLine)

/-- No line of an outline is broken or cut short when the outline is read. -/
theorem isLine_outlineLines (hscope : scope.Printable)
    (h : ∀ draft ∈ drafts, scope.PrintableDraft draft) :
    ∀ text ∈ scope.outlineLines gap drafts, IsLine text := by
  have hdraft : ∀ draft ∈ drafts, ∀ text ∈ scope.draftLines gap draft, IsLine text := by
    intro draft hdraft
    rw [Scope.draftLines, List.forall_mem_append, List.forall_mem_append,
      List.forall_mem_singleton, List.forall_mem_singleton]
    refine ⟨⟨?_, fun text htext => ?_⟩, KeptLine.isLine (.of_line (by decide))⟩
    · exact KeptLine.isLine (.of_line (openingLine (h draft hdraft).oneLine))
    · exact (keptLine_bodyLines hscope (h draft hdraft).functions text htext).isLine
  rw [Scope.outlineLines, List.forall_mem_append]
  refine ⟨?_, fun text htext => ?_⟩
  · rw [Scope.renderDeclarations, List.forall_mem_map, List.forall_mem_append,
      List.forall_mem_append, List.forall_mem_singleton, List.forall_mem_map, List.forall_mem_map]
    refine ⟨⟨?_, fun i hi => ?_⟩, fun name hname => ?_⟩
    · exact (declaration_package hscope.package).isLine
    · exact (declaration_import (hscope.imports i hi) (hscope.prefixes i hi)
        (hscope.exports i hi)).isLine
    · exact (declaration_type (hscope.types name hname).1).isLine
  · obtain ⟨draft, hmem, htext⟩ := List.mem_flatMap.1 htext
    exact hdraft draft hmem text htext

/-- A block with the name of a draft and the lines of its functions. -/
structure Shows (scope : Scope) (gap : Nat) (block : Block) (draft : Draft) : Prop where
  name : block.name = draft.name
  lines : block.lines.map (·.text) = scope.bodyLines gap draft.functions

/-- The documents of an outline are found, in order. -/
theorem foldlM_drafts (hscope : scope.Printable) (h : ∀ draft ∈ drafts, scope.PrintableDraft draft)
    (hlines : lines.map (·.text) = drafts.flatMap (scope.draftLines gap)) (before : List Block) :
    ∃ blocks, List.Forall₂ (Shows scope gap) blocks drafts ∧
      lines.foldlM Layout.step { scope := scope, blocks := before } =
        .ok { scope := scope, blocks := before ++ blocks } := by
  induction drafts generalizing lines before with
  | nil =>
    obtain rfl := List.map_eq_nil_iff.1 hlines
    exact ⟨[], .nil, by simp [pure, Except.pure]⟩
  | cons draft drafts ih =>
    rw [List.forall_mem_cons] at h
    rw [List.flatMap_cons] at hlines
    obtain ⟨own, others, rfl, hown, hothers⟩ := List.map_eq_append_iff.1 hlines
    obtain ⟨block, hname, htexts, hread⟩ := foldlM_document hscope h.1 hown before
    obtain ⟨blocks, hblocks, hrest⟩ := ih h.2 hothers (before ++ [block])
    refine ⟨block :: blocks, .cons ⟨hname, htexts⟩ hblocks, ?_⟩
    rw [List.foldlM_append, hread]
    simp only [bind, Except.bind]
    rw [hrest, List.append_assoc]
    rfl

/-- The layout of a printed outline: its scope, and one block for each document. -/
theorem ofLines_outlineLines (hscope : scope.Printable)
    (h : ∀ draft ∈ drafts, scope.PrintableDraft draft)
    (hlines : lines.map (·.text) = scope.outlineLines gap drafts) :
    ∃ blocks, List.Forall₂ (Shows scope gap) blocks drafts ∧
      Layout.ofLines lines = .ok { scope := scope, blocks := blocks } := by
  obtain ⟨front, back, rfl, hfront, hback⟩ := List.map_eq_append_iff.1 hlines
  obtain ⟨blocks, hblocks, hread⟩ := foldlM_drafts hscope h hback []
  refine ⟨blocks, hblocks, ?_⟩
  rw [Layout.ofLines, List.foldlM_append, foldlM_renderDeclarations hscope hfront]
  simp only [bind, Except.bind, hread]
  rfl

end Outline

/-! ## Reading the functions -/

namespace Program

variable {program : Program} {blocks : List Block}

/-- Block by block the program comes to hold the drafts. -/
theorem Holds.foldlM_addBlock (hscope : scope.Printable)
    (h : ∀ draft ∈ drafts, scope.PrintableDraft draft)
    (hblocks : List.Forall₂ (Shows scope gap) blocks drafts) {done : List Draft}
    (hprogram : program.Holds scope done) :
    ∃ result, blocks.foldlM Program.addBlock program = .ok result ∧
      result.Holds scope (done ++ drafts) := by
  induction hblocks generalizing program done with
  | nil => exact ⟨program, rfl, by rwa [List.append_nil]⟩
  | cons hshows _ ih =>
    rw [List.forall_mem_cons] at h
    obtain ⟨placed, hplaced, hfunctions⟩ := functions_of_bodyLines hscope h.1.functions hshows.lines
    obtain ⟨next, hadd, hnext⟩ := hprogram.addBlock hshows.name hfunctions hplaced
    obtain ⟨result, hrest, hresult⟩ := ih h.2 hnext
    refine ⟨result, ?_, by rwa [List.append_assoc] at hresult⟩
    rw [List.foldlM_cons, hadd]
    exact hrest

/-- **Reading undoes writing.**  From the written form of a scope and its documents the scope, the
documents and their functions are read back.  The functions are the same up to the places where
they stand, and their statements are kept as they were written. -/
theorem ofOutline_renderOutline (hscope : scope.Printable)
    (h : ∀ draft ∈ drafts, scope.PrintableDraft draft) (gap : Nat) :
    ∃ program, ofOutline (scope.renderOutline gap drafts) = .ok program ∧
      program.Holds scope drafts := by
  have hlines : (numberedLines (scope.renderOutline gap drafts).toList).map (·.text) =
      scope.outlineLines gap drafts := by
    rw [Scope.toList_renderOutline]
    exact map_text_numberedLines (isLine_outlineLines hscope h)
  obtain ⟨blocks, hblocks, hlayout⟩ := ofLines_outlineLines hscope h hlines
  obtain ⟨program, hread, hholds⟩ := (holds_ofScope scope).foldlM_addBlock hscope h hblocks
  refine ⟨program, ?_, hholds⟩
  rw [ofOutline, hlayout]
  exact hread

/-! ## A shop -/

/-- The package of the annotations in the sample. -/
def lambdaPackage : Package := ⟨"ballerinax", "awslambda", "0.0.0"⟩

/-- A scope with two imports, one of them under a prefix of its own, and a declared type. -/
def shopScope : Scope where
  package := ⟨"acme", "shop", "0.0.0"⟩
  imports :=
    [⟨lambdaPackage, "lambda", ["Function", "Context"]⟩, .plain ⟨"ballerina", "http", "0.0.0"⟩ []]
  types := ["Order"]

/-- A function with parameters of every form, and braces in its body. -/
def placeFunction : FunctionDecl where
  name := "place"
  isPublic := true
  annotations := [⟨lambdaPackage, "Function"⟩]
  params :=
    [⟨"ctx", .named lambdaPackage "Context", none⟩,
      ⟨"limits", .array (.union [.builtin .int, .builtin .string]), some "none yet"⟩]
  restParam := some ⟨"orders", .map (.named shopScope.package "Order"), none⟩
  returnType := some (.union [.record "record \x7b int(x) y; \x7d", .builtin .error])
  body := [.verbatim "if (limits) \x7b", .returned (.reference "ctx" (.param 0)), .verbatim "\x7d"]

/-- Two documents, one of them with two functions. -/
def shopDrafts : List Draft :=
  [⟨"main.bal", [placeFunction, { name := "audit" }]⟩, ⟨"empty", []⟩]

/-- The written form of the two documents. -/
def shopOutline : String :=
  "module acme/shop;\n" ++
  "import ballerinax/awslambda as lambda \x7b Function, Context \x7d;\n" ++
  "import ballerina/http;\n" ++
  "type Order;\n" ++
  "document \"main.bal\" \x7b\n" ++
  "@lambda:Function\n" ++
  "public function place(lambda:Context ctx, (int|string)[] limits = none yet, " ++
  "map<Order>... orders) returns record \x7b int(x) y; \x7d|error \x7b\n" ++
  "    if (limits) \x7b\n" ++
  "    return ctx;\n" ++
  "    \x7d\n" ++
  "\x7d\n" ++
  "\n" ++
  "function audit() \x7b\n" ++
  "\x7d\n" ++
  "\x7d\n" ++
  "document \"empty\" \x7b\n" ++
  "\x7d\n"

theorem printable_shopScope : shopScope.Printable where
  package := by decide
  imports := by decide
  prefixes := by decide
  exports := by decide
  distinct := by decide
  foreign := by decide
  types := by decide

theorem printable_placeFunction : shopScope.PrintableFunction placeFunction where
  name := by decide
  annotations := by decide
  params := by
    have hlambda : ⟨lambdaPackage, "lambda", ["Function", "Context"]⟩ ∈ shopScope.imports :=
      List.mem_cons_self ..
    have hidentifier : IsIdentifier "Context" := by decide
    have hcontext : shopScope.PrintableType (.named lambdaPackage "Context") :=
      .imported hlambda hidentifier
    have hlimits : shopScope.PrintableType (.array (.union [.builtin .int, .builtin .string])) := by
      refine .array (.union (by decide) (by decide) ?_)
      simp [Scope.PrintableType.builtin]
    rw [placeFunction, List.forall_mem_cons, List.forall_mem_singleton]
    exact ⟨⟨by decide, hcontext, by decide⟩, ⟨by decide, hlimits, by decide⟩⟩
  restParam := by
    have horders : shopScope.PrintableType (.map (.named shopScope.package "Order")) :=
      .map (.declared (by decide))
    intro param hparam
    cases hparam
    exact ⟨⟨by decide, horders, by decide⟩, rfl⟩
  returnType := by
    have hparens : Nested (fun _ => True) ('(' :: (['x'] ++ ')' :: " y; ".toList)) :=
      .group .round (.of_forall (by decide)) (.of_forall (by decide))
    have hword : Nested (fun _ => True) " int".toList := .of_forall (by decide)
    have hfields : Scope.PrintableFields " int(x) y; ".toList :=
      ⟨hword.append hparens, by decide⟩
    have hrecord : shopScope.PrintableType (.record "record \x7b int(x) y; \x7d") :=
      .record hfields
    intro type htype
    cases htype
    refine .union (by decide) (by decide) ?_
    simp [hrecord, Scope.PrintableType.builtin]
  lines := by decide
  balanced := by decide

theorem ofOutline_renderOutline_sample :
    shopScope.Printable ∧ (∀ draft ∈ shopDrafts, shopScope.PrintableDraft draft) ∧
      ∃ program, ofOutline shopOutline = .ok program ∧ program.Holds shopScope shopDrafts := by
  have haudit : shopScope.PrintableFunction { name := "audit" } :=
    ⟨by decide, by decide, by simp, by simp, by simp, by decide, by decide⟩
  have hdrafts : ∀ draft ∈ shopDrafts, shopScope.PrintableDraft draft := by
    rw [shopDrafts, List.forall_mem_cons, List.forall_mem_singleton]
    refine ⟨⟨by decide, by decide, ?_⟩, ⟨by decide, by decide, by simp⟩⟩
    rw [List.forall_mem_cons, List.forall_mem_singleton]
    exact ⟨printable_placeFunction, haudit⟩
  have htext : shopOutline = shopScope.renderOutline 1 shopDrafts := by decide +kernel
  rw [htext]
  exact ⟨printable_shopScope, hdrafts, ofOutline_renderOutline printable_shopScope hdrafts 1⟩

end Program

end LambdaDeploy
