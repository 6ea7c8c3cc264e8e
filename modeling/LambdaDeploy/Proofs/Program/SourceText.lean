import LambdaDeploy.Program.Visit
import LambdaDeploy.Proofs.Program.Lookup

/-!
# The documents' texts

Committing the texts of a program gives every document its written form, which
depends on the imports, the functions and the document's ids, and not on any text
that was there before.

* `renderListing_eq_intercalate`, `documentText_eq_intercalate` — what a written document says: the
  imports, and then its functions in order.
* `commitSources_eq` — committing all texts is one map over the documents.
* `commitSources_commitSources` — doing it again changes nothing.
* `function?_commitSources`, `documentOf?_commitSources` — no look-up sees the texts.
-/

namespace LambdaDeploy.Program

/-- The written form of a document, from its ids. -/
def documentText (program : Program) (d : Document) : String :=
  renderListing (program.imports.map Scope.renderImport)
    ((d.functions.filterMap program.function?).map program.toScope.renderFunction)

/-- The written form of a document does not depend on what documents there are. -/
theorem documentText_setDocuments (program : Program) (documents : List Document)
    (d : Document) :
    documentText { program with documents := documents } d = program.documentText d := rfl

theorem renderDocument_of_document? {program : Program} {id : DocumentId} {d : Document}
    (h : program.document? id = some d) : program.renderDocument id = program.documentText d := by
  rw [renderDocument, h]
  rfl

/-! ## What a written document says -/

/-- Texts that follow one that is not empty are set off by empty lines, in front of each. -/
theorem foldl_listing {out : String} (h : out ≠ "") (texts : List String) :
    texts.foldl (fun out text => (if out = "" then out else out ++ "\n") ++ text) out =
      String.intercalate "\n" (out :: texts) := by
  induction texts generalizing out with
  | nil => exact String.intercalate_singleton.symm
  | cons text texts ih =>
    have hmore : out ++ "\n" ++ text ≠ "" := by simp [h]
    rw [List.foldl_cons, if_neg h, ih hmore, String.intercalate_cons_append,
      String.intercalate_cons_cons]

/-- The lines of the imports, if there are any, and the functions are set off by empty lines. -/
theorem renderListing_eq_intercalate (imports : List String) {functions : List String}
    (h : ∀ text ∈ functions, text ≠ "") :
    renderListing imports functions = String.intercalate "\n"
      ((if imports = [] then [] else [String.join (imports.map (· ++ "\n"))]) ++ functions) := by
  rw [renderListing]
  cases imports with
  | nil =>
    cases functions with
    | nil => rfl
    | cons text functions =>
      have htext : text ≠ "" := h text List.mem_cons_self
      rw [List.map_nil, List.foldl_cons, String.join_nil, if_pos rfl, String.empty_append,
        foldl_listing htext, if_pos rfl, List.nil_append]
  | cons first imports =>
    have hlines : String.join ((first :: imports).map (· ++ "\n")) ≠ "" := by simp
    rw [foldl_listing hlines, if_neg (List.cons_ne_nil first imports), List.singleton_append]

example : renderListing ["import acme/shop;"] ["function place() \x7b\n\x7d\n", "function main()"] =
    "import acme/shop;\n\nfunction place() \x7b\n\x7d\n\nfunction main()" := by
  decide

theorem renderFunction_ne_empty (scope : Scope) (f : FunctionDecl) :
    scope.renderFunction f ≠ "" := by
  simp [Scope.renderFunction, Scope.functionLines]

/-- What a document with these functions says, part by part: the imports, one on each line, if
there are any, and then every function. -/
def parts (program : Program) (functions : List FunctionDecl) : List String :=
  (if program.imports = [] then []
    else [String.join (program.imports.map fun i => Scope.renderImport i ++ "\n")]) ++
  functions.map program.toScope.renderFunction

theorem documentText_eq_intercalate (program : Program) (d : Document) :
    program.documentText d =
      String.intercalate "\n" (program.parts (d.functions.filterMap program.function?)) := by
  have htexts : ∀ text ∈ (d.functions.filterMap program.function?).map
      program.toScope.renderFunction, text ≠ "" := by
    intro text htext
    obtain ⟨f, -, rfl⟩ := List.mem_map.1 htext
    exact renderFunction_ne_empty _ f
  rw [documentText, renderListing_eq_intercalate _ htexts, parts, List.map_map]
  simp only [List.map_eq_nil_iff]
  rfl

/-! ## Committing as a map -/

/-- A document is written out in its place. -/
theorem commitSource_eq {program : Program} {front back : List Document} {d : Document}
    (hdocuments : program.documents = front ++ d :: back) :
    program.commitSource front.length =
      { program with
        documents := front ++ { d with source := program.documentText d } :: back } := by
  have hfound : program.document? front.length = some d := by
    simp [document?, hdocuments]
  rw [commitSource, renderDocument_of_document? hfound, hdocuments,
    List.modify_eq_take_cons_drop (by simp)]
  simp [List.drop_append]

/-- The visitor that commits texts puts every function back where it was. -/
theorem visitFunction_plain (acc : Unit × Program) (id : FunctionId) :
    visitFunction (fun state f => (state, f)) acc id = acc := by
  rw [visitFunction]
  cases hf : acc.2.function? id with
  | none => rfl
  | some f =>
    obtain ⟨hlt, rfl⟩ := List.getElem?_eq_some_iff.1 hf
    simp

theorem visitDocument_plain (program : Program) (entry : Document × DocumentId) :
    visitDocument (fun state f => (state, f)) ((), program) entry =
      ((), program.commitSource entry.2) := by
  have hfold : ∀ (ids : List FunctionId) (acc : Unit × Program),
      ids.foldl (visitFunction fun state f => (state, f)) acc = acc := by
    intro ids acc
    induction ids with
    | nil => rfl
    | cons id ids ih => rw [List.foldl_cons, visitFunction_plain, ih]
  rw [visitDocument, hfold]

/-- The program whose documents are all written out, up to a place in the list. -/
theorem foldl_visitDocument_plain (program : Program) (front back : List Document) :
    (back.zipIdx front.length).foldl (visitDocument fun state f => (state, f))
        ((), { program with
          documents := front.map (fun d => { d with source := program.documentText d }) ++ back })
      = ((), { program with
          documents := (front ++ back).map fun d =>
            { d with source := program.documentText d } }) := by
  induction back generalizing front with
  | nil => simp
  | cons d back ih =>
    have hcommit := @commitSource_eq { program with
      documents := front.map (fun d => { d with source := program.documentText d }) ++ d :: back }
      (front.map fun d => { d with source := program.documentText d }) back d rfl
    rw [List.length_map, documentText_setDocuments] at hcommit
    rw [List.zipIdx_cons, List.foldl_cons, visitDocument_plain, hcommit]
    simpa using ih (front ++ [d])

/-- **Committing the texts writes every document out and leaves the rest.** -/
theorem commitSources_eq (program : Program) :
    program.commitSources = { program with
      documents := program.documents.map fun d =>
        { d with source := program.documentText d } } :=
  congrArg Prod.snd (foldl_visitDocument_plain program [] program.documents)

/-! ## What committing keeps -/

@[simp] theorem toScope_commitSources (program : Program) :
    program.commitSources.toScope = program.toScope := by
  rw [commitSources_eq]

@[simp] theorem functions_commitSources (program : Program) :
    program.commitSources.functions = program.functions := by
  rw [commitSources_eq]

@[simp] theorem function?_commitSources (program : Program) (id : FunctionId) :
    program.commitSources.function? id = program.function? id := by
  rw [function?, function?, functions_commitSources]

@[simp] theorem nameOf?_commitSources (program : Program) (id : FunctionId) :
    program.commitSources.nameOf? id = program.nameOf? id := by
  rw [nameOf?, nameOf?, function?_commitSources]

@[simp] theorem order_commitSources (program : Program) :
    program.commitSources.order = program.order := by
  rw [commitSources_eq, order, order, List.flatMap_map]

@[simp] theorem documentOf?_commitSources (program : Program) (id : FunctionId) :
    program.commitSources.documentOf? id = program.documentOf? id := by
  rw [commitSources_eq, documentOf?, documentOf?, List.findIdx?_map]
  rfl

/-- **The texts of a written program are its own.**  Committing them again changes
nothing. -/
@[simp] theorem commitSources_commitSources (program : Program) :
    program.commitSources.commitSources = program.commitSources := by
  rw [commitSources_eq program.commitSources, commitSources_eq program, List.map_map]
  rfl

end LambdaDeploy.Program
