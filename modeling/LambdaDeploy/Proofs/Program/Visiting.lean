import LambdaDeploy.Proofs.Handler.Agreement
import LambdaDeploy.Proofs.Program.Arena
import LambdaDeploy.Proofs.Program.SourceText

/-!
# What a visit makes of a program

A visit goes through the documents, and writes each of them out as soon as its functions are
done, while those of later documents are still as they were.  The text is right all the same: it
depends on the document's own functions, and no other document holds any of them, so nothing that
comes later touches it.

* `Visitor.through` — a visitor, handed some functions in turn.
* `foldl_visitFunction` — visiting some ids is handing over their functions in turn.
* `foldl_visitDocument` — visiting some documents is visiting their ids, and writing them out.
* `Consistent.declared_visit` — **every function is visited once, in declaration order, as it was
  before the visit.**
* `Written` — a document has its written form: the imports, and then its functions in order.
* `Consistent.written_visit` — **every document has its written form in the program that the visit
  leaves.**
* `visit_rewrites` — both together, for any visitor, for the visit that changes no function, and
  for runs.
-/

namespace LambdaDeploy

/-! ## Visitors on their own -/

namespace Visitor

variable {σ : Type} (visitor : Visitor σ)

/-- What a visitor makes of some functions in turn, and the state it ends in. -/
def through (state : σ) : List FunctionDecl → σ × List FunctionDecl
  | [] => (state, [])
  | f :: functions =>
    let (state, g) := visitor state f
    let (state, rest) := through state functions
    (state, g :: rest)

/-- The visitor, and a record of the functions that it is handed. -/
def logged : Visitor (σ × List FunctionDecl) := fun (state, seen) f =>
  let (state, g) := visitor state f
  ((state, seen ++ [f]), g)

/-- The record has the functions in turn. -/
theorem through_logged (state : σ) (seen functions : List FunctionDecl) :
    (visitor.logged.through (state, seen) functions).1.2 = seen ++ functions := by
  induction functions generalizing state seen with
  | nil => exact (List.append_nil seen).symm
  | cons f functions ih =>
    show (visitor.logged.through ((visitor state f).1, seen ++ [f]) functions).1.2 = _
    rw [ih, List.append_assoc]
    rfl

end Visitor

namespace Program

variable {program other : Program} {σ : Type} {id : FunctionId} {d : Document}
  {ids : List FunctionId}

/-! ## Visiting functions -/

section Visiting

variable (visitor : Visitor σ)

theorem toScope_visitFunction (acc : σ × Program) (id : FunctionId) :
    (visitFunction visitor acc id).2.toScope = acc.2.toScope := by
  rw [visitFunction]
  split <;> rfl

theorem toScope_foldl_visitFunction (acc : σ × Program) (ids : List FunctionId) :
    (ids.foldl (visitFunction visitor) acc).2.toScope = acc.2.toScope := by
  induction ids generalizing acc with
  | nil => rfl
  | cons id ids ih => rw [List.foldl_cons, ih, toScope_visitFunction]

theorem visitFunction_of_none {acc : σ × Program} (hf : acc.2.function? id = none) :
    visitFunction visitor acc id = acc := by
  rw [visitFunction, hf]

theorem visitFunction_of_some {acc : σ × Program} {f : FunctionDecl}
    (hf : acc.2.function? id = some f) :
    visitFunction visitor acc id =
      ((visitor acc.1 f).1,
        { acc.2 with functions := acc.2.functions.set id (visitor acc.1 f).2 }) := by
  rw [visitFunction, hf]

theorem function?_visitFunction_self {acc : σ × Program} {f : FunctionDecl}
    (hf : acc.2.function? id = some f) :
    (visitFunction visitor acc id).2.function? id = some (visitor acc.1 f).2 := by
  rw [visitFunction_of_some visitor hf]
  exact List.getElem?_set_self (lt_of_function? hf)

/-- The functions under other ids stay as they are. -/
theorem function?_visitFunction_of_ne (acc : σ × Program) {id other : FunctionId}
    (h : other ≠ id) :
    (visitFunction visitor acc id).2.function? other = acc.2.function? other := by
  rw [visitFunction]
  split
  · rfl
  · simp [function?, Ne.symm h]

/-- **Visiting some ids is handing over their functions in turn**: each id then stands for what
became of its function, and the other ids stand for what they did. -/
theorem foldl_visitFunction (hids : ids.Nodup) (acc : σ × Program) :
    (ids.foldl (visitFunction visitor) acc).1 =
        (visitor.through acc.1 (ids.filterMap acc.2.function?)).1 ∧
      ids.filterMap (ids.foldl (visitFunction visitor) acc).2.function? =
        (visitor.through acc.1 (ids.filterMap acc.2.function?)).2 ∧
      ∀ id ∉ ids, (ids.foldl (visitFunction visitor) acc).2.function? id = acc.2.function? id := by
  induction ids generalizing acc with
  | nil => exact ⟨rfl, rfl, fun _ _ => rfl⟩
  | cons id ids ih =>
    obtain ⟨hnew, hids⟩ := List.nodup_cons.1 hids
    obtain ⟨hstate, hfunctions, hothers⟩ := ih hids (visitFunction visitor acc id)
    -- the functions that come later are not touched by this one
    have hlater : ids.filterMap (visitFunction visitor acc id).2.function? =
        ids.filterMap acc.2.function? :=
      List.filterMap_congr fun other hother =>
        function?_visitFunction_of_ne visitor acc (ne_of_mem_of_not_mem hother hnew)
    have houtside : ∀ other ∉ id :: ids,
        (ids.foldl (visitFunction visitor) (visitFunction visitor acc id)).2.function? other =
          acc.2.function? other := by
      intro other hother
      rw [List.mem_cons, not_or] at hother
      rw [hothers other hother.2, function?_visitFunction_of_ne visitor acc hother.1]
    rw [hlater] at hstate hfunctions
    rw [List.foldl_cons]
    cases hf : acc.2.function? id with
    | none =>
      have hnone := (hothers id hnew).trans
        ((congrArg (·.2.function? id) (visitFunction_of_none visitor hf)).trans hf)
      rw [visitFunction_of_none visitor hf] at hstate hfunctions hnone houtside ⊢
      rw [List.filterMap_cons_none hf, List.filterMap_cons_none hnone]
      exact ⟨hstate, hfunctions, houtside⟩
    | some f =>
      have hsome := (hothers id hnew).trans (function?_visitFunction_self visitor hf)
      rw [List.filterMap_cons_some hf, List.filterMap_cons_some hsome, hstate, hfunctions,
        visitFunction_of_some visitor hf]
      rw [visitFunction_of_some visitor hf] at houtside
      exact ⟨rfl, rfl, houtside⟩

/-! ## Visiting documents -/

/-- The written form of a document depends on its own functions alone. -/
theorem documentText_congr (hscope : other.toScope = program.toScope)
    (hfunctions : ∀ id ∈ d.functions, other.function? id = program.function? id) :
    other.documentText d = program.documentText d := by
  rw [documentText, documentText, hscope, List.filterMap_congr hfunctions]

/-- Visiting sees the state and the functions, and not the documents. -/
theorem foldl_visitFunction_congr (ids : List FunctionId) (acc other : σ × Program)
    (hstate : acc.1 = other.1) (hfunctions : acc.2.functions = other.2.functions) :
    (ids.foldl (visitFunction visitor) acc).1 = (ids.foldl (visitFunction visitor) other).1 ∧
      (ids.foldl (visitFunction visitor) acc).2.functions =
        (ids.foldl (visitFunction visitor) other).2.functions := by
  induction ids generalizing acc other with
  | nil => exact ⟨hstate, hfunctions⟩
  | cons id ids ih =>
    have hfound : acc.2.function? id = other.2.function? id := by
      rw [function?, function?, hfunctions]
    rw [List.foldl_cons, List.foldl_cons]
    cases hf : other.2.function? id with
    | none =>
      rw [visitFunction_of_none visitor (hfound.trans hf), visitFunction_of_none visitor hf]
      exact ih _ _ hstate hfunctions
    | some f =>
      rw [visitFunction_of_some visitor (hfound.trans hf), visitFunction_of_some visitor hf]
      exact ih _ _ (by rw [hstate]) (by rw [hstate, hfunctions])

/-- What a document has that a visit does not change. -/
def frame (d : Document) : String × List FunctionId := (d.name, d.functions)

/-- **Visiting some documents is visiting their ids, and writing them out.**  The documents in
front of them are written already; none of them holds an id of a later one, so they stay
written. -/
theorem foldl_visitDocument {front back : List Document} {acc : σ × Program}
    (hdocuments : acc.2.documents = front ++ back)
    (hwritten : ∀ d ∈ front, d.source = acc.2.documentText d)
    (hapart : ((front ++ back).flatMap (·.functions)).Nodup) :
    let visited := (back.flatMap (·.functions)).foldl (visitFunction visitor) acc
    let last := (back.zipIdx front.length).foldl (visitDocument visitor) acc
    last.1 = visited.1 ∧ last.2.functions = visited.2.functions ∧
      last.2.toScope = acc.2.toScope ∧
      last.2.documents.map frame = (front ++ back).map frame ∧
      ∀ d ∈ last.2.documents, d.source = last.2.documentText d := by
  induction back generalizing front acc with
  | nil =>
    rw [List.append_nil] at hdocuments
    simpa [hdocuments] using hwritten
  | cons d back ih =>
    have hdisjoint : ∀ e ∈ front, ∀ id ∈ e.functions, id ∉ d.functions := by
      intro e he id hid hmem
      rw [List.flatMap_append, List.flatMap_cons, List.nodup_append] at hapart
      exact hapart.2.2 id (List.mem_flatMap.2 ⟨e, he, hid⟩) id (List.mem_append_left _ hmem) rfl
    have hnodup : d.functions.Nodup := by
      rw [List.flatMap_append, List.flatMap_cons] at hapart
      exact (List.nodup_append.1 (List.nodup_append.1 hapart).2.1).1
    -- the functions of this document are visited, and then it is written out
    obtain ⟨hsame, -⟩ := foldl_visitFunction_shape visitor d.functions acc
    have hscope := toScope_foldl_visitFunction visitor acc d.functions
    obtain ⟨-, -, houtside⟩ := foldl_visitFunction visitor hnodup acc
    have hstep : visitDocument visitor acc (d, front.length) =
        ((d.functions.foldl (visitFunction visitor) acc).1,
          (d.functions.foldl (visitFunction visitor) acc).2.commitSource front.length) := rfl
    rw [List.zipIdx_cons, List.foldl_cons, List.flatMap_cons, List.foldl_append, hstep]
    generalize d.functions.foldl (visitFunction visitor) acc = middle at *
    have hcommitted := congrArg (·.documents) (commitSource_eq (hsame.trans hdocuments))
    have hfront : ∀ e ∈ front ++ [{ d with source := middle.2.documentText d }],
        e.source = middle.2.documentText e := by
      intro e he
      rcases List.mem_append.1 he with he | he
      · rw [hwritten e he]
        exact (documentText_congr hscope fun id hid => houtside id (hdisjoint e he id hid)).symm
      · rw [List.mem_singleton.1 he]
        rfl
    have hrest := @ih (front ++ [{ d with source := middle.2.documentText d }])
      (middle.1, middle.2.commitSource front.length)
      (by rw [hcommitted, List.append_assoc, List.singleton_append]) hfront (by simpa using hapart)
    rw [List.length_append, List.length_singleton] at hrest
    obtain ⟨hstate, hfunctions, hscopes, hframe, hall⟩ := hrest
    obtain ⟨hstate', hfunctions'⟩ := foldl_visitFunction_congr visitor
      (back.flatMap (·.functions)) (middle.1, middle.2.commitSource front.length) middle rfl rfl
    refine ⟨hstate.trans hstate', hfunctions.trans hfunctions', hscopes.trans hscope, ?_, hall⟩
    rw [hframe]
    simp [frame]

/-! ## Visiting a program -/

/-- What a visit leaves, in terms of the ids in declaration order. -/
theorem Consistent.visit_cases (h : program.Consistent) (state : σ) :
    let visited := program.order.foldl (visitFunction visitor) (state, program)
    let last := program.visit visitor state
    last.1 = visited.1 ∧ last.2.functions = visited.2.functions ∧
      last.2.toScope = program.toScope ∧
      last.2.documents.map frame = program.documents.map frame ∧
      ∀ d ∈ last.2.documents, d.source = last.2.documentText d :=
  @foldl_visitDocument σ visitor [] program.documents (state, program) rfl
    (fun _ hd => absurd hd List.not_mem_nil) h.nodup_order

theorem order_eq_of_frame (h : other.documents.map frame = program.documents.map frame) :
    other.order = program.order := by
  have hids := congrArg (List.flatMap Prod.snd) h
  rwa [List.flatMap_map, List.flatMap_map] at hids

/-- The declared functions, id by id. -/
theorem Consistent.declared_eq_zip (h : program.Consistent) :
    program.declared = program.order.zip (program.declared.map (·.2)) := by
  have hids : program.declared.map (·.1) = program.order := by
    rw [h.declared_eq_map, List.map_map]
    exact List.map_id _
  rw [← hids, ← List.unzip_fst, ← List.unzip_snd, List.zip_unzip]

/-- **Every function is visited once, in declaration order, as it was before the visit**, and its
id then stands for what became of it. -/
theorem Consistent.declared_visit (h : program.Consistent) (state : σ) :
    (program.visit visitor state).1 =
        (visitor.through state (program.declared.map (·.2))).1 ∧
      (program.visit visitor state).2.declared =
        program.order.zip (visitor.through state (program.declared.map (·.2))).2 := by
  obtain ⟨hstate, hfunctions, -, hframe, -⟩ := h.visit_cases visitor state
  obtain ⟨hthrough, hmade, -⟩ := foldl_visitFunction visitor h.nodup_order (state, program)
  have horder := order_eq_of_frame hframe
  have hfound : (program.visit visitor state).2.function? =
      (program.order.foldl (visitFunction visitor) (state, program)).2.function? := by
    funext id
    rw [function?, function?, hfunctions]
  have hafter := (h.visit visitor state).declared_eq_zip
  rw [map_snd_declared, horder, hfound, hmade] at hafter
  rw [map_snd_declared]
  exact ⟨hstate.trans hthrough, hafter⟩

end Visiting

/-! ## Written documents -/

/-- The document has its written form in the program, which lists the imports, one on each line,
and then the functions that its ids stand for, in order; an empty line sets each of them off. -/
structure Written (program : Program) (document : DocumentId) (d : Document) : Prop where
  rendered : d.source = program.renderDocument document
  listed : ∃ functions : List FunctionDecl,
    d.functions.map program.function? = functions.map some ∧
      d.source = String.intercalate "\n" (program.parts functions)

/-- Every id in a document stands for a function. -/
theorem Consistent.map_function? (h : program.Consistent) (hd : d ∈ program.documents) :
    d.functions.map program.function? = (d.functions.filterMap program.function?).map some := by
  have hsome : ∀ f? ∈ d.functions.map program.function?, f?.isSome = true := by
    intro f? hf
    obtain ⟨id, hid, rfl⟩ := List.mem_map.1 hf
    have hlt := h.mem_order_iff.1 (mem_order_iff_exists.2 ⟨d, hd, hid⟩)
    simp [function?, hlt]
  rw [List.map_filterMap_some_eq_filter_map_isSome, List.filter_eq_self.2 hsome]

theorem Consistent.written (h : program.Consistent) {document : DocumentId}
    (hd : program.document? document = some d) (hsource : d.source = program.documentText d) :
    program.Written document d where
  rendered := hsource.trans (renderDocument_of_document? hd).symm
  listed := ⟨_, h.map_function? (List.mem_of_getElem? hd),
    hsource.trans (program.documentText_eq_intercalate d)⟩

/-- **Every document has its written form in the program that the visit leaves.** -/
theorem Consistent.written_visit (h : program.Consistent) (visitor : Visitor σ) (state : σ)
    {document : DocumentId} (hd : (program.visit visitor state).2.document? document = some d) :
    (program.visit visitor state).2.Written document d := by
  obtain ⟨-, -, -, -, hall⟩ := h.visit_cases visitor state
  exact (h.visit visitor state).written hd (hall d (List.mem_of_getElem? hd))

/-- The documents of a program whose texts are committed have their written forms. -/
theorem source_commitSources (hd : d ∈ program.commitSources.documents) :
    d.source = program.commitSources.documentText d := by
  rw [commitSources_eq] at hd
  obtain ⟨e, -, rfl⟩ := List.mem_map.1 hd
  rw [documentText, commitSources_eq]
  rfl

/-- **A visit rewrites every function and commits what it leaves.**  For any visitor with a state
of its own: it is called once for every function, in declaration order, with the function as it
was before the visit; every id then stands for what the visitor gave for its function, and scope,
names and ids are as before.  Every document has its written form in the program that the visit
leaves: the imports, and then its functions in order.  The visit that changes no function leaves
all of them as they are, and doing it twice is doing it once; and so every document has its written
form after a run that names handlers. -/
theorem visit_rewrites {σ : Type} (built : program.Built) (visitor : Visitor σ) (state : σ) :
    let functions := program.declared.map (·.2)
    let result := (program.visit visitor state).2
    functions.Perm program.functions ∧
    (program.visit visitor.logged (state, [])).1.2 = functions ∧
    (program.visit visitor state).1 = (visitor.through state functions).1 ∧
    program.declared = program.order.zip functions ∧
    result.declared = program.order.zip (visitor.through state functions).2 ∧
    result.functions.length = program.functions.length ∧
    result.toScope = program.toScope ∧
    result.documents.map frame = program.documents.map frame ∧
    (∀ document d, result.document? document = some d → result.Written document d) ∧
    program.commitSources.functions = program.functions ∧
    program.commitSources.commitSources = program.commitSources ∧
    ∀ dispatcher analysis last, program.register dispatcher = .ok (analysis, last) →
      analysis.generated ≠ [] → ∀ document d, last.document? document = some d →
        last.Written document d := by
  intro functions result
  have h := built.consistent
  obtain ⟨hstate, hdeclared⟩ := h.declared_visit visitor state
  obtain ⟨-, -, hscope, hframe, -⟩ := h.visit_cases visitor state
  refine ⟨?calledOnce, ?called, hstate, h.declared_eq_zip, hdeclared,
    (visit_shape visitor state program).2, hscope, hframe,
    fun document d => h.written_visit visitor state, functions_commitSources program,
    commitSources_commitSources program, ?runs⟩
  case calledOnce =>
    have hperm := h.declared_perm.map Prod.snd
    rwa [List.map_snd_zip (by simp)] at hperm
  case called =>
    rw [(h.declared_visit visitor.logged (state, [])).1, visitor.through_logged]
    rfl
  case runs =>
    intro dispatcher analysis last hrun hgenerated document d hd
    obtain ⟨hanalyze, ⟨hedit, -⟩ | ⟨-, -, edited, -, rfl⟩⟩ := register_cases hrun
    · exact absurd ((edit_eq_nil_iff hanalyze).1.1 hedit) hgenerated
    · exact (h.register hrun).written hd (source_commitSources (List.mem_of_getElem? hd))

/-- A program whose functions are not in the order of their ids. -/
def crossed : Program :=
  let first := (empty ⟨"acme", "shop", "0.0.0"⟩).addDocument "first" ""
  let documents := first.addDocument "second" ""
  (documents.appendFunction 1 { name := "late" }).appendFunction 0 { name := "early" }

/-- A visitor that counts, and gives every function a line of its own. -/
def numbering : Visitor Nat := fun n f => (n + 1, { f with location := ⟨f.name, n, 1⟩ })

theorem visit_rewrites_sample :
    crossed.Built ∧ (crossed.visit numbering 5).1 = 7 ∧
      (crossed.visit numbering 5).2.declared =
        [(1, { name := "early", location := ⟨"early", 5, 1⟩ }),
          (0, { name := "late", location := ⟨"late", 6, 1⟩ })] ∧
      ∀ document d, (crossed.visit numbering 5).2.document? document = some d →
        (crossed.visit numbering 5).2.Written document d := by
  have hbuilt : crossed.Built :=
    Built.appendFunction (Built.appendFunction (.addDocument (.addDocument (.empty _) _ _) _ _)
      (by decide) _) (by decide) _
  obtain ⟨-, -, hstate, -, hdeclared, -, -, -, hsource, -⟩ := visit_rewrites hbuilt numbering 5
  exact ⟨hbuilt, hstate, hdeclared, hsource⟩

end Program

end LambdaDeploy
