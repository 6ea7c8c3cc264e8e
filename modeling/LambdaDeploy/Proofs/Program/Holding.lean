import LambdaDeploy.Outline.Reader
import LambdaDeploy.Proofs.Outline.Printable
import Mathlib.Data.List.Forall2

/-!
# Programs that hold given documents

A document refers to its functions by their ids.  What it holds are the functions that these ids
stand for.

* `Program.contents` — what a document of a program holds.
* `Program.addFunctions_eq` — new functions take the next ids, in order.
* `Program.Holds` — the program has the documents of some drafts, up to places and statements.
* `Program.Holds.addBlock` — **a block that declares a draft's functions adds the draft.**
-/

namespace LambdaDeploy

namespace Program

variable {program : Program} {scope : Scope} {drafts : List Draft} {draft : Draft}
  {document : DocumentId}

/-- What a document of a program holds: its name, and what its ids stand for, without places. -/
def contents (program : Program) (document : Document) : String × List (Option FunctionDecl) :=
  (document.name, document.functions.map fun id => (program.function? id).map FunctionDecl.unplaced)

/-! ## Adding functions -/

/-- New functions take the next ids, in order. -/
theorem addFunctions_eq (hd : document < program.documents.length) (functions : List FunctionDecl) :
    program.addFunctions document functions =
      .ok { program with
        documents := program.documents.modify document fun d =>
          { d with functions :=
              d.functions ++ List.range' program.functions.length functions.length }
        functions := program.functions ++ functions } := by
  induction functions generalizing program with
  | nil =>
    have hsame : program.documents.modify document (fun d => { d with functions := d.functions }) =
        program.documents := List.modify_id _ _
    simp only [addFunctions, List.length_nil, List.range'_zero, List.append_nil, hsame]
  | cons f functions ih =>
    have hnext : document < (program.appendFunction document f).documents.length := by
      simpa [appendFunction] using hd
    rw [addFunctions, addFunction, if_pos hd]
    simp only [bind, Except.bind]
    rw [ih hnext]
    simp [appendFunction, List.modify_modify_eq, Function.comp_def, List.range'_succ]

/-- The new ids stand for the new functions. -/
theorem map_function?_range' (old new : List FunctionDecl) :
    (List.range' old.length new.length).map (fun id => (old ++ new)[id]?) = new.map some := by
  refine List.ext_getElem (by simp) fun i hi _ => ?_
  have hlt : i < new.length := by simpa using hi
  simp [hlt]

theorem modify_length_concat {α : Type} (l : List α) (a : α) (update : α → α) :
    (l ++ [a]).modify l.length update = l ++ [update a] := by
  induction l with
  | nil => rfl
  | cons b l ih => rw [List.cons_append, List.length_cons, List.modify_succ_cons, ih]; rfl

/-- A block becomes one more document, whose functions take the next ids. -/
theorem addBlock_eq {block : Outline.Block} {functions : List FunctionDecl}
    (h : block.functions program.toScope = .ok functions) :
    program.addBlock block =
      .ok { program with
        documents := program.documents ++
          [⟨block.name, List.range' program.functions.length functions.length,
            String.ofList (Text.dedent (block.lines.map (·.text)))⟩]
        functions := program.functions ++ functions } := by
  rw [addBlock]
  simp only [bind, Except.bind, h]
  rw [addFunctions_eq (by simp [addDocument])]
  simp [addDocument, modify_length_concat]

/-! ## What a program holds -/

/-- The program has the documents of some drafts, and their functions in the same order. -/
structure Holds (program : Program) (scope : Scope) (drafts : List Draft) : Prop where
  sameScope : program.toScope = scope
  documents : program.documents.map program.contents = drafts.map (Draft.asRead scope)
  functions : program.functions.map FunctionDecl.unplaced =
    (drafts.flatMap (·.functions)).map (FunctionDecl.asRead scope)
  known : ∀ d ∈ program.documents, ∀ id ∈ d.functions, id < program.functions.length

theorem holds_ofScope (scope : Scope) : (ofScope scope).Holds scope [] :=
  ⟨rfl, rfl, rfl, fun _ hd => absurd hd List.not_mem_nil⟩

/-- **A block that declares a draft's functions adds the draft.** -/
theorem Holds.addBlock (h : program.Holds scope drafts) {block : Outline.Block}
    {placed : List FunctionDecl} (hname : block.name = draft.name)
    (hfunctions : block.functions scope = .ok placed)
    (hplaced : placed.map FunctionDecl.unplaced = draft.functions.map (FunctionDecl.asRead scope)) :
    ∃ next, program.addBlock block = .ok next ∧ next.Holds scope (drafts ++ [draft]) := by
  refine ⟨_, addBlock_eq (h.sameScope ▸ hfunctions), h.sameScope, ?documents, ?functions, ?known⟩
  case documents =>
    have hold : ∀ d ∈ program.documents,
        contents { program with functions := program.functions ++ placed } d =
          program.contents d := by
      intro d hd
      refine Prod.ext rfl (List.map_congr_left fun id hid => ?_)
      rw [function?, function?, List.getElem?_append_left (h.known d hd id hid)]
    have hnew : (List.range' program.functions.length placed.length).map (fun id =>
        ((program.functions ++ placed)[id]?).map FunctionDecl.unplaced) =
          draft.functions.map fun f => some (f.asRead scope) := by
      calc
        _ = ((List.range' program.functions.length placed.length).map fun id =>
              (program.functions ++ placed)[id]?).map (Option.map FunctionDecl.unplaced) := by
          rw [List.map_map]
          rfl
        _ = (placed.map FunctionDecl.unplaced).map some := by
          rw [map_function?_range', List.map_map, List.map_map]
          rfl
        _ = _ := by
          rw [hplaced, List.map_map]
          rfl
    rw [List.map_append, List.map_append, ← h.documents, List.map_singleton, List.map_singleton]
    exact congrArg₂ (· ++ ·) (List.map_congr_left hold) (congrArg ([·]) (Prod.ext hname hnew))
  case functions =>
    rw [List.map_append, h.functions, hplaced, List.flatMap_append, List.map_append]
    simp
  case known =>
    intro d hd id hid
    rw [List.length_append]
    rcases List.mem_append.1 hd with hd | hd
    · exact Nat.lt_add_right _ (h.known d hd id hid)
    · rw [List.mem_singleton.1 hd] at hid
      exact (List.mem_range'_1.1 hid).2

end Program

end LambdaDeploy
