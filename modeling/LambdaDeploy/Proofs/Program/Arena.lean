import LambdaDeploy.Proofs.Program.Built
import LambdaDeploy.Proofs.Program.InPlace
import Mathlib.Data.List.Nodup

/-!
# The ids of a program that is changed in place

A program keeps its functions apart from its documents, and everything that walks through
it goes by the ids in the documents.  Here a program goes through any operations in any
order, and some of them may fail halfway: what the ids mean must not depend on that.

* `Program.operate` — the program after an operation, whether it succeeds or fails.
* `Consistent.operate` — **no operation makes a program inconsistent**, and none that fails
  does.
* `Consistent.declared_perm` — a walk through the documents meets every function once.
* `Consistent.documentOf?_eq_some_iff` — a look-up gives the only document of a function.
* `ids_after_operations` — **what the ids mean after any operations.**
-/

namespace LambdaDeploy

/-- An operation on a program. -/
inductive Operation : Type 1 where
  | setPackage (package : Package)
  | addImport (i : Import)
  | declareType (name : String)
  | addDocument (name source : String)
  | addFunction (document : DocumentId) (f : FunctionDecl)
  | apply (edit : Edit)
  | visit {σ : Type} (visitor : Visitor σ) (state : σ)
  | register (dispatcher : Dispatcher)

namespace Program

variable {program : Program} {id : FunctionId} {f : FunctionDecl}

/-! ## Operations that may fail -/

/-- The program after an operation.  If the operation fails, what it has changed until then
stays changed. -/
def operate (program : Program) : Operation → Program
  | .setPackage package => { program with package := package }
  | .addImport i => program.addImport i
  | .declareType name => program.declareType name
  | .addDocument name source => program.addDocument name source
  | .addFunction document f => (program.addFunctionInPlace document f).2
  | .apply edit => (program.applyInPlace edit).2
  | .visit visitor state => (program.visit visitor state).2
  | .register dispatcher => (program.registerInPlace dispatcher).2

/-- The programs from which operations can start: one without imports, types and documents,
or one that is read from an outline. -/
def Initial (program : Program) : Prop :=
  (∃ package, program = empty package) ∨ ∃ text, ofOutline text = .ok program

theorem Consistent.keeping {α : Type} {outcome : Except BuildError (α × Program)}
    (h : program.Consistent)
    (succeeds : ∀ a result, outcome = .ok (a, result) → result.Consistent) :
    (program.keeping outcome).2.Consistent := by
  cases outcome with
  | error e => exact h
  | ok success => exact succeeds success.1 success.2 rfl

/-- **No operation makes a program inconsistent**, whether it succeeds or fails. -/
theorem Consistent.operate (h : program.Consistent) (operation : Operation) :
    (program.operate operation).Consistent := by
  cases operation with
  | setPackage package => exact h.of_shape rfl rfl
  | addImport i => exact h.of_shape rfl rfl
  | declareType name => exact h.of_shape rfl rfl
  | addDocument name source => exact h.addDocument name source
  | addFunction document f => exact h.keeping fun id result hadd => h.addFunction hadd
  | apply edit =>
    rw [Program.operate, applyInPlace_eq]
    refine h.keeping fun ids result happly => ?_
    obtain ⟨hfits, heq⟩ := apply_eq_ok_iff.1 happly
    have hresult := h.mutateAll hfits
    rwa [heq] at hresult
  | visit visitor state => exact h.visit visitor state
  | register dispatcher =>
    rw [Program.operate, registerInPlace_eq]
    exact h.keeping fun analysis result hrun => h.register hrun

theorem Initial.consistent (h : program.Initial) : program.Consistent := by
  obtain ⟨package, rfl⟩ | ⟨text, hread⟩ := h
  · exact consistent_ofScope _
  · exact consistent_of_ofOutline hread

theorem Consistent.foldl_operate (h : program.Consistent) (operations : List Operation) :
    (operations.foldl Program.operate program).Consistent := by
  induction operations generalizing program with
  | nil => exact h
  | cons operation operations ih => exact ih (h.operate operation)

/-! ## Walking through the documents -/

/-- Every id in a document has its function, so a walk passes none over. -/
theorem Consistent.declared_eq_map (h : program.Consistent) :
    program.declared = program.order.map fun id => (id, program.functions.getD id default) := by
  have hfound : ∀ id ∈ program.order, ((program.function? id).map fun f => (id, f)) =
      some (id, program.functions.getD id default) := by
    intro id hid
    simp [function?, h.mem_order_iff.1 hid]
  rw [declared, List.filterMap_congr hfound, ← List.filterMap_eq_map]
  rfl

/-- A walk through the documents meets every function once, and nothing else. -/
theorem Consistent.declared_perm (h : program.Consistent) :
    program.declared.Perm ((List.range program.functions.length).zip program.functions) := by
  rw [h.declared_eq_map]
  refine (h.complete.map _).trans (.of_eq (List.ext_getElem (by simp) fun id hid _ => ?_))
  have hlt : id < program.functions.length := by simpa using hid
  simp [hlt]

/-! ## The document of a function -/

/-- No two documents hold the same id. -/
theorem Consistent.document_unique (h : program.Consistent) {i j : DocumentId} {d d' : Document}
    (hd : program.document? i = some d) (hd' : program.document? j = some d')
    (hid : id ∈ d.functions) (hid' : id ∈ d'.functions) : i = j := by
  have hapart : program.documents.Pairwise fun d d' => d.functions.Disjoint d'.functions :=
    (List.nodup_flatMap.1 h.nodup_order).2
  obtain ⟨hi, rfl⟩ := List.getElem?_eq_some_iff.1 hd
  obtain ⟨hj, rfl⟩ := List.getElem?_eq_some_iff.1 hd'
  rw [List.pairwise_iff_getElem] at hapart
  rcases Nat.lt_trichotomy i j with hlt | heq | hlt
  · exact absurd hid' (hapart i j hi hj hlt hid)
  · exact heq
  · exact absurd hid (hapart j i hj hi hlt hid')

/-- A look-up gives the document that holds the id. -/
theorem Consistent.documentOf?_eq_some_iff (h : program.Consistent) {document : DocumentId} :
    program.documentOf? id = some document ↔
      ∃ d, program.document? document = some d ∧ id ∈ d.functions := by
  constructor
  · intro hfind
    obtain ⟨hlt, hmem, -⟩ := List.findIdx?_eq_some_iff_getElem.1 hfind
    exact ⟨_, List.getElem?_eq_getElem hlt, by simpa using hmem⟩
  · rintro ⟨d, hd, hid⟩
    have horder : id ∈ program.order := mem_order_iff_exists.2 ⟨d, List.mem_of_getElem? hd, hid⟩
    obtain ⟨found, hfound, -⟩ := exists_documentOf? horder
    obtain ⟨hlt, hmem, -⟩ := List.findIdx?_eq_some_iff_getElem.1 hfound
    rw [hfound, h.document_unique (List.getElem?_eq_getElem hlt) hd (by simpa using hmem) hid]

/-- **What the ids mean after any operations.**  The ids of a document increase, and the
documents together hold every id once and no other.  So every id in a document has its
function, a walk through the documents meets every function once, and the look-up of an
id's document finds the only one that holds it, and none for an id without a function. -/
theorem ids_after_operations {start : Program} (initial : start.Initial)
    (operations : List Operation) :
    let program := operations.foldl operate start
    (∀ d ∈ program.documents, d.functions.Pairwise (· < ·)) ∧
    program.order.Perm (List.range program.functions.length) ∧
    program.declared.map (·.1) = program.order ∧
    program.declared.Perm ((List.range program.functions.length).zip program.functions) ∧
    (∀ id document, program.documentOf? id = some document ↔
      ∃ d, program.document? document = some d ∧ id ∈ d.functions) ∧
    (∀ id i j d d', program.document? i = some d → program.document? j = some d' →
      id ∈ d.functions → id ∈ d'.functions → i = j) ∧
    ∀ id, (∃ document, program.documentOf? id = some document) ↔
      id < program.functions.length := by
  intro program
  have h : program.Consistent := initial.consistent.foldl_operate operations
  refine ⟨h.increasing, h.complete, ?_, h.declared_perm,
    fun id document => h.documentOf?_eq_some_iff, fun id i j d d' => h.document_unique, ?_⟩
  · rw [h.declared_eq_map, List.map_map]
    exact List.map_id _
  intro id
  rw [← h.mem_order_iff]
  constructor
  · rintro ⟨document, hfind⟩
    obtain ⟨d, hd, hid⟩ := h.documentOf?_eq_some_iff.1 hfind
    exact mem_order_iff_exists.2 ⟨d, List.mem_of_getElem? hd, hid⟩
  · intro hid
    obtain ⟨document, hfind, -⟩ := exists_documentOf? hid
    exact ⟨document, hfind⟩

/-- Operations of which the third and the sixth fail, the sixth at its second change. -/
def sampleOperations : List Operation :=
  [.addDocument "orders" "", .addFunction 0 { name := "place" },
    .addFunction 7 { name := "lost" }, .addDocument "start" "",
    .addFunction 1 { name := "main" },
    .apply [.add 0 { name := "lost" }, .replaceBody 9 []],
    .apply [.add 0 { name := "cancel" }, .replaceBody 1 []],
    .visit (fun (n : Nat) f => (n + 1, { f with isPublic := true })) 0, .register {}]

theorem ids_after_operations_sample :
    (sampleOperations.foldl operate (empty ⟨"acme", "shop", "1.0.0"⟩)).order = [0, 2, 1] ∧
      [0, 2, 1].Perm (List.range 3) ∧
      ∃ document, (sampleOperations.foldl operate
        (empty ⟨"acme", "shop", "1.0.0"⟩)).documentOf? 2 = some document := by
  have horder : (sampleOperations.foldl operate
      (empty ⟨"acme", "shop", "1.0.0"⟩)).order = [0, 2, 1] := by decide
  have hlength : (sampleOperations.foldl operate
      (empty ⟨"acme", "shop", "1.0.0"⟩)).functions.length = 3 := by decide
  obtain ⟨-, hperm, -, -, -, -, hdocument⟩ :=
    ids_after_operations (.inl ⟨⟨"acme", "shop", "1.0.0"⟩, rfl⟩) sampleOperations
  rw [horder, hlength] at hperm
  exact ⟨horder, hperm, (hdocument 2).2 (by rw [hlength]; decide)⟩

end Program

end LambdaDeploy
