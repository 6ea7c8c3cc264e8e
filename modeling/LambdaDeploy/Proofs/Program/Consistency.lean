import LambdaDeploy.Program.Edit
import LambdaDeploy.Program.Visit
import LambdaDeploy.Proofs.Program.Lookup
import LambdaDeploy.Proofs.Steps

/-!
# Consistent programs

A program keeps its functions in one list and the ids of each document in
another.  `Program.Consistent` says that the two agree: every function stands in
exactly one document, no document holds an id without a function, and the ids of
a document increase.  Every operation on programs keeps this.

* `Consistent.of_shape` — only the ids in the documents and the number of
  functions matter.
* `order_appendFunction` — a new function comes in somewhere, and the others keep
  their order.
* `Consistent.mutateAll` — edits keep a program consistent.
* `Consistent.visit` — so do visits.
-/

namespace LambdaDeploy

/-- What a change is made to exists in the program. -/
def Mutation.Fits (program : Program) : Mutation → Prop
  | add document _ => document < program.documents.length
  | replaceBody function _ => function < program.functions.length
  | replaceFunction function _ => function < program.functions.length

namespace Program

variable {program : Program} {document : DocumentId} {id : FunctionId}

/-- Every function stands in exactly one document, and in order of its id. -/
structure Consistent (program : Program) : Prop where
  /-- Within a document, later functions have larger ids. -/
  increasing : ∀ d ∈ program.documents, d.functions.Pairwise (· < ·)
  /-- The documents together hold every id once, and nothing else. -/
  complete : program.order.Perm (List.range program.functions.length)

/-! ## What consistency says -/

theorem Consistent.mem_order_iff (h : program.Consistent) :
    id ∈ program.order ↔ id < program.functions.length := by
  rw [h.complete.mem_iff, List.mem_range]

theorem Consistent.nodup_order (h : program.Consistent) : program.order.Nodup :=
  h.complete.nodup_iff.2 List.nodup_range

theorem Consistent.mem_order_of_function? (h : program.Consistent) {f : FunctionDecl}
    (hf : program.function? id = some f) : id ∈ program.order :=
  h.mem_order_iff.2 (lt_of_function? hf)

/-- Under distinct names every function is found by its name. -/
theorem Consistent.findFunction?_name (h : program.Consistent) (distinct : program.names.Nodup)
    {f : FunctionDecl} (hf : program.function? id = some f) :
    program.findFunction? f.name = some id :=
  findFunction?_eq_some_of_unique (h.mem_order_of_function? hf) (nameOf?_of_function? hf)
    fun _ _ hother => eq_of_nameOf?_eq distinct hother (nameOf?_of_function? hf)

/-- A name is not found if and only if no function has it. -/
theorem Consistent.findFunction?_eq_none_iff (h : program.Consistent) {name : String} :
    program.findFunction? name = none ↔ name ∉ program.names := by
  rw [Program.findFunction?_eq_none_iff]
  constructor
  · intro hnone hmem
    obtain ⟨id, hid⟩ := List.mem_iff_getElem?.1 hmem
    rw [← nameOf?_eq_getElem?] at hid
    obtain ⟨f, hf, -⟩ := exists_of_nameOf? hid
    exact hnone id (h.mem_order_of_function? hf) hid
  · intro hnone id _ hid
    rw [nameOf?_eq_getElem?] at hid
    exact hnone (List.mem_of_getElem? hid)

/-- Consistency depends on the ids in the documents and on the number of functions
alone. -/
theorem Consistent.of_shape {other : Program} (h : program.Consistent)
    (hdocuments : other.documents.map (·.functions) = program.documents.map (·.functions))
    (hfunctions : other.functions.length = program.functions.length) : other.Consistent := by
  have horder : other.order = program.order := by
    rw [order, order, List.flatMap_def, List.flatMap_def, hdocuments]
  constructor
  · intro d hd
    have hmem : d.functions ∈ program.documents.map (·.functions) :=
      hdocuments ▸ List.mem_map_of_mem hd
    obtain ⟨d', hd', heq⟩ := List.mem_map.1 hmem
    exact heq ▸ h.increasing d' hd'
  · rw [horder, hfunctions]
    exact h.complete

/-! ## Adding -/

theorem consistent_ofScope (scope : Scope) : (ofScope scope).Consistent :=
  ⟨fun _ hd => absurd hd List.not_mem_nil, .refl _⟩

theorem order_addDocument (program : Program) (name source : String) :
    (program.addDocument name source).order = program.order := by
  simp [order, addDocument]

theorem Consistent.addDocument (h : program.Consistent) (name source : String) :
    (program.addDocument name source).Consistent := by
  refine ⟨fun d hd => ?_, ?_⟩
  · rcases List.mem_append.1 hd with hd | hd
    · exact h.increasing d hd
    · rw [List.mem_singleton.1 hd]
      exact .nil
  · rw [order_addDocument]
    exact h.complete

/-- **A new function comes in somewhere.**  The functions before it and those after
it keep their order. -/
theorem order_appendFunction (hd : document < program.documents.length) (f : FunctionDecl) :
    ∃ before after, program.order = before ++ after ∧
      (program.appendFunction document f).order =
        before ++ program.functions.length :: after := by
  obtain ⟨front, d, back, hsplit, -, hmodify⟩ :=
    List.exists_of_modify (fun d : Document =>
      { d with functions := d.functions ++ [program.functions.length] }) hd
  refine ⟨front.flatMap (·.functions) ++ d.functions, back.flatMap (·.functions), ?_, ?_⟩
  · simp [order, hsplit]
  · simp [order, appendFunction, hmodify]

theorem Consistent.appendFunction (h : program.Consistent)
    (hd : document < program.documents.length) (f : FunctionDecl) :
    (program.appendFunction document f).Consistent := by
  refine ⟨fun d hmem => ?_, ?_⟩
  · obtain ⟨i, hi, rfl⟩ := List.mem_iff_getElem.1 hmem
    have hlt : i < program.documents.length := by simpa [Program.appendFunction] using hi
    have hold := h.increasing _ (List.getElem_mem hlt)
    simp only [Program.appendFunction, List.getElem_modify]
    split
    · refine List.pairwise_append.2 ⟨hold, List.pairwise_singleton .., fun a ha b hb => ?_⟩
      rw [List.mem_singleton.1 hb]
      exact h.mem_order_iff.1 (mem_order_iff_exists.2 ⟨_, List.getElem_mem hlt, ha⟩)
    · exact hold
  · obtain ⟨before, after, hold, hnew⟩ := order_appendFunction hd f
    rw [hnew, Program.appendFunction, List.length_append, List.length_singleton,
      List.range_succ]
    have hperm : (before ++ after).Perm (List.range program.functions.length) :=
      hold ▸ h.complete
    exact List.perm_middle.trans ((hperm.cons _).trans (List.perm_append_singleton _ _).symm)

theorem Consistent.addFunction (h : program.Consistent) {f : FunctionDecl} {result : Program}
    (hadd : program.addFunction document f = .ok (id, result)) : result.Consistent := by
  rw [Program.addFunction] at hadd
  split at hadd
  · rename_i hd
    cases hadd
    exact h.appendFunction hd f
  · cases hadd

/-! ## Editing -/

theorem check_eq_ok_iff {m : Mutation} : m.check program = .ok () ↔ m.Fits program := by
  cases m <;> simp only [Mutation.check, Mutation.Fits] <;> split <;> simp_all

/-- An edit is accepted exactly if each of its changes fits the program as it is
before the first of them. -/
theorem checkEdit_eq_ok_iff {edit : Edit} :
    program.checkEdit edit = .ok () ↔ ∀ m ∈ edit, m.Fits program := by
  induction edit with
  | nil => simp [checkEdit]
  | cons m edit ih =>
    rw [List.forall_mem_cons, ← ih, ← check_eq_ok_iff, checkEdit]
    constructor
    · intro h
      obtain ⟨⟨⟩, hm, hrest⟩ := exists_of_bind_eq_ok h
      exact ⟨hm, hrest⟩
    · rintro ⟨hm, hrest⟩
      rw [hm]
      exact hrest

/-- An accepted edit is carried out. -/
theorem apply_eq_ok_iff {edit : Edit} {result : List FunctionId × Program} :
    program.apply edit = .ok result ↔
      (∀ m ∈ edit, m.Fits program) ∧ program.mutateAll edit = result := by
  rw [← checkEdit_eq_ok_iff]
  constructor
  · intro h
    obtain ⟨⟨⟩, hcheck, hrest⟩ := exists_of_bind_eq_ok h
    exact ⟨hcheck, by simpa [pure, Except.pure] using hrest⟩
  · rintro ⟨hcheck, rfl⟩
    rw [apply, hcheck]
    rfl

theorem mutateAll_cons (program : Program) (m : Mutation) (edit : Edit) :
    (program.mutateAll (m :: edit)).2 = ((program.mutate m).2.mutateAll edit).2 := rfl

theorem Consistent.mutate (h : program.Consistent) {m : Mutation} (hm : m.Fits program) :
    (program.mutate m).2.Consistent := by
  cases m with
  | add document f => exact h.appendFunction hm f
  | replaceBody id body => exact h.of_shape rfl (List.length_modify ..)
  | replaceFunction id f => exact h.of_shape rfl (List.length_modify ..)

/-- A change that fits a program still fits it after another change. -/
theorem fits_mutate {m other : Mutation} (hm : m.Fits program) :
    m.Fits (program.mutate other).2 := by
  have hdocuments : (program.mutate other).2.documents.length = program.documents.length := by
    cases other <;> simp [Program.mutate, Program.appendFunction]
  have hfunctions : program.functions.length ≤ (program.mutate other).2.functions.length := by
    cases other <;> simp [Program.mutate, Program.appendFunction]
  cases m with
  | add document f => exact Nat.lt_of_lt_of_eq hm hdocuments.symm
  | replaceBody id body => exact Nat.lt_of_lt_of_le hm hfunctions
  | replaceFunction id f => exact Nat.lt_of_lt_of_le hm hfunctions

/-- **Edits keep a program consistent.** -/
theorem Consistent.mutateAll (h : program.Consistent) {edit : Edit}
    (hedit : ∀ m ∈ edit, m.Fits program) : (program.mutateAll edit).2.Consistent := by
  induction edit generalizing program with
  | nil => exact h
  | cons m edit ih =>
    rw [List.forall_mem_cons] at hedit
    exact ih (h.mutate hedit.1) fun other hother => fits_mutate (hedit.2 other hother)

/-! ## Visiting -/

section Visiting

variable {σ : Type} (visitor : Visitor σ)

theorem visitFunction_shape (acc : σ × Program) (id : FunctionId) :
    (visitFunction visitor acc id).2.documents = acc.2.documents ∧
      (visitFunction visitor acc id).2.functions.length = acc.2.functions.length := by
  rw [visitFunction]
  split <;> simp

theorem foldl_visitFunction_shape (ids : List FunctionId) (acc : σ × Program) :
    (ids.foldl (visitFunction visitor) acc).2.documents = acc.2.documents ∧
      (ids.foldl (visitFunction visitor) acc).2.functions.length = acc.2.functions.length := by
  induction ids generalizing acc with
  | nil => exact ⟨rfl, rfl⟩
  | cons id ids ih =>
    obtain ⟨hd, hf⟩ := visitFunction_shape visitor acc id
    obtain ⟨hd', hf'⟩ := ih (visitFunction visitor acc id)
    exact ⟨hd'.trans hd, hf'.trans hf⟩

theorem map_functions_commitSource (program : Program) (id : DocumentId) :
    (program.commitSource id).documents.map (·.functions) =
      program.documents.map (·.functions) := by
  refine List.ext_getElem (by simp [commitSource]) fun i _ _ => ?_
  simp only [commitSource, List.getElem_map, List.getElem_modify]
  split <;> rfl

/-- A visit moves no function: the ids in the documents stay, and no function is
added. -/
theorem visit_shape (state : σ) (program : Program) :
    (program.visit visitor state).2.documents.map (·.functions) =
        program.documents.map (·.functions) ∧
      (program.visit visitor state).2.functions.length = program.functions.length := by
  suffices h : ∀ (entries : List (Document × DocumentId)) (acc : σ × Program),
      (entries.foldl (visitDocument visitor) acc).2.documents.map (·.functions) =
          acc.2.documents.map (·.functions) ∧
        (entries.foldl (visitDocument visitor) acc).2.functions.length =
          acc.2.functions.length from h _ _
  intro entries
  induction entries with
  | nil => exact fun acc => ⟨rfl, rfl⟩
  | cons entry entries ih =>
    intro acc
    obtain ⟨hd, hf⟩ := foldl_visitFunction_shape visitor entry.1.functions acc
    obtain ⟨hd', hf'⟩ := ih (visitDocument visitor acc entry)
    refine ⟨hd'.trans ?_, hf'.trans hf⟩
    rw [← hd]
    exact map_functions_commitSource ..

/-- **Visits keep a program consistent.** -/
theorem Consistent.visit (h : program.Consistent) (state : σ) :
    (program.visit visitor state).2.Consistent :=
  h.of_shape (visit_shape visitor state program).1 (visit_shape visitor state program).2

end Visiting

end Program

end LambdaDeploy
