import LambdaDeploy.Handler.Registration
import LambdaDeploy.Outline.Reader
import LambdaDeploy.Proofs.Program.Consistency

/-!
# Programs that can be built

`Program.Built` holds of the programs that the operations of this library make:
an empty program or one read from an outline, and whatever adding, editing,
visiting and registering make of it.

* `register_cases` — a run either leaves the program alone, or applies the edit of
  its analysis and commits the texts.
* `consistent_of_ofOutline` — what is read from an outline is consistent.
* `Built.consistent` — **every program that can be built is consistent.**
-/

namespace LambdaDeploy.Program

variable {program result : Program}

/-! ## Runs -/

/-- A run that succeeds has analysed the program.  Without changes to make it leaves
the program as it is; else it applies them and commits the documents' texts. -/
theorem register_cases {dispatcher : Dispatcher} {analysis : Analysis}
    (h : program.register dispatcher = .ok (analysis, result)) :
    program.analyze dispatcher = .ok analysis ∧
      (analysis.edit = [] ∧ result = program ∨
        analysis.edit ≠ [] ∧ ∃ added edited,
          program.apply analysis.edit = .ok (added, edited) ∧ result = edited.commitSources) := by
  obtain ⟨found, hanalyze, hrest⟩ := exists_of_bind_eq_ok h
  split at hrest
  · rename_i hempty
    cases hrest
    exact ⟨hanalyze, .inl ⟨List.isEmpty_iff.1 hempty, rfl⟩⟩
  · rename_i hedit
    obtain ⟨⟨added, edited⟩, happly, hlast⟩ := exists_of_bind_eq_ok hrest
    cases hlast
    exact ⟨hanalyze, .inr ⟨by simpa using hedit, added, edited, happly, rfl⟩⟩

theorem Consistent.register {dispatcher : Dispatcher} {analysis : Analysis}
    (h : program.Consistent) (hrun : program.register dispatcher = .ok (analysis, result)) :
    result.Consistent := by
  obtain ⟨-, ⟨-, rfl⟩ | ⟨-, added, edited, happly, rfl⟩⟩ := register_cases hrun
  · exact h
  · obtain ⟨hfits, heq⟩ := apply_eq_ok_iff.1 happly
    have hedited : edited.Consistent := by
      rw [show edited = (program.mutateAll analysis.edit).2 by rw [heq]]
      exact h.mutateAll hfits
    exact hedited.visit _ ()

/-! ## Outlines -/

theorem Consistent.addFunctions {document : DocumentId} {functions : List FunctionDecl}
    (h : program.Consistent)
    (hadd : program.addFunctions document functions = .ok result) : result.Consistent := by
  induction functions generalizing program with
  | nil =>
    cases hadd
    exact h
  | cons f functions ih =>
    obtain ⟨⟨id, next⟩, hf, hrest⟩ := exists_of_bind_eq_ok hadd
    exact ih (h.addFunction hf) hrest

theorem Consistent.addBlock {block : Outline.Block} (h : program.Consistent)
    (hadd : program.addBlock block = .ok result) : result.Consistent := by
  obtain ⟨functions, -, hrest⟩ := exists_of_bind_eq_ok hadd
  exact (h.addDocument _ _).addFunctions hrest

/-- What is read from an outline is consistent. -/
theorem consistent_of_ofOutline {text : String} (h : ofOutline text = .ok program) :
    program.Consistent := by
  obtain ⟨layout, -, hblocks⟩ := exists_of_bind_eq_ok h
  exact foldlM_invariant Consistent (fun _ _ _ hprogram hadd => hprogram.addBlock hadd)
    (consistent_ofScope layout.scope) hblocks

/-! ## All operations -/

/-- The programs that the operations of this library make. -/
inductive Built : Program → Prop
  | empty (package : Package) : Built (Program.empty package)
  | ofOutline {text : String} {program : Program}
      (read : Program.ofOutline text = .ok program) : Built program
  | setPackage {program : Program} (built : Built program) (package : Package) :
      Built { program with package := package }
  | addImport {program : Program} (built : Built program) (i : Import) :
      Built (program.addImport i)
  | declareType {program : Program} (built : Built program) (name : String) :
      Built (program.declareType name)
  | addDocument {program : Program} (built : Built program) (name source : String) :
      Built (program.addDocument name source)
  | addFunction {program result : Program} {document : DocumentId} {f : FunctionDecl}
      {id : FunctionId} (built : Built program)
      (added : program.addFunction document f = .ok (id, result)) : Built result
  | apply {program result : Program} {edit : Edit} {ids : List FunctionId}
      (built : Built program) (applied : program.apply edit = .ok (ids, result)) : Built result
  | visit {program : Program} {σ : Type} (built : Built program) (visitor : Visitor σ)
      (state : σ) : Built (program.visit visitor state).2
  | register {program result : Program} {dispatcher : Dispatcher} {analysis : Analysis}
      (built : Built program)
      (run : program.register dispatcher = .ok (analysis, result)) : Built result

theorem Built.appendFunction (built : program.Built) {document : DocumentId}
    (hd : document < program.documents.length) (f : FunctionDecl) :
    (program.appendFunction document f).Built :=
  built.addFunction (if_pos hd)

/-- **Every program that can be built is consistent.** -/
theorem Built.consistent (h : program.Built) : program.Consistent := by
  induction h with
  | empty package => exact consistent_ofScope _
  | ofOutline read => exact consistent_of_ofOutline read
  | setPackage _ _ ih => exact ih.of_shape rfl rfl
  | addImport _ _ ih => exact ih.of_shape rfl rfl
  | declareType _ _ ih => exact ih.of_shape rfl rfl
  | addDocument _ name source ih => exact ih.addDocument name source
  | addFunction _ added ih => exact ih.addFunction added
  | apply _ applied ih =>
    obtain ⟨hfits, heq⟩ := apply_eq_ok_iff.1 applied
    have hresult := ih.mutateAll hfits
    rwa [heq] at hresult
  | visit _ visitor state ih => exact ih.visit visitor state
  | register _ run ih => exact ih.register run

end LambdaDeploy.Program
