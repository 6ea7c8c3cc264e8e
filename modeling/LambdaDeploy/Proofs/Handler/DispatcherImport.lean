import LambdaDeploy.Proofs.Handler.Agreement
import LambdaDeploy.Proofs.Program.Transcript

/-!
# The import of the dispatcher

An annotation of an outline is one of an imported package or of the program's own.  So a handler
comes with an import of the dispatcher, unless the program itself is the dispatcher's package.

* `package_of_readAnnotation` — the packages that an annotation can belong to.
* `exists_import_of_marks` — what a marked function of an outline tells about the imports.
* `analyze_eq_unresolved_iff` — **when the analysis of an outline misses the dispatcher.**
-/

namespace LambdaDeploy

open Outline

variable {scope : Scope} {program : Program} {dispatcher : Dispatcher} {text : String}

/-! ## Packages of annotations -/

/-- An annotation belongs to the program's own package or to an imported one. -/
theorem package_of_readAnnotation {reference : List Char} {a : Annotation}
    (h : readAnnotation scope reference = .ok a) :
    a.package = scope.package ∨ ∃ i ∈ scope.imports, a.package = i.package := by
  unfold readAnnotation at h
  dsimp only at h
  split at h
  · split at h
    · rename_i i himport
      cases h
      exact .inr ⟨i, List.mem_of_find?_eq_some himport, rfl⟩
    · cases h
  · split at h
    · cases h
    · cases h
      exact .inl rfl

namespace Program

/-- A function of an outline that is marked as a handler comes with an import of the dispatcher,
or the program's own package is the dispatcher's. -/
theorem exists_import_of_marks (hread : ofOutline text = .ok program) {id : FunctionId}
    {f : FunctionDecl} (hf : (id, f) ∈ program.declared) (hmarks : dispatcher.marks f = true) :
    program.package.isNamed dispatcher.org dispatcher.package = true ∨
      ∃ i ∈ program.imports, i.package.isNamed dispatcher.org dispatcher.package = true := by
  have hmem : f ∈ program.functions := List.mem_of_getElem? (mem_declared_iff.1 hf).2
  obtain ⟨document, p, hp, -⟩ := exists_passage_of_mem_functions hread hmem
  obtain ⟨a, ha, hnamed⟩ := List.any_eq_true.1 hmarks
  obtain ⟨hnamed, -⟩ := Bool.and_eq_true_iff.1 hnamed
  obtain ⟨line, -, reference, -, hreference⟩ := exists_of_mem_forall₂ hp.marks ha
  rcases package_of_readAnnotation hreference with hown | ⟨i, hi, himported⟩
  · exact .inl (hown ▸ hnamed)
  · exact .inr ⟨i, hi, himported ▸ hnamed⟩

end Program

/-! ## Analyses that miss the dispatcher -/

/-- **When the analysis of an outline misses the dispatcher**: exactly if there are handlers and
the dispatcher is not imported, and then the program is the dispatcher's package itself. -/
theorem analyze_eq_unresolved_iff (hread : Program.ofOutline text = .ok program)
    (org package : String) :
    program.analyze dispatcher = .error (.dispatcherPackageUnresolved org package) ↔
      org = dispatcher.org ∧ package = dispatcher.package ∧
        program.handlers dispatcher ≠ [] ∧
        program.package.isNamed dispatcher.org dispatcher.package = true ∧
        ∀ i ∈ program.imports, i.package.isNamed dispatcher.org dispatcher.package = false := by
  have hmissing : program.importOf? dispatcher.org dispatcher.package = none ↔
      ∀ i ∈ program.imports, i.package.isNamed dispatcher.org dispatcher.package = false := by
    simp [Scope.importOf?]
  rw [Program.analyze_eq_error_iff]
  constructor
  · rintro ⟨hhandlers, ⟨himport, heq⟩ | ⟨_, -, -, ⟨-, heq⟩ | ⟨-, -, heq⟩⟩⟩
    · cases heq
      refine ⟨rfl, rfl, hhandlers, ?_, hmissing.1 himport⟩
      obtain ⟨⟨id, f⟩, hentry⟩ := List.exists_mem_of_ne_nil _ hhandlers
      obtain ⟨hid, hfound, hmarks⟩ :=
        Program.mem_candidates_iff.1 (Program.mem_handlers_iff.1 hentry).1
      rcases Program.exists_import_of_marks hread (Program.mem_declared_iff.2 ⟨hid, hfound⟩) hmarks
        with hown | ⟨i, hi, hnamed⟩
      · exact hown
      · rw [hmissing.1 himport i hi] at hnamed
        cases hnamed
    · cases heq
    · cases heq
  · rintro ⟨rfl, rfl, hhandlers, -, himport⟩
    exact ⟨hhandlers, .inl ⟨hmissing.2 himport, rfl⟩⟩

/-- An outline of the dispatcher's own package, with a handler in it. -/
def dispatcherItself : String := "module ballerinax/awslambda;
type Context;
document orders \x7b
@Function
function place(Context ctx, json order) \x7b
\x7d
\x7d
"

theorem exists_handlers_without_import :
    ∃ program, Program.ofOutline dispatcherItself = .ok program ∧
      program.handlers {} ≠ [] ∧ program.imports = [] ∧
      program.package.isNamed "ballerinax" "awslambda" = true := by
  have h : (Program.ofOutline dispatcherItself).toOption.any (fun program =>
      decide (program.handlers {} ≠ [] ∧ program.imports = [] ∧
        program.package.isNamed "ballerinax" "awslambda" = true)) = true := by
    rw [Program.ofOutline, show dispatcherItself = String.ofList _ from rfl, String.toList_ofList]
    decide +kernel
  obtain ⟨program, hread, hprogram⟩ := exists_ok_of_any h
  exact ⟨program, hread, of_decide_eq_true hprogram⟩

theorem analyze_eq_unresolved_iff_itself :
    ∃ program, Program.ofOutline dispatcherItself = .ok program ∧
      program.analyze {} = .error (.dispatcherPackageUnresolved "ballerinax" "awslambda") := by
  obtain ⟨program, hread, hhandlers, himports, hown⟩ := exists_handlers_without_import
  refine ⟨program, hread, (analyze_eq_unresolved_iff hread _ _).2 ⟨rfl, rfl, hhandlers, hown, ?_⟩⟩
  simp [himports]

/-- The handlers of the dispatcher's own package need no import, and the analysis misses one. -/
theorem dispatcher_unresolved_in_own_package :
    ¬ ∀ (text : String) (program : Program), Program.ofOutline text = .ok program →
        ∀ org package, program.analyze {} ≠ .error (.dispatcherPackageUnresolved org package) := by
  intro hresolves
  obtain ⟨program, hread, hhandlers, himports, -⟩ := exists_handlers_without_import
  have himport : program.importOf? "ballerinax" "awslambda" = none := by
    simp [Scope.importOf?, himports]
  exact hresolves _ program hread _ _
    (Program.analyze_eq_error_iff.2 ⟨hhandlers, .inl ⟨himport, rfl⟩⟩)

end LambdaDeploy
