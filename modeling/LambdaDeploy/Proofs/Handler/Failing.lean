import LambdaDeploy.Proofs.Handler.Accounting
import LambdaDeploy.Proofs.Handler.Agreement

/-!
# When an analysis fails

Three things end an analysis: there is nothing to register, the entry point cannot be used, or what
generated code calls is not there.  Only the last is an error.  It is one for programs with a
handler only, and a missing package comes before the entry point, a missing function after it.

* `Scope.FirstImport` — the first import of a package.
* `Program.HasHandler` — some function of the program is a handler.
* `analyze_fails_iff` — **when an analysis fails, and with which error.**
-/

namespace LambdaDeploy

/-! ## Imports of a package -/

/-- The import is of the package `org`/`name`, in any version, and none before it is. -/
def Scope.FirstImport (scope : Scope) (org name : String) (i : Import) : Prop :=
  (i.package.org = org ∧ i.package.name = name) ∧
    ∃ before after, scope.imports = before ++ i :: after ∧
      ∀ other ∈ before, ¬(other.package.org = org ∧ other.package.name = name)

theorem Scope.importOf?_eq_some_iff {scope : Scope} {org name : String} {i : Import} :
    scope.importOf? org name = some i ↔ scope.FirstImport org name i := by
  rw [importOf?, List.find?_eq_some_iff_append, Package.isNamed_iff, FirstImport]
  simp only [Bool.not_eq_true', ← Bool.not_eq_true, Package.isNamed_iff]

theorem Scope.importOf?_eq_none_iff {scope : Scope} {org name : String} :
    scope.importOf? org name = none ↔
      ∀ i ∈ scope.imports, ¬(i.package.org = org ∧ i.package.name = name) := by
  simp [importOf?, Package.isNamed]

namespace Program

variable {program : Program} {dispatcher : Dispatcher}

/-! ## Handlers -/

/-- Some function of the program is marked and has the signature of a handler. -/
def HasHandler (program : Program) (dispatcher : Dispatcher) : Prop :=
  ∃ f ∈ program.functions, dispatcher.marks f = true ∧
    dispatcher.checkSignature program.toScope f = .ok ()

/-- In a consistent program no handler is missed. -/
theorem Consistent.handlers_ne_nil_iff (hp : program.Consistent) :
    program.handlers dispatcher ≠ [] ↔ program.HasHandler dispatcher := by
  constructor
  · intro hne
    obtain ⟨⟨id, f⟩, hmem⟩ := List.exists_mem_of_ne_nil _ hne
    obtain ⟨hcandidate, haccepts⟩ := mem_handlers_iff.1 hmem
    obtain ⟨-, hf, hmarks⟩ := mem_candidates_iff.1 hcandidate
    refine ⟨f, List.mem_of_getElem? hf, hmarks, ?_⟩
    rw [Dispatcher.accepts] at haccepts
    cases hcheck : dispatcher.checkSignature program.toScope f with
    | ok => rfl
    | error violation =>
      rw [hcheck] at haccepts
      cases haccepts
  · rintro ⟨f, hf, hmarks, hcheck⟩ hnone
    obtain ⟨entry, hentry, rfl⟩ := List.mem_map.1 (hp.map_declared_perm.mem_iff.2 hf)
    have haccepts : dispatcher.accepts program.toScope entry.2 = true := by
      rw [Dispatcher.accepts, hcheck]
      rfl
    have hmem : entry ∈ program.handlers dispatcher :=
      List.mem_filter.2 ⟨List.mem_filter.2 ⟨hentry, hmarks⟩, haccepts⟩
    rw [hnone] at hmem
    cases hmem

/-- The look-up of the entry point gives a function or none unless it reports a conflict. -/
theorem exists_entryPoint?_iff_no_conflict :
    (∃ existing, program.entryPoint? dispatcher = .ok existing) ↔
      ∀ conflict, program.entryPoint? dispatcher ≠ .error conflict := by
  cases program.entryPoint? dispatcher with
  | ok existing => simp
  | error conflict => simp

end Program

/-! ## Failures -/

/-- **When an analysis fails, and with which error.**  Some function is a handler, and either the
dispatcher's package is not imported, or it is, the look-up of the entry point reports no conflict,
and the first import of the package lacks a function that generated code calls: the one that
registers handlers, or, if this is there, the one that starts the dispatch.  Every other analysis
succeeds. -/
theorem analyze_fails_iff {program : Program} (built : program.Built) (dispatcher : Dispatcher) :
    let NotImported : Prop := ∀ i ∈ program.imports,
      ¬(i.package.org = dispatcher.org ∧ i.package.name = dispatcher.package)
    let Lacks (i : Import) : Prop :=
      program.FirstImport dispatcher.org dispatcher.package i ∧
      (∀ conflict, program.entryPoint? dispatcher ≠ .error conflict) ∧
      (dispatcher.registerFunction ∉ i.exports ∨ dispatcher.processFunction ∉ i.exports)
    (∀ e, program.analyze dispatcher = .error e ↔
      program.HasHandler dispatcher ∧
        (NotImported ∧ e = .dispatcherPackageUnresolved dispatcher.org dispatcher.package ∨
          ∃ i, Lacks i ∧ e = .dispatcherSymbolUnresolved i.package.path
            (if dispatcher.registerFunction ∉ i.exports then dispatcher.registerFunction
              else dispatcher.processFunction))) ∧
    (¬(program.HasHandler dispatcher ∧ (NotImported ∨ ∃ i, Lacks i)) →
      ∃ analysis, program.analyze dispatcher = .ok analysis) := by
  intro NotImported Lacks
  have herror : ∀ e, program.analyze dispatcher = .error e ↔
      program.HasHandler dispatcher ∧
        (NotImported ∧ e = .dispatcherPackageUnresolved dispatcher.org dispatcher.package ∨
          ∃ i, Lacks i ∧ e = .dispatcherSymbolUnresolved i.package.path
            (if dispatcher.registerFunction ∉ i.exports then dispatcher.registerFunction
              else dispatcher.processFunction)) := by
    intro e
    rw [Program.analyze_eq_error_iff, built.consistent.handlers_ne_nil_iff,
      Scope.importOf?_eq_none_iff]
    refine and_congr_right fun _ => or_congr_right (exists_congr fun i => ?_)
    rw [Scope.importOf?_eq_some_iff, Program.exists_entryPoint?_iff_no_conflict, and_assoc,
      and_assoc]
    refine and_congr_right fun _ => and_congr_right fun _ => ?_
    -- the function that registers handlers is looked for first
    by_cases hregister : dispatcher.registerFunction ∈ i.exports
    · simp [hregister]
    · simp [hregister]
  refine ⟨herror, fun hother => ?_⟩
  cases hanalyze : program.analyze dispatcher with
  | ok analysis => exact ⟨analysis, rfl⟩
  | error e =>
    obtain ⟨hhandler, hcause⟩ := (herror e).1 hanalyze
    refine absurd ⟨hhandler, ?_⟩ hother
    rcases hcause with ⟨hmissing, -⟩ | ⟨i, hlacks, -⟩
    · exact .inl hmissing
    · exact .inr ⟨i, hlacks⟩

/-- A program that imports the dispatcher twice, the first time without the function that starts
the dispatch.  One of its marked functions is no handler. -/
def Program.stalled : Program :=
  ((((((empty ⟨"acme", "shop", "1.0.0"⟩).addImport
    (.plain sampleDispatch.package ["__register"])).addImport sampleDispatch
    ).addDocument "orders" ""
    ).appendFunction 0 (sampleMarked "broken" [])
    ).appendFunction 0 (sampleMarked "place" sampleParams))

theorem Program.built_stalled : stalled.Built := by
  refine .appendFunction (.appendFunction (.addDocument (.addImport (.addImport (.empty _) _) _)
    _ _) ?_ _) ?_ _
  all_goals decide

theorem analyze_fails_iff_stalled :
    Program.stalled.analyze {} =
      .error (.dispatcherSymbolUnresolved "ballerinax/awslambda" "__process") := by
  obtain ⟨herror, -⟩ := analyze_fails_iff Program.built_stalled {}
  refine (herror _).2 ⟨⟨Program.sampleMarked "place" Program.sampleParams, ?_, ?_, ?_⟩,
    .inr ⟨.plain Program.sampleDispatch.package ["__register"], ⟨⟨⟨rfl, rfl⟩, [], _, rfl, ?_⟩,
      ?_, ?_⟩, rfl⟩⟩
  · decide
  · decide
  · rfl
  · exact fun _ h => absurd h List.not_mem_nil
  · exact Program.exists_entryPoint?_iff_no_conflict.1 ⟨none, rfl⟩
  · exact .inr (by decide)

end LambdaDeploy
