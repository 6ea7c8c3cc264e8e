import LambdaDeploy.Proofs.Deployment.Failing
import LambdaDeploy.Proofs.Handler.EntryPointBody
import LambdaDeploy.Proofs.Program.InPlace

/-!
# An analysis and its run

A run adds to its analysis that the edit is applied and the texts are written.  In a
consistent program neither can fail: what the analysis refers to is there.  So the analysis
alone decides whether the run succeeds, and whether there is anything to do.

* `analyze_eq_error_iff` — when an analysis fails, and with which error.
* `Consistent.fits_of_analyze` — the edit of an analysis fits the program.
* `Wiring.documentOf?_of_add_mem` — what it adds goes to documents of handlers.
* `edit_eq_nil_iff` — an analysis changes nothing exactly if it names no handler.
* `Consistent.register_eq_error_iff` — **a run fails exactly if its analysis does.**
* `register_agrees_with_analyze` — **a run does what its analysis says.**
-/

namespace LambdaDeploy

namespace Program

variable {program : Program} {dispatcher : Dispatcher} {e : BuildError}

/-! ## Analyses that fail -/

/-- What an analysis meets when it fails: there are handlers, but the dispatcher's package is
not imported, or the entry point is free and the import lacks one of the two functions that
generated code calls. -/
theorem analyze_eq_error_iff :
    program.analyze dispatcher = .error e ↔
      program.handlers dispatcher ≠ [] ∧
        (program.importOf? dispatcher.org dispatcher.package = none ∧
            e = .dispatcherPackageUnresolved dispatcher.org dispatcher.package ∨
          ∃ i, program.importOf? dispatcher.org dispatcher.package = some i ∧
            (∃ existing, program.entryPoint? dispatcher = .ok existing) ∧
            (dispatcher.registerFunction ∉ i.exports ∧
                e = .dispatcherSymbolUnresolved i.package.path dispatcher.registerFunction ∨
              dispatcher.registerFunction ∈ i.exports ∧
                dispatcher.processFunction ∉ i.exports ∧
                e = .dispatcherSymbolUnresolved i.package.path dispatcher.processFunction)) := by
  rw [analyze]
  by_cases hhandlers : program.handlers dispatcher = []
  · simp [hhandlers]
  · have hempty : (program.handlers dispatcher).isEmpty = false := by simpa using hhandlers
    simp only [hempty, Bool.false_eq_true, if_false, hhandlers, ne_eq, not_false_eq_true, true_and]
    cases himport : program.importOf? dispatcher.org dispatcher.package with
    | none => simp [eq_comm]
    | some i =>
      cases hentry : program.entryPoint? dispatcher with
      | error conflict => simp
      | ok existing =>
        have hplan := plan_eq i existing himport hentry hhandlers
        rw [found] at hplan
        simp only [hplan]
        by_cases hr : dispatcher.registerFunction ∈ i.exports
        · by_cases hp : dispatcher.processFunction ∈ i.exports
          · simp [hr, hp]
          · simp [hr, hp, eq_comm]
        · simp [hr, eq_comm]

/-- An analysis fails for want of the dispatcher's package or of one of its functions. -/
theorem dispatcher_of_analyze_eq_error (h : program.analyze dispatcher = .error e) :
    (∃ org package, e = .dispatcherPackageUnresolved org package) ∨
      ∃ package symbol, e = .dispatcherSymbolUnresolved package symbol := by
  obtain ⟨-, ⟨-, rfl⟩ | ⟨i, -, -, ⟨-, rfl⟩ | ⟨-, -, rfl⟩⟩⟩ := analyze_eq_error_iff.1 h
  · exact .inl ⟨_, _, rfl⟩
  · exact .inr ⟨_, _, rfl⟩
  · exact .inr ⟨_, _, rfl⟩

/-! ## The edit of an analysis -/

/-- The edit of an analysis fits the program. -/
theorem Consistent.fits_of_analyze (hp : program.Consistent) {analysis : Analysis}
    (h : program.analyze dispatcher = .ok analysis) :
    ∀ m ∈ analysis.edit, m.Fits program := by
  rcases analyze_cases h with ⟨-, rfl⟩ | ⟨conflict, -, -, rfl⟩ | ⟨w, rfl⟩
  · exact fun m hm => absurd hm List.not_mem_nil
  · exact fun m hm => absurd hm List.not_mem_nil
  · exact fun m hm => w.fits hp hm

end Program

/-- A function is added to the document of a handler. -/
theorem Wiring.documentOf?_of_add_mem {program : Program} {dispatcher : Dispatcher}
    (w : Wiring program dispatcher) (hp : program.Consistent) {document : DocumentId}
    {f : FunctionDecl} (h : .add document f ∈ w.edit) :
    ∃ entry ∈ program.handlers dispatcher, program.documentOf? entry.1 = some document := by
  rcases w.mem_edit_iff.1 h with ⟨entry, hentry, heq⟩ | heq
  · obtain ⟨home, hhome, -⟩ := exists_documentOf?_of_mem hp hentry
    rcases proxyMutation_cases program dispatcher entry with ⟨id, -, hcase⟩ | ⟨-, hcase⟩
    · rw [hcase] at heq
      cases heq
    · rw [hcase, hhome] at heq
      cases heq
      exact ⟨entry, hentry, hhome⟩
  · obtain ⟨first, hfirst, hhome, -⟩ := w.exists_handlerDocument hp
    rw [installation] at heq
    split at heq
    · cases heq
    · cases heq
      exact ⟨first, List.mem_of_head? hfirst, hhome⟩

/-! ## Analysis and run -/

namespace Program

variable {program : Program} {dispatcher : Dispatcher} {analysis : Analysis} {e : BuildError}

/-- An analysis counts the handlers that it names, and changes something for them only. -/
theorem edit_eq_nil_iff (h : program.analyze dispatcher = .ok analysis) :
    (analysis.edit = [] ↔ analysis.generated = []) ∧
      analysis.statistics.registered = analysis.generated.length := by
  rcases analyze_cases h with ⟨-, rfl⟩ | ⟨conflict, -, -, rfl⟩ | ⟨w, rfl⟩
  · exact ⟨iff_of_true rfl rfl, rfl⟩
  · exact ⟨iff_of_true rfl rfl, rfl⟩
  · refine ⟨iff_of_false w.edit_ne_nil w.generated_ne_nil, ?_⟩
    simp [Wiring.analysis]

/-- An analysis that changes nothing is the whole of its run. -/
theorem register_of_edit_eq_nil (h : program.analyze dispatcher = .ok analysis)
    (hedit : analysis.edit = []) : program.register dispatcher = .ok (analysis, program) := by
  rw [Program.register, h]
  show (if analysis.edit.isEmpty then _ else _) = _
  rw [hedit]
  rfl

/-- An analysis that succeeds is followed by a run that succeeds. -/
theorem Consistent.exists_register (hp : program.Consistent)
    (h : program.analyze dispatcher = .ok analysis) :
    ∃ result, program.register dispatcher = .ok (analysis, result) := by
  by_cases hedit : analysis.edit = []
  · exact ⟨program, register_of_edit_eq_nil h hedit⟩
  · rcases analyze_cases h with ⟨-, rfl⟩ | ⟨conflict, -, -, rfl⟩ | ⟨w, rfl⟩
    · exact absurd rfl hedit
    · exact absurd rfl hedit
    · exact ⟨w.result, w.register_eq hp⟩

/-- **A run fails exactly if its analysis does**, and with the same error. -/
theorem Consistent.register_eq_error_iff (hp : program.Consistent) :
    program.register dispatcher = .error e ↔ program.analyze dispatcher = .error e := by
  constructor
  · intro hrun
    cases h : program.analyze dispatcher with
    | error cause =>
      rw [Program.register, h] at hrun
      cases hrun
      rfl
    | ok analysis =>
      obtain ⟨result, hresult⟩ := hp.exists_register h
      rw [hresult] at hrun
      cases hrun
  · intro h
    rw [Program.register, h]
    rfl

end Program

/-- **A run does what its analysis says.**  It fails exactly if the analysis does, for want
of the dispatcher's package or one of its functions, and then leaves the program as it was.
What the analysis refers to is there: every declared id has its function, every handler its
document, and the edit is accepted.  An analysis has an empty edit if and only if it names
no handler and counts none; then the run leaves the program as it was, and packaging does
nothing on any machine. -/
theorem register_agrees_with_analyze {program : Program} (built : program.Built)
    (dispatcher : Dispatcher) :
    (∀ e, program.register dispatcher = .error e ↔ program.analyze dispatcher = .error e) ∧
    (∀ e, program.analyze dispatcher = .error e →
      program.registerInPlace dispatcher = (.error e, program) ∧
      (∀ id, e ≠ .unknownFunction id) ∧ ∀ id, e ≠ .unknownDocument id) ∧
    (∀ id ∈ program.order, ∃ f, program.function? id = some f) ∧
    (∀ entry ∈ program.handlers dispatcher, ∃ document,
      program.documentOf? entry.1 = some document ∧ document < program.documents.length) ∧
    ∀ analysis, program.analyze dispatcher = .ok analysis →
      (∃ added edited, program.apply analysis.edit = .ok (added, edited)) ∧
      (∃ result, program.register dispatcher = .ok (analysis, result)) ∧
      (∀ document f, .add document f ∈ analysis.edit →
        ∃ entry ∈ program.handlers dispatcher, program.documentOf? entry.1 = some document) ∧
      (analysis.edit = [] ↔ analysis.generated = []) ∧
      (analysis.generated = [] ↔ analysis.statistics.registered = 0) ∧
      (analysis.generated = [] →
        program.register dispatcher = .ok (analysis, program) ∧
        program.registerInPlace dispatcher = (.ok analysis, program) ∧
        ∀ (zip : ZipLibrary) (settings : Deployment) (executable : Bytes) (machine : Machine),
          (settings.package zip dispatcher executable program analysis.generated :
            ExceptT BuildError (StateM Machine) (Option Bytes)).run machine =
              (.ok none, machine)) := by
  have hp := built.consistent
  refine ⟨fun e => hp.register_eq_error_iff, ?_, ?_, ?_, ?_⟩
  · intro e h
    refine ⟨?_, ?_⟩
    · rw [Program.registerInPlace_eq, hp.register_eq_error_iff.2 h]
      rfl
    · rcases Program.dispatcher_of_analyze_eq_error h with
        ⟨org, package, rfl⟩ | ⟨package, symbol, rfl⟩
      · exact ⟨by simp, by simp⟩
      · exact ⟨by simp, by simp⟩
  · exact fun id hid => Program.exists_function?_of_lt (hp.mem_order_iff.1 hid)
  · exact fun entry hentry => Wiring.exists_documentOf?_of_mem hp hentry
  · intro analysis h
    obtain ⟨hedit, hcount⟩ := Program.edit_eq_nil_iff h
    refine ⟨⟨_, _, Program.apply_eq_ok_iff.2 ⟨hp.fits_of_analyze h, rfl⟩⟩, hp.exists_register h,
      ?_, hedit, ?_, ?_⟩
    · intro document f hmem
      rcases Program.analyze_cases h with ⟨-, rfl⟩ | ⟨conflict, -, -, rfl⟩ | ⟨w, rfl⟩
      · exact absurd hmem List.not_mem_nil
      · exact absurd hmem List.not_mem_nil
      · exact w.documentOf?_of_add_mem hp hmem
    · rw [hcount, List.length_eq_zero_iff]
    · intro hgenerated
      have hrun := Program.register_of_edit_eq_nil h (hedit.2 hgenerated)
      refine ⟨hrun, ?_, ?_⟩
      · rw [Program.registerInPlace_eq, hrun]
        rfl
      · intro zip settings executable machine
        rw [hgenerated, package_nil]
        rfl

theorem register_agrees_with_analyze_sample :
    ∃ analysis result, Program.sample.analyze {} = .ok analysis ∧ analysis.generated ≠ [] ∧
      Program.sample.register {} = .ok (analysis, result) ∧ analysis.edit ≠ [] := by
  obtain ⟨analysis, _, hrun, hgenerated⟩ := Program.exists_register_sample
  obtain ⟨hanalyze, -⟩ := Program.register_cases hrun
  obtain ⟨-, -, -, -, hsucceeds⟩ := register_agrees_with_analyze Program.built_sample {}
  obtain ⟨-, ⟨result, hresult⟩, -, hedit, -⟩ := hsucceeds analysis hanalyze
  have hnames : analysis.generated ≠ [] := by simp [hgenerated]
  exact ⟨analysis, result, hanalyze, hnames, hresult, fun hempty => hnames (hedit.1 hempty)⟩

end LambdaDeploy
