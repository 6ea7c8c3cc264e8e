import LambdaDeploy.Proofs.Handler.EntryPointBody

/-!
# What an analysis reports

A marked function is registered as a handler, or its signature is wrong and an error says
so.  Apart from that an analysis has one error and one warning to give, both about the
function that has the entry point's name: it cannot be the entry point, or its statements
are replaced.

* `entryPoint?_eq_error_iff` — when the look-up of the entry point meets a conflict.
* `Program.rejected` — the candidates with a wrong signature, with their violations.
* `Consistent.map_declared_perm` — every function is declared, once.
* `analysis_of_blocked`, `analysis_of_not_blocked` — what is registered, and the errors.
* `warnings_of_verbatim`, `warnings_of_no_verbatim` — the warning.
* `candidates_accounted_for` — **every candidate is accounted for once.**
-/

namespace LambdaDeploy

/-! ## The entry point's name -/

/-- The function cannot be an entry point: it is marked as a handler, or takes parameters. -/
def Dispatcher.Bars (dispatcher : Dispatcher) (f : FunctionDecl) : Prop :=
  dispatcher.marks f = true ∨ f.params ≠ [] ∨ f.restParam ≠ none

namespace Program

variable {program : Program} {dispatcher : Dispatcher} {f : FunctionDecl}

/-- A look-up of the entry point fails exactly if the first function of its name cannot be
an entry point; that it is marked is reported first. -/
theorem entryPoint?_eq_error_iff {conflict : EntryPointConflict} :
    program.entryPoint? dispatcher = .error conflict ↔
      ∃ main, program.functionNamed? dispatcher.entryPoint = some main ∧ dispatcher.Bars main ∧
        conflict = if dispatcher.marks main then .handler main.name main.location
          else .parameterized main.name main.location := by
  rw [entryPoint?, declared_find?_entry]
  cases hfind : program.findFunction? dispatcher.entryPoint with
  | none => simp [functionNamed?, hfind]
  | some id =>
    obtain ⟨-, main, hmain, -⟩ := exists_of_findFunction? hfind
    have hnamed : program.functionNamed? dispatcher.entryPoint = some main :=
      functionNamed?_eq_some_iff.2 ⟨id, hfind, hmain⟩
    simp only [Option.bind_some, hmain, Option.map_some]
    constructor
    · intro h
      split at h
      · rename_i hmarks
        cases h
        exact ⟨main, hnamed, .inl hmarks, (if_pos hmarks).symm⟩
      · rename_i hmarks
        split at h
        · rename_i hparams
          cases h
          exact ⟨main, hnamed, .inr (by simpa [Option.isSome_iff_ne_none] using hparams),
            (if_neg hmarks).symm⟩
        · cases h
    · rintro ⟨other, hother, hbars, rfl⟩
      obtain rfl : main = other := Option.some.inj (hnamed.symm.trans hother)
      by_cases hmarks : dispatcher.marks main = true
      · rw [if_pos hmarks, if_pos hmarks]
      · have hparams : (!main.params.isEmpty || main.restParam.isSome) = true := by
          simpa [Option.isSome_iff_ne_none] using hbars.resolve_left hmarks
        rw [if_neg hmarks, if_pos hparams, if_neg hmarks]

/-- The entry point is looked up without a conflict exactly if no first function of its name
is one that cannot be it. -/
theorem exists_entryPoint?_eq_ok_iff :
    (∃ existing, program.entryPoint? dispatcher = .ok existing) ↔
      ∀ main, program.functionNamed? dispatcher.entryPoint = some main →
        ¬ dispatcher.Bars main := by
  constructor
  · rintro ⟨existing, hentry⟩ main hnamed hbars
    rw [entryPoint?_eq_error_iff.2 ⟨main, hnamed, hbars, rfl⟩] at hentry
    cases hentry
  · intro hfree
    cases hentry : program.entryPoint? dispatcher with
    | ok existing => exact ⟨existing, rfl⟩
    | error conflict =>
      obtain ⟨main, hnamed, hbars, -⟩ := entryPoint?_eq_error_iff.1 hentry
      exact absurd hbars (hfree main hnamed)

/-! ## Rejected candidates -/

/-- The candidates with a wrong signature, each with its violation, in declaration order. -/
def rejected (program : Program) (dispatcher : Dispatcher) : List (FunctionDecl × Violation) :=
  (program.candidates dispatcher).filterMap fun entry =>
    match dispatcher.checkSignature program.toScope entry.2 with
    | .ok () => none
    | .error violation => some (entry.2, violation)

theorem checkSignature_of_mem_rejected {r : FunctionDecl × Violation}
    (h : r ∈ program.rejected dispatcher) :
    dispatcher.checkSignature program.toScope r.1 = .error r.2 := by
  obtain ⟨entry, -, hr⟩ := List.mem_filterMap.1 h
  split at hr
  · cases hr
  · rename_i hcheck
    cases hr
    exact hcheck

/-- One error is logged for each rejected candidate. -/
theorem rejections_eq_map (program : Program) (dispatcher : Dispatcher) :
    program.rejections dispatcher =
      (program.rejected dispatcher).map fun r => dispatcher.signatureDiagnostic r.1 r.2 := by
  rw [rejections, rejected, List.map_filterMap]
  refine List.filterMap_congr fun entry _ => ?_
  cases dispatcher.checkSignature program.toScope entry.2 <;> rfl

/-- What is rejected is what is not accepted. -/
theorem map_fst_rejected (program : Program) (dispatcher : Dispatcher) :
    (program.rejected dispatcher).map (·.1) =
      ((program.candidates dispatcher).filter fun entry =>
        !dispatcher.accepts program.toScope entry.2).map (·.2) := by
  rw [rejected]
  induction program.candidates dispatcher with
  | nil => rfl
  | cons entry entries ih =>
    rw [List.filterMap_cons, List.filter_cons]
    cases hcheck : dispatcher.checkSignature program.toScope entry.2 with
    | ok => simpa [Dispatcher.accepts, hcheck, Except.toBool] using ih
    | error violation => simpa [Dispatcher.accepts, hcheck, Except.toBool] using ih

/-- Every candidate is rejected or a handler. -/
theorem length_rejected_add_length_handlers (program : Program) (dispatcher : Dispatcher) :
    (program.rejected dispatcher).length + (program.handlers dispatcher).length =
      (program.candidates dispatcher).length := by
  have hrejected := congrArg List.length (map_fst_rejected program dispatcher)
  rw [List.length_map, List.length_map] at hrejected
  rw [hrejected, handlers, Nat.add_comm]
  exact (List.length_eq_length_filter_add _).symm

/-! ## All functions -/

/-- The declared functions of a consistent program are its functions, in another order. -/
theorem Consistent.map_declared_perm (hp : program.Consistent) :
    (program.declared.map (·.2)).Perm program.functions := by
  have hids : (List.range program.functions.length).map program.function? =
      program.functions.map some :=
    List.ext_getElem (by simp) fun id _ _ => by simp [function?]
  have hall : (List.range program.functions.length).filterMap program.function? =
      program.functions := by
    calc (List.range program.functions.length).filterMap program.function?
        = ((List.range program.functions.length).map program.function?).filterMap id := by
          rw [List.filterMap_map, Function.id_comp]
      _ = program.functions := by
        rw [hids, List.filterMap_map, Function.id_comp, List.filterMap_some]
  rw [map_snd_declared]
  exact (hp.complete.filterMap _).trans (.of_eq hall)

theorem Consistent.length_candidates (hp : program.Consistent) (dispatcher : Dispatcher) :
    (program.candidates dispatcher).length = program.functions.countP dispatcher.marks := by
  rw [candidates, ← List.countP_eq_length_filter, ← hp.map_declared_perm.countP_eq,
    List.countP_map]
  rfl

end Program

/-! ## Analyses with and without a conflict -/

/-- The error shown for a function that has the entry point's name and cannot be it. -/
def Dispatcher.conflictDiagnostic (dispatcher : Dispatcher) (main : FunctionDecl) : Diagnostic :=
  ⟨.error, main.location,
    if dispatcher.marks main then (EntryPointConflict.handler main.name main.location).message
    else (EntryPointConflict.parameterized main.name main.location).message⟩

theorem diagnostic_eq_conflictDiagnostic (dispatcher : Dispatcher) (main : FunctionDecl) :
    EntryPointConflict.diagnostic
        (if dispatcher.marks main then .handler main.name main.location
          else .parameterized main.name main.location) = dispatcher.conflictDiagnostic main := by
  rw [Dispatcher.conflictDiagnostic]
  split <;> rfl

namespace Program

variable {program : Program} {dispatcher : Dispatcher} {analysis : Analysis} {main : FunctionDecl}

/-- There are handlers, and this function keeps them from being registered. -/
def Blocked (program : Program) (dispatcher : Dispatcher) (main : FunctionDecl) : Prop :=
  program.handlers dispatcher ≠ [] ∧
    program.functionNamed? dispatcher.entryPoint = some main ∧ dispatcher.Bars main

/-- A conflict is reported after the rejections, and nothing is planned. -/
theorem analysis_of_blocked (h : program.analyze dispatcher = .ok analysis)
    (blocked : program.Blocked dispatcher main) :
    analysis = { program.found dispatcher with
      diagnostics := ⟨program.rejections dispatcher ++ [dispatcher.conflictDiagnostic main]⟩ } := by
  obtain ⟨hhandlers, hnamed, hbars⟩ := blocked
  have hentry := entryPoint?_eq_error_iff.2 ⟨main, hnamed, hbars, rfl⟩
  rcases analyze_cases h with ⟨hnone, -⟩ | ⟨conflict, -, hconflict, rfl⟩ | ⟨w, -⟩
  · exact absurd hnone hhandlers
  · obtain rfl := Except.error.inj (hentry.symm.trans hconflict)
    rw [diagnostic_eq_conflictDiagnostic]
  · exact absurd (w.entryPoint?_eq.symm.trans hentry) nofun

/-- Without a conflict the handlers are registered, and each error is a rejection. -/
theorem analysis_of_not_blocked (h : program.analyze dispatcher = .ok analysis)
    (free : ∀ main, ¬ program.Blocked dispatcher main) :
    analysis.generated = (program.handlers dispatcher).map (·.2.name) ∧
      analysis.statistics.registered = (program.handlers dispatcher).length ∧
      analysis.diagnostics.entries.filter (·.severity = .error) =
        program.rejections dispatcher := by
  rcases analyze_cases h with ⟨hnone, rfl⟩ | ⟨conflict, hhandlers, hconflict, -⟩ | ⟨w, rfl⟩
  · rw [hnone]
    exact ⟨rfl, rfl, program.filter_error_rejections dispatcher⟩
  · obtain ⟨main, hnamed, hbars, -⟩ := entryPoint?_eq_error_iff.1 hconflict
    exact absurd ⟨hhandlers, hnamed, hbars⟩ (free main)
  · exact ⟨rfl, rfl, w.filter_error_diagnostics⟩

/-- Candidates and rejections are counted on every path. -/
theorem statistics_of_analyze (h : program.analyze dispatcher = .ok analysis) :
    analysis.statistics.candidates = (program.candidates dispatcher).length ∧
      analysis.statistics.rejected = (program.rejected dispatcher).length := by
  have hlength : (program.rejections dispatcher).length = (program.rejected dispatcher).length := by
    rw [rejections_eq_map, List.length_map]
  rcases analyze_cases h with ⟨-, rfl⟩ | ⟨conflict, -, -, rfl⟩ | ⟨w, rfl⟩
  · exact ⟨rfl, hlength⟩
  · exact ⟨rfl, hlength⟩
  · exact ⟨rfl, hlength⟩

end Program

/-! ## Warnings -/

namespace Wiring

variable {program : Program} {dispatcher : Dispatcher} (w : Wiring program dispatcher)
  {main : FunctionDecl}

/-- The warnings of the analysis are those of the run. -/
theorem filter_warning_diagnostics :
    w.analysis.diagnostics.entries.filter (·.severity = .warning) = w.warnings := by
  have hwarnings : w.warnings.filter (·.severity = .warning) = w.warnings :=
    List.filter_eq_self.2 fun d hd => by simpa using w.severity_of_mem_warnings hd
  show (program.rejections dispatcher ++ w.warnings).filter _ = _
  rw [List.filter_append, Program.filter_warning_rejections, hwarnings, List.nil_append]

/-- The existing entry point is the first function of its name. -/
theorem exists_existing_iff :
    (∃ id, w.existing = some (id, main)) ↔
      program.functionNamed? dispatcher.entryPoint = some main := by
  rw [Program.functionNamed?_eq_some_iff]
  constructor
  · rintro ⟨id, hexisting⟩
    obtain ⟨hfind, hf, -⟩ := w.existing_eq_some_iff.1 hexisting
    exact ⟨id, hfind, hf⟩
  · rintro ⟨id, hfind, hf⟩
    cases hexisting : w.existing with
    | none =>
      rw [w.existing_eq_none_iff.1 hexisting] at hfind
      cases hfind
    | some entry =>
      obtain ⟨other, g⟩ := entry
      obtain ⟨hfind', hg, -⟩ := w.existing_eq_some_iff.1 hexisting
      obtain rfl : id = other := Option.some.inj (hfind.symm.trans hfind')
      obtain rfl : main = g := Option.some.inj (hf.symm.trans hg)
      exact ⟨id, rfl⟩

end Wiring

namespace Program

variable {program : Program} {dispatcher : Dispatcher} {analysis : Analysis} {main : FunctionDecl}

/-- An analysis that registers handlers warns once if statements of the user are replaced. -/
theorem warnings_of_verbatim (h : program.analyze dispatcher = .ok analysis)
    (registers : analysis.generated ≠ [])
    (hnamed : program.functionNamed? dispatcher.entryPoint = some main)
    (hbody : main.body.any Stmt.isVerbatim = true) :
    analysis.diagnostics.entries.filter (·.severity = .warning) =
      [main.replacedBodyDiagnostic] := by
  rcases analyze_cases h with ⟨-, rfl⟩ | ⟨conflict, -, -, rfl⟩ | ⟨w, rfl⟩
  · exact absurd rfl registers
  · exact absurd rfl registers
  · obtain ⟨id, hexisting⟩ := w.exists_existing_iff.2 hnamed
    rw [w.filter_warning_diagnostics]
    simp [Wiring.warnings, hexisting, hbody]

/-- No other analysis warns. -/
theorem warnings_of_no_verbatim (h : program.analyze dispatcher = .ok analysis)
    (quiet : analysis.generated = [] ∨
      ∀ main, program.functionNamed? dispatcher.entryPoint = some main →
        main.body.any Stmt.isVerbatim = false) :
    analysis.diagnostics.entries.filter (·.severity = .warning) = [] := by
  rcases analyze_cases h with ⟨-, rfl⟩ | ⟨conflict, -, -, rfl⟩ | ⟨w, rfl⟩
  · exact program.filter_warning_rejections dispatcher
  · show (program.rejections dispatcher ++ [conflict.diagnostic]).filter _ = _
    rw [List.filter_append, filter_warning_rejections]
    rfl
  · have hnone := quiet.resolve_left w.generated_ne_nil
    rw [w.filter_warning_diagnostics]
    cases hexisting : w.existing with
    | none => simp [Wiring.warnings, hexisting]
    | some entry =>
      have hbody := hnone entry.2 (w.exists_existing_iff.1 ⟨entry.1, hexisting⟩)
      simp [Wiring.warnings, hexisting, hbody]

end Program

/-! ## The report of an analysis -/

/-- **Every candidate is accounted for once.**  The candidates are the marked functions; the
errors are one for each candidate with a wrong signature, at its place and with its violation and
in declaration order, and one more if there are handlers and the first function with the entry
point's name cannot be it, at the place of that function.  In that case nothing is registered;
else the handlers are, in declaration order, and they are the candidates that were not rejected.
An analysis that registers handlers warns once if the entry point has statements of the user, at
its place, and no other analysis does. -/
theorem candidates_accounted_for {program : Program} {dispatcher : Dispatcher}
    {analysis : Analysis} (h : program.analyze dispatcher = .ok analysis) :
    let marked := program.declared.filter fun entry => dispatcher.marks entry.2
    let valid := marked.filter fun entry => dispatcher.accepts program.toScope entry.2
    let errors := analysis.diagnostics.entries.filter (·.severity = .error)
    let warnings := analysis.diagnostics.entries.filter (·.severity = .warning)
    let Conflict (main : FunctionDecl) : Prop := valid ≠ [] ∧
      program.functionNamed? dispatcher.entryPoint = some main ∧
      (dispatcher.marks main = true ∨ main.params ≠ [] ∨ main.restParam ≠ none)
    let rejection (f : FunctionDecl) (violation : Violation) : Diagnostic :=
      ⟨.error, f.location,
        "Invalid function signature for an AWS lambda function: " ++ f.name ++
          ", it should be 'public function (" ++ dispatcher.package ++ ":" ++
          dispatcher.contextType ++ ", anydata) returns json|error': " ++ violation.message⟩
    let conflict (main : FunctionDecl) : Diagnostic :=
      ⟨.error, main.location,
        if dispatcher.marks main then
          "function '" ++ main.name ++
            "' is an AWS lambda function and cannot also be the entry point"
        else "function '" ++ main.name ++ "' takes parameters and cannot be the entry point"⟩
    let replacement (main : FunctionDecl) : Diagnostic :=
      ⟨.warning, main.location,
        "statements in '" ++ main.name ++ "' are replaced by the generated handler registration"⟩
    analysis.statistics.candidates = marked.length ∧
    (program.Built → marked.length = program.functions.countP dispatcher.marks) ∧
    (∃ rejected : List (FunctionDecl × Violation),
      rejected.map (·.1) =
        (marked.filter fun entry => !dispatcher.accepts program.toScope entry.2).map (·.2) ∧
      (∀ r ∈ rejected, dispatcher.checkSignature program.toScope r.1 = .error r.2) ∧
      analysis.statistics.rejected = rejected.length ∧
      let reported := rejected.map fun r => rejection r.1 r.2
      (∀ main, Conflict main → errors = reported ++ [conflict main]) ∧
      ((∀ main, ¬ Conflict main) → errors = reported)) ∧
    (∀ main, Conflict main →
      analysis.generated = [] ∧ analysis.statistics.registered = 0 ∧ analysis.edit = []) ∧
    ((∀ main, ¬ Conflict main) →
      analysis.generated = valid.map (·.2.name) ∧
      analysis.statistics.rejected + analysis.statistics.registered =
        analysis.statistics.candidates) ∧
    (∀ main, analysis.generated ≠ [] →
      program.functionNamed? dispatcher.entryPoint = some main →
      main.body.any Stmt.isVerbatim = true → warnings = [replacement main]) ∧
    (analysis.generated = [] ∨
      (∀ main, program.functionNamed? dispatcher.entryPoint = some main →
        main.body.any Stmt.isVerbatim = false) → warnings = []) := by
  intro marked valid errors warnings Conflict rejection conflict replacement
  obtain ⟨hcandidates, hrejected⟩ := Program.statistics_of_analyze h
  have hreported := program.rejections_eq_map dispatcher
  refine ⟨hcandidates, fun built => built.consistent.length_candidates dispatcher,
    ?_, ?_, ?_, ?_, ?_⟩
  · refine ⟨program.rejected dispatcher, program.map_fst_rejected dispatcher,
      fun r hr => Program.checkSignature_of_mem_rejected hr, hrejected, ?_, ?_⟩
    · intro main hconflict
      have hentries := congrArg (·.diagnostics.entries) (Program.analysis_of_blocked h hconflict)
      have herrors : errors = (program.rejections dispatcher ++
          [dispatcher.conflictDiagnostic main]).filter (·.severity = .error) :=
        congrArg _ hentries
      rw [herrors, List.filter_append, Program.filter_error_rejections, hreported]
      rfl
    · intro hfree
      exact (Program.analysis_of_not_blocked h hfree).2.2.trans hreported
  · intro main hconflict
    rw [Program.analysis_of_blocked h hconflict]
    exact ⟨rfl, rfl, rfl⟩
  · intro hfree
    obtain ⟨hgenerated, hregistered, -⟩ := Program.analysis_of_not_blocked h hfree
    refine ⟨hgenerated, ?_⟩
    rw [hrejected, hregistered, hcandidates]
    exact program.length_rejected_add_length_handlers dispatcher
  · exact fun main registers hnamed hbody => Program.warnings_of_verbatim h registers hnamed hbody
  · exact fun quiet => Program.warnings_of_no_verbatim h quiet

theorem candidates_accounted_for_sample :
    ∃ analysis, Program.sample.analyze {} = .ok analysis ∧ analysis.statistics.candidates = 3 ∧
      analysis.statistics.rejected + analysis.statistics.registered = 3 ∧
      analysis.diagnostics.entries.filter (·.severity = .error) =
        [⟨.error, {}, "Invalid function signature for an AWS lambda function: broken, it should " ++
          "be 'public function (awslambda:Context, anydata) returns json|error': expected 2 " ++
          "required parameters and no defaultable or rest parameters, found 0 required, " ++
          "0 defaultable, rest parameter: false"⟩] ∧
      analysis.diagnostics.entries.filter (·.severity = .warning) =
        [⟨.warning, {},
          "statements in 'main' are replaced by the generated handler registration"⟩] := by
  obtain ⟨analysis, _, hrun, hgenerated⟩ := Program.exists_register_sample
  obtain ⟨hanalyze, -⟩ := Program.register_cases hrun
  obtain ⟨w, -, -⟩ := Program.exists_wiring hrun (by simp [hgenerated])
  have hfree := Program.exists_entryPoint?_eq_ok_iff.1 ⟨_, w.entryPoint?_eq⟩
  obtain ⟨hcandidates, -, ⟨rejected, hfunctions, hviolations, -, -, herrors⟩, -, hregistered,
    hwarnings, -⟩ := candidates_accounted_for hanalyze
  have hthree : analysis.statistics.candidates = 3 := hcandidates.trans (by decide)
  have hsum := (hregistered fun main hconflict => hfree main hconflict.2.1 hconflict.2.2).2
  have hbroken : rejected.map (·.1) = [Program.sampleMarked "broken" []] := by
    rw [hfunctions]
    decide
  obtain ⟨⟨f, violation⟩, rfl, hf⟩ := List.map_eq_singleton_iff.1 hbroken
  obtain rfl : f = Program.sampleMarked "broken" [] := hf
  obtain rfl : Violation.parameterShape 0 0 false = violation :=
    Except.error.inj (hviolations _ (List.mem_singleton.2 rfl))
  refine ⟨analysis, hanalyze, hthree, hsum.trans hthree, ?_, ?_⟩
  · rw [herrors fun main hconflict => hfree main hconflict.2.1 hconflict.2.2]
    decide +kernel
  · have hmain : Program.sample.functionNamed? "main" =
        some { name := "main", body := [.verbatim "start();"] } := by decide
    exact hwarnings _ (by simp [hgenerated]) hmain rfl

end LambdaDeploy
