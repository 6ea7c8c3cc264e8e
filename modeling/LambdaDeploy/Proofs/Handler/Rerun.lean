import LambdaDeploy.Proofs.Handler.EntryPointBody

/-!
# Running again

The first run adds proxies and perhaps an entry point; the second one finds them all
and puts each in its own place.  So the second run makes an edit of which every change
leaves the program as it is, and writes texts that are written already.

Three coincidences would spoil this and are excluded: two handlers of one name, whose
proxies take turns in one place, a marked function with the name of a proxy, which a
run makes an unmarked one, and an entry point with the name of a proxy.

* `Wiring.exists_rerun` — a run with a wiring leaves a program with a wiring, which
  reports the same and changes nothing.
* `register_register` — **a second run changes nothing.**
-/

namespace LambdaDeploy

/-- The body of the entry point has no statements of the user. -/
theorem Wiring.any_isVerbatim_body {program : Program} {dispatcher : Dispatcher}
    (w : Wiring program dispatcher) : w.body.any Stmt.isVerbatim = false := by
  simp [Wiring.body, Dispatcher.registerCall, Dispatcher.processCall, Stmt.isVerbatim]

namespace Wiring

variable {program : Program} {dispatcher : Dispatcher} (w : Wiring program dispatcher)
  (hp : program.Consistent) (apart : dispatcher.Apart program)
  (distinct : ((program.handlers dispatcher).map (·.2.name)).Nodup)
  (spares : dispatcher.Spares program)

include hp apart distinct spares

/-- **What a run leaves has a wiring again.**  It makes the same body, reports the same
handlers and nothing to warn about, and its edit changes nothing. -/
theorem exists_rerun :
    ∃ again : Wiring w.result dispatcher, again.result = w.result ∧ again.warnings = [] ∧
      again.analysis.generated = w.analysis.generated ∧
      again.analysis.statistics = w.analysis.statistics := by
  have hscope := (w.extends_result hp).toScope_eq
  have hpackage : w.result.package = program.package := congrArg Scope.package hscope
  have hcandidates := w.candidates_result hp apart distinct spares
  have hhandlers := w.handlers_result hp apart distinct spares
  have hrejections := w.rejections_result hp apart distinct spares
  obtain ⟨id, f, hentry, -, hf, hbody⟩ := w.exists_entryPoint hp apart
  let again : Wiring w.result dispatcher :=
    { dispatch := w.dispatch
      existing := some (id, f)
      importOf?_eq := by rw [hscope, w.importOf?_eq]
      entryPoint?_eq := hentry
      handlers_ne_nil := by
        rw [hhandlers]
        exact w.handlers_ne_nil
      register_mem := w.register_mem
      process_mem := w.process_mem }
  have hagain : again.body = f.body := by
    rw [hbody]
    simp only [body, Program.registration, hhandlers, hpackage, again]
  -- each change puts a function in its own place
  have hsame : ∀ m ∈ again.edit, (w.result.mutate m).2 = w.result := by
    intro m hm
    rcases again.mem_edit_iff.1 hm with ⟨entry, hmem, rfl⟩ | rfl
    · rw [hhandlers] at hmem
      obtain ⟨place, hfind, hproxy⟩ := w.findFunction?_proxyName hp apart distinct hmem
      rw [← hpackage] at hproxy
      have hmutation : w.result.proxyMutation dispatcher entry =
          .replaceFunction place (dispatcher.proxy w.result.package entry.2) := by
        simp [Program.proxyMutation, hfind]
      rw [hmutation]
      exact Program.mutate_replaceFunction_eq_self hproxy
    · have hinstall : again.installation = .replaceBody id f.body := by
        rw [← hagain]
        rfl
      rw [hinstall]
      exact Program.mutate_replaceBody_eq_self hf
  refine ⟨again, ?_, ?_, ?_, ?_⟩
  · have hedited : again.edited = w.result := Program.mutateAll_eq_self hsame
    rw [result, hedited, result, Program.commitSources_commitSources]
  · have hnone := w.any_isVerbatim_body
    rw [← hbody] at hnone
    simp [warnings, again, hnone]
  · simp [analysis, hhandlers]
  · simp [analysis, hcandidates, hhandlers, hrejections]

end Wiring

/-! ## The second run -/

/-- **A second run changes nothing.**  It succeeds, leaves the program as it is, texts
included, and reports the same handlers, statistics and errors, without a warning. -/
theorem register_register {program result : Program} {dispatcher : Dispatcher}
    {analysis : Analysis} (built : program.Built)
    (distinct : ((program.handlers dispatcher).map (·.2.name)).Nodup)
    (unmarked : ∀ candidate ∈ program.candidates dispatcher,
      ∀ entry ∈ program.handlers dispatcher,
        candidate.2.name ≠ dispatcher.proxyName entry.2.name)
    (apart : ∀ entry ∈ program.handlers dispatcher,
      dispatcher.entryPoint ≠ dispatcher.proxyName entry.2.name)
    (run : program.register dispatcher = .ok (analysis, result)) :
    ∃ again, result.register dispatcher = .ok (again, result) ∧
      again.generated = analysis.generated ∧ again.statistics = analysis.statistics ∧
      again.diagnostics.entries =
        analysis.diagnostics.entries.filter (·.severity = .error) ∧
      ∀ d ∈ again.diagnostics.entries, d.severity ≠ .warning := by
  by_cases hgenerated : analysis.generated = []
  · obtain ⟨rfl, herrors⟩ := Program.register_of_generated_eq_nil run hgenerated
    refine ⟨analysis, run, rfl, rfl, ?_, ?_⟩
    · exact (List.filter_eq_self.2 fun d hd => by simpa using herrors d hd).symm
    · intro d hd
      rw [herrors d hd]
      decide
  · have hp := built.consistent
    obtain ⟨w, rfl, rfl⟩ := Program.exists_wiring run hgenerated
    have hapart : dispatcher.Apart program := fun entry hentry => (apart entry hentry).symm
    obtain ⟨again, hresult, hwarnings, hsame, hstatistics⟩ :=
      w.exists_rerun hp hapart distinct unmarked
    have hrejections := w.rejections_result hp hapart distinct unmarked
    have hentries : again.analysis.diagnostics.entries = program.rejections dispatcher := by
      simp [Wiring.analysis, hwarnings, hrejections]
    have hrun := again.register_eq (w.consistent_result hp)
    rw [hresult] at hrun
    refine ⟨again.analysis, hrun, hsame, hstatistics, ?_, ?_⟩
    · rw [hentries, w.filter_error_diagnostics]
    · intro d hd
      rw [hentries] at hd
      rw [Program.severity_of_mem_rejections hd]
      decide

theorem register_register_sample :
    ∃ analysis result again, Program.sample.register {} = .ok (analysis, result) ∧
      result.register {} = .ok (again, result) ∧ again.generated = ["place", "cancel"] := by
  obtain ⟨analysis, result, hrun, hgenerated⟩ := Program.exists_register_sample
  obtain ⟨again, hagain, hsame, -⟩ := register_register Program.built_sample (by decide)
    (by decide) (by decide) hrun
  exact ⟨analysis, result, again, hrun, hagain, hsame.trans hgenerated⟩

end LambdaDeploy
