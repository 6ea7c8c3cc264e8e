import LambdaDeploy.Proofs.Handler.Agreement
import LambdaDeploy.Proofs.Handler.Marked
import LambdaDeploy.Proofs.Handler.Unrelated

/-!
# Builds in steps

A program may be run again and again while functions are added to it.  Every run leaves
proxies and an entry point behind, so the program that grows this way has other ids, and
functions in other documents, than one that is run at the end only.  What the two have in
common is enough for the last run to do the same in both: the marked functions of each
document (`Program.marked`), and whether the entry point can be installed.

* `Program.perform` — one step of a build: a function is added, or the program is run.
* `Abreast` — what holds of the two programs after each step.
* `Abreast.perform_add`, `Abreast.perform_run` — one step of both, and a run of one.
* `Abreast.foldl` — **builds stay side by side** if one of them leaves out all runs.
* `register_agrees_after_steps` — **a build in steps agrees with a build at one go.**
-/

namespace LambdaDeploy

/-! ## Steps -/

/-- A step of a build. -/
inductive BuildStep where
  | add (document : DocumentId) (f : FunctionDecl)
  | run

/-- The step adds a function. -/
def BuildStep.isAddition : BuildStep → Bool
  | add _ _ => true
  | run => false

namespace Program

/-- The program after a step.  A step that fails leaves it as it was. -/
def perform (dispatcher : Dispatcher) (program : Program) : BuildStep → Program
  | .add document f => (program.addFunctionInPlace document f).2
  | .run => (program.registerInPlace dispatcher).2

/-- Every function that the steps add has a new name at that moment, which is not that of the
entry point and does not begin like that of a proxy. -/
def Admits (dispatcher : Dispatcher) (program : Program) : List BuildStep → Prop
  | [] => True
  | .run :: steps => (program.perform dispatcher .run).Admits dispatcher steps
  | .add document f :: steps =>
    (f.name ∉ program.names ∧ f.name ≠ dispatcher.entryPoint ∧ ¬ dispatcher.Reserves f.name) ∧
      (program.perform dispatcher (.add document f)).Admits dispatcher steps

end Program

/-! ## Runs by themselves -/

namespace Program

variable {program : Program} {dispatcher : Dispatcher}

/-- A run in place leaves the program alone, or it has a wiring. -/
theorem registerInPlace_cases (program : Program) (dispatcher : Dispatcher) :
    (program.registerInPlace dispatcher).2 = program ∨
      ∃ w : Wiring program dispatcher, (program.registerInPlace dispatcher).2 = w.result := by
  rw [registerInPlace_eq]
  cases hrun : program.register dispatcher with
  | error e => exact .inl rfl
  | ok outcome =>
    obtain ⟨analysis, result⟩ := outcome
    by_cases hgenerated : analysis.generated = []
    · exact .inl (register_of_generated_eq_nil hrun hgenerated).1
    · obtain ⟨w, -, hresult⟩ := exists_wiring hrun hgenerated
      exact .inr ⟨w, hresult⟩

/-- Without a wiring the analysis fails, or the run registers nothing. -/
theorem Consistent.register_of_not_wired (hp : program.Consistent)
    (hwired : ¬ Nonempty (Wiring program dispatcher)) :
    (∃ e, program.analyze dispatcher = .error e) ∨
      ∃ analysis result, program.register dispatcher = .ok (analysis, result) ∧
        analysis.generated = [] := by
  cases h : program.analyze dispatcher with
  | error e => exact .inl ⟨e, rfl⟩
  | ok analysis =>
    obtain ⟨result, hrun⟩ := hp.exists_register h
    refine .inr ⟨analysis, result, hrun, ?_⟩
    rcases analyze_cases h with ⟨-, rfl⟩ | ⟨conflict, -, -, rfl⟩ | ⟨w, -⟩
    · rfl
    · rfl
    · exact absurd ⟨w⟩ hwired

end Program

namespace Wiring

variable {program : Program} {dispatcher : Dispatcher} (w : Wiring program dispatcher)
  {entry : FunctionId × FunctionDecl}

/-- The body of the entry point depends on the handlers and not on their ids. -/
theorem body_eq : w.body =
    ((program.handlers dispatcher).map (·.2)).map (fun handler =>
        dispatcher.registerCall program.package w.dispatch
          ⟨handler, dispatcher.proxy program.package handler⟩) ++
      [dispatcher.processCall w.dispatch] := by
  rw [List.map_map]
  rfl

theorem generated_eq :
    w.analysis.generated = ((program.handlers dispatcher).map (·.2)).map (·.name) := by
  rw [List.map_map]
  rfl

/-- Another program with handlers, the same import and a free entry point has a wiring, too. -/
theorem exists_wiring_of {other : Program}
    (himport : other.importOf? dispatcher.org dispatcher.package =
      program.importOf? dispatcher.org dispatcher.package)
    (hentry : ∃ existing, other.entryPoint? dispatcher = .ok existing)
    (hhandlers : other.handlers dispatcher ≠ []) :
    ∃ w' : Wiring other dispatcher, w'.dispatch = w.dispatch := by
  obtain ⟨existing, hexisting⟩ := hentry
  exact ⟨⟨w.dispatch, existing, himport.trans w.importOf?_eq, hexisting, hhandlers,
    w.register_mem, w.process_mem⟩, rfl⟩

variable (hp : program.Consistent) (apart : dispatcher.Apart program)

include hp apart

/-- After the run the entry point's name is that of a function with the generated body. -/
theorem exists_functionNamed?_entryPoint :
    ∃ main, w.result.functionNamed? dispatcher.entryPoint = some main ∧ main.body = w.body := by
  obtain ⟨id, main, -, hfind, hmain, hbody⟩ := w.exists_entryPoint hp apart
  exact ⟨main, Program.functionNamed?_eq_some_iff.2 ⟨id, hfind, hmain⟩, hbody⟩

/-- After the run the name of a proxy is that of the proxy. -/
theorem functionNamed?_proxyName
    (distinct : ((program.handlers dispatcher).map (·.2.name)).Nodup)
    (hentry : entry ∈ program.handlers dispatcher) :
    w.result.functionNamed? (dispatcher.proxyName entry.2.name) =
      some (dispatcher.proxy program.package entry.2) := by
  obtain ⟨id, hfind, hproxy⟩ := w.findFunction?_proxyName hp apart distinct hentry
  exact Program.functionNamed?_eq_some_iff.2 ⟨id, hfind, hproxy⟩

end Wiring

/-! ## Two builds side by side -/

/-- A program that was only added to, and one with the same additions that was also run in
between: they have the same marked functions in each document.  The other functions may
differ, and so may all ids. -/
structure Abreast (dispatcher : Dispatcher) (fresh grown : Program) : Prop where
  fresh_consistent : fresh.Consistent
  grown_consistent : grown.Consistent
  toScope_eq : grown.toScope = fresh.toScope
  marked_eq : grown.marked dispatcher = fresh.marked dispatcher
  /-- Only runs make names like that of a proxy. -/
  free : ∀ name ∈ fresh.names, ¬ dispatcher.Reserves name
  distinct : grown.names.Nodup
  /-- The entry point can be installed in both or in none. -/
  entryPoint?_iff : (∃ existing, grown.entryPoint? dispatcher = .ok existing) ↔
    ∃ existing, fresh.entryPoint? dispatcher = .ok existing

namespace Abreast

variable {dispatcher : Dispatcher} {fresh grown : Program} {document : DocumentId}
  {f : FunctionDecl}

theorem refl {program : Program} (hp : program.Consistent) (distinct : program.names.Nodup)
    (free : ∀ name ∈ program.names, ¬ dispatcher.Reserves name) :
    Abreast dispatcher program program :=
  ⟨hp, hp, rfl, rfl, free, distinct, Iff.rfl⟩

section Handlers

variable (h : Abreast dispatcher fresh grown)

include h

theorem map_snd_handlers_eq :
    (grown.handlers dispatcher).map (·.2) = (fresh.handlers dispatcher).map (·.2) := by
  rw [Program.map_snd_handlers, Program.map_snd_handlers, h.marked_eq, h.toScope_eq]

theorem handlers_eq_nil_iff :
    grown.handlers dispatcher = [] ↔ fresh.handlers dispatcher = [] := by
  rw [← List.map_eq_nil_iff (f := (·.2)), h.map_snd_handlers_eq, List.map_eq_nil_iff]

theorem length_documents_eq : grown.documents.length = fresh.documents.length := by
  rw [← Program.length_marked grown dispatcher, h.marked_eq, Program.length_marked]

/-- The marked functions are from the additions, so none has the name of a proxy. -/
theorem spares : dispatcher.Spares grown := by
  intro candidate hcandidate entry _ heq
  have hmarked : candidate.2 ∈ (fresh.candidates dispatcher).map (·.2) := by
    rw [Program.map_snd_candidates, ← h.marked_eq, ← Program.map_snd_candidates]
    exact List.mem_map_of_mem hcandidate
  obtain ⟨original, horiginal, hsame⟩ := List.mem_map.1 hmarked
  have hname := Program.nameOf?_of_function? (Program.mem_candidates_iff.1 horiginal).2.1
  rw [Program.nameOf?_eq_getElem?, hsame, heq] at hname
  exact h.free _ (List.mem_of_getElem? hname) (reserves_proxyName dispatcher entry.2.name)

end Handlers

/-! ### Steps -/

/-- A function with a new name is added to both. -/
theorem appendFunction (h : Abreast dispatcher fresh grown)
    (hd : document < fresh.documents.length) (hnew : f.name ∉ grown.names)
    (hentry : f.name ≠ dispatcher.entryPoint) (hfree : ¬ dispatcher.Reserves f.name) :
    Abreast dispatcher (fresh.appendFunction document f) (grown.appendFunction document f) := by
  have hd' : document < grown.documents.length := h.length_documents_eq ▸ hd
  refine ⟨h.fresh_consistent.appendFunction hd f, h.grown_consistent.appendFunction hd' f,
    h.toScope_eq, ?_, ?_, ?_, ?_⟩
  · rw [h.grown_consistent.marked_appendFunction, h.fresh_consistent.marked_appendFunction,
      h.marked_eq]
  · intro name hname
    rw [Program.names_appendFunction, List.mem_append, List.mem_singleton] at hname
    rcases hname with hname | rfl
    · exact h.free name hname
    · exact hfree
  · rw [Program.names_appendFunction]
    exact h.distinct.append (List.nodup_singleton _) (List.disjoint_singleton.2 hnew)
  · rw [h.grown_consistent.entryPoint?_appendFunction hd' hentry,
      h.fresh_consistent.entryPoint?_appendFunction hd hentry]
    exact h.entryPoint?_iff

/-- Both builds add a function, or neither does. -/
theorem perform_add (h : Abreast dispatcher fresh grown) (hnew : f.name ∉ grown.names)
    (hentry : f.name ≠ dispatcher.entryPoint) (hfree : ¬ dispatcher.Reserves f.name) :
    Abreast dispatcher (fresh.perform dispatcher (.add document f))
      (grown.perform dispatcher (.add document f)) := by
  rw [Program.perform, Program.perform]
  by_cases hd : document < fresh.documents.length
  · rw [Program.addFunctionInPlace_of_lt hd,
      Program.addFunctionInPlace_of_lt (h.length_documents_eq ▸ hd)]
    exact h.appendFunction hd hnew hentry hfree
  · rw [Program.addFunctionInPlace_of_le (Nat.not_lt.1 hd),
      Program.addFunctionInPlace_of_le (h.length_documents_eq ▸ Nat.not_lt.1 hd)]
    exact h

/-- **A run of one of the builds** leaves the two side by side. -/
theorem perform_run (h : Abreast dispatcher fresh grown)
    (reserved : ¬ dispatcher.Reserves dispatcher.entryPoint) :
    Abreast dispatcher fresh (grown.perform dispatcher .run) := by
  rw [Program.perform]
  rcases grown.registerInPlace_cases dispatcher with hsame | ⟨w, hresult⟩
  · rwa [hsame]
  · have hp := h.grown_consistent
    have apart : dispatcher.Apart grown := apart_of_not_reserves reserved
    have hhandlers := hp.nodup_handlers h.distinct dispatcher
    rw [hresult]
    refine ⟨h.fresh_consistent, w.consistent_result hp,
      (w.extends_result hp).toScope_eq.trans h.toScope_eq,
      (w.marked_result hp apart hhandlers h.spares).trans h.marked_eq, h.free,
      w.nodup_names_result hp apart hhandlers h.distinct, ?_⟩
    -- the run has found an entry point that it could install, and installed it
    obtain ⟨id, main, hmain, -⟩ := w.exists_entryPoint hp apart
    exact iff_of_true ⟨_, hmain⟩ (h.entryPoint?_iff.1 ⟨_, w.entryPoint?_eq⟩)

/-- **Builds stay side by side** if one of them leaves out all runs. -/
theorem foldl {steps : List BuildStep} (h : Abreast dispatcher fresh grown)
    (reserved : ¬ dispatcher.Reserves dispatcher.entryPoint)
    (admits : grown.Admits dispatcher steps) :
    Abreast dispatcher
      ((steps.filter BuildStep.isAddition).foldl (Program.perform dispatcher) fresh)
      (steps.foldl (Program.perform dispatcher) grown) := by
  induction steps generalizing fresh grown with
  | nil => exact h
  | cons step steps ih =>
    cases step with
    | run => exact ih (h.perform_run reserved) admits
    | add document f =>
      obtain ⟨⟨hnew, hentry, hfree⟩, hrest⟩ := admits
      exact ih (h.perform_add hnew hentry hfree) hrest

/-! ### The last run -/

variable (h : Abreast dispatcher fresh grown)

include h

theorem analyze_eq_error_iff {e : BuildError} :
    grown.analyze dispatcher = .error e ↔ fresh.analyze dispatcher = .error e := by
  rw [Program.analyze_eq_error_iff, Program.analyze_eq_error_iff, h.toScope_eq,
    h.entryPoint?_iff, Ne, h.handlers_eq_nil_iff]

/-- What one build has wired can be wired in the other, with the same import. -/
theorem exists_wiring_fresh (w : Wiring grown dispatcher) :
    ∃ w' : Wiring fresh dispatcher, w'.dispatch = w.dispatch :=
  w.exists_wiring_of (by rw [h.toScope_eq]) (h.entryPoint?_iff.1 ⟨_, w.entryPoint?_eq⟩)
    (mt h.handlers_eq_nil_iff.2 w.handlers_ne_nil)

theorem not_wired_fresh (hwired : ¬ Nonempty (Wiring grown dispatcher)) :
    ¬ Nonempty (Wiring fresh dispatcher) := by
  rintro ⟨w⟩
  obtain ⟨w', -⟩ := w.exists_wiring_of (by rw [h.toScope_eq])
    (h.entryPoint?_iff.2 ⟨_, w.entryPoint?_eq⟩) (mt h.handlers_eq_nil_iff.1 w.handlers_ne_nil)
  exact hwired ⟨w'⟩

/-- Where neither build is wired, both fail in the same way or register nothing. -/
theorem register_of_not_wired (hwired : ¬ Nonempty (Wiring grown dispatcher)) :
    (∃ e, grown.register dispatcher = .error e ∧ fresh.register dispatcher = .error e) ∨
      ∃ analysis result analysis' result',
        grown.register dispatcher = .ok (analysis, result) ∧
        fresh.register dispatcher = .ok (analysis', result') ∧
        analysis.generated = [] ∧ analysis'.generated = [] := by
  have hfails : ∀ e, grown.analyze dispatcher = .error e →
      grown.register dispatcher = .error e ∧ fresh.register dispatcher = .error e := fun e he =>
    ⟨h.grown_consistent.register_eq_error_iff.2 he,
      h.fresh_consistent.register_eq_error_iff.2 (h.analyze_eq_error_iff.1 he)⟩
  rcases h.grown_consistent.register_of_not_wired hwired with
    ⟨e, he⟩ | ⟨analysis, result, hrun, hnone⟩
  · exact .inl ⟨e, hfails e he⟩
  · rcases h.fresh_consistent.register_of_not_wired (h.not_wired_fresh hwired) with
      ⟨e, he⟩ | ⟨analysis', result', hrun', hnone'⟩
    · exact .inl ⟨e, hfails e (h.analyze_eq_error_iff.2 he)⟩
    · exact .inr ⟨analysis, result, analysis', result', hrun, hrun', hnone, hnone'⟩

/-- With the same import, both builds generate the same names and the same body. -/
theorem generated_eq (w : Wiring grown dispatcher) (w' : Wiring fresh dispatcher) :
    w.analysis.generated = w'.analysis.generated := by
  rw [w.generated_eq, w'.generated_eq, h.map_snd_handlers_eq]

theorem body_eq (w : Wiring grown dispatcher) (w' : Wiring fresh dispatcher)
    (hdispatch : w'.dispatch = w.dispatch) : w.body = w'.body := by
  rw [w.body_eq, w'.body_eq, h.map_snd_handlers_eq, h.toScope_eq, hdispatch]

/-- With the same import, both builds have the same proxy for each handler. -/
theorem exists_functionNamed?_proxyName (w : Wiring grown dispatcher)
    (w' : Wiring fresh dispatcher) (reserved : ¬ dispatcher.Reserves dispatcher.entryPoint)
    {name : String} (hname : name ∈ w.analysis.generated) :
    ∃ proxy, w.result.functionNamed? (dispatcher.proxyName name) = some proxy ∧
      w'.result.functionNamed? (dispatcher.proxyName name) = some proxy := by
  have hgrown := h.grown_consistent.nodup_handlers h.distinct dispatcher
  have hnames : (grown.handlers dispatcher).map (·.2.name) =
      (fresh.handlers dispatcher).map (·.2.name) := h.generated_eq w w'
  have hfresh : ((fresh.handlers dispatcher).map (·.2.name)).Nodup := hnames ▸ hgrown
  obtain ⟨entry, hentry, rfl⟩ := List.mem_map.1 hname
  -- the other build has this handler under another id
  have hmem : entry.2 ∈ (fresh.handlers dispatcher).map (·.2) :=
    h.map_snd_handlers_eq ▸ List.mem_map_of_mem hentry
  obtain ⟨entry', hentry', hsame⟩ := List.mem_map.1 hmem
  have hproxy := w.functionNamed?_proxyName h.grown_consistent (apart_of_not_reserves reserved)
    hgrown hentry
  have hproxy' := w'.functionNamed?_proxyName h.fresh_consistent (apart_of_not_reserves reserved)
    hfresh hentry'
  rw [hsame, ← h.toScope_eq] at hproxy'
  exact ⟨_, hproxy, hproxy'⟩

end Abreast

/-- **A build in steps agrees with a build at one go.**  Functions with new names are added
to a program, and it is run any number of times in between; whether those runs succeed does
not matter.  A last run then does what a single run does after the additions alone: it fails
with the same error, or it registers the same names in the same order, with one body of the
entry point and with the same proxy under the name of each handler's proxy. -/
theorem register_agrees_after_steps {program : Program} (built : program.Built)
    (dispatcher : Dispatcher) (steps : List BuildStep) (distinct : program.names.Nodup)
    (free : ∀ name ∈ program.names, ¬ dispatcher.Reserves name)
    (reserved : ¬ dispatcher.Reserves dispatcher.entryPoint)
    (admits : program.Admits dispatcher steps) :
    let grown := steps.foldl (Program.perform dispatcher) program
    let fresh := (steps.filter BuildStep.isAddition).foldl (Program.perform dispatcher) program
    (∃ e, grown.register dispatcher = .error e ∧ fresh.register dispatcher = .error e) ∨
    ∃ analysis result analysis' result',
      grown.register dispatcher = .ok (analysis, result) ∧
      fresh.register dispatcher = .ok (analysis', result') ∧
      analysis.generated = analysis'.generated ∧
      (analysis.generated ≠ [] → ∃ main main',
        result.functionNamed? dispatcher.entryPoint = some main ∧
        result'.functionNamed? dispatcher.entryPoint = some main' ∧ main.body = main'.body) ∧
      ∀ name ∈ analysis.generated, ∃ proxy,
        result.functionNamed? (dispatcher.proxyName name) = some proxy ∧
        result'.functionNamed? (dispatcher.proxyName name) = some proxy := by
  intro grown fresh
  have h : Abreast dispatcher fresh grown :=
    (Abreast.refl built.consistent distinct free).foldl reserved admits
  by_cases hwired : Nonempty (Wiring grown dispatcher)
  · obtain ⟨w⟩ := hwired
    obtain ⟨w', hdispatch⟩ := h.exists_wiring_fresh w
    obtain ⟨main, hmain, hbody⟩ :=
      w.exists_functionNamed?_entryPoint h.grown_consistent (apart_of_not_reserves reserved)
    obtain ⟨main', hmain', hbody'⟩ :=
      w'.exists_functionNamed?_entryPoint h.fresh_consistent (apart_of_not_reserves reserved)
    refine .inr ⟨w.analysis, w.result, w'.analysis, w'.result, w.register_eq h.grown_consistent,
      w'.register_eq h.fresh_consistent, h.generated_eq w w', ?_, ?_⟩
    · intro _
      exact ⟨main, main', hmain, hmain', by rw [hbody, hbody', h.body_eq w w' hdispatch]⟩
    · exact fun name hname => h.exists_functionNamed?_proxyName w w' reserved hname
  · rcases h.register_of_not_wired hwired with
      hfails | ⟨analysis, result, analysis', result', hrun, hrun', hnone, hnone'⟩
    · exact .inl hfails
    · refine .inr ⟨analysis, result, analysis', result', hrun, hrun', hnone.trans hnone'.symm,
        fun hne => absurd hnone hne, ?_⟩
      rw [hnone]
      exact fun name hname => absurd hname List.not_mem_nil

theorem register_agrees_after_steps_sample :
    ∃ analysis result analysis' result' proxy,
      ([.run, .add 0 (Program.sampleMarked "refund" Program.sampleParams)].foldl
        (Program.perform {}) Program.sample).register {} = .ok (analysis, result) ∧
      (Program.sample.perform {} (.add 0 (Program.sampleMarked "refund" Program.sampleParams))
        ).register {} = .ok (analysis', result') ∧
      analysis.generated = ["place", "refund", "cancel"] ∧
      analysis'.generated = ["place", "refund", "cancel"] ∧
      result.functionNamed? "__func_proxy__refund" = some proxy ∧
      result'.functionNamed? "__func_proxy__refund" = some proxy := by
  have hagree := register_agrees_after_steps Program.built_sample {}
    [.run, .add 0 (Program.sampleMarked "refund" Program.sampleParams)] (by decide)
    (by decide) (by decide) ⟨⟨by decide, by decide, by decide⟩, trivial⟩
  obtain ⟨⟨analysis', result'⟩, hrun', hnames⟩ := exists_ok_of_any
    (x := (Program.sample.perform {}
      (.add 0 (Program.sampleMarked "refund" Program.sampleParams))).register {})
    (P := fun outcome => decide (outcome.1.generated = ["place", "refund", "cancel"]))
    (by decide)
  have hgenerated' : analysis'.generated = ["place", "refund", "cancel"] :=
    of_decide_eq_true hnames
  rcases hagree with ⟨e, -, he⟩ | ⟨analysis, result, other, _, hrun, hother, hsame, -, hproxies⟩
  · exact absurd (hrun'.symm.trans he) nofun
  · cases hrun'.symm.trans hother
    have hgenerated : analysis.generated = ["place", "refund", "cancel"] :=
      hsame.trans hgenerated'
    obtain ⟨proxy, hproxy, hproxy'⟩ := hproxies "refund" (by simp [hgenerated])
    exact ⟨analysis, result, analysis', result', proxy, hrun, hrun', hgenerated, hgenerated',
      hproxy, hproxy'⟩

end LambdaDeploy
