import LambdaDeploy.Proofs.Handler.Synthesis
import LambdaDeploy.Proofs.Program.Built
import LambdaDeploy.Proofs.Program.Editing
import LambdaDeploy.Proofs.Program.SourceText

/-!
# Runs that register handlers

A `Wiring` is what an analysis has found when it plans generated code: the import
of the dispatcher's package, with both functions that are called, the existing entry
point if there is one, and at least one handler.  The edit, the analysis and the
resulting program are functions of it.

* `analyze_cases` — an analysis that succeeds has nothing to do, meets a conflict, or
  has a wiring.
* `Wiring.register_eq` — **a run with a wiring succeeds**, with `Wiring.analysis` and
  `Wiring.result`.
* `exists_wiring` — a run that registers handlers has a wiring.
* `Wiring.target_cases`, `Wiring.addition_cases` — what the edit changes in place, and
  what it adds.
* `Wiring.extends_result` — the result extends the program.
-/

namespace LambdaDeploy

namespace Program

variable {program : Program} {dispatcher : Dispatcher} {entry : FunctionId × FunctionDecl}

/-! ## Handlers -/

theorem mem_candidates_iff :
    entry ∈ program.candidates dispatcher ↔
      entry.1 ∈ program.order ∧ program.function? entry.1 = some entry.2 ∧
        dispatcher.marks entry.2 = true := by
  rw [candidates, List.mem_filter, mem_declared_iff, and_assoc]

theorem mem_handlers_iff :
    entry ∈ program.handlers dispatcher ↔
      entry ∈ program.candidates dispatcher ∧
        dispatcher.accepts program.toScope entry.2 = true := by
  rw [handlers, List.mem_filter]

theorem mem_candidates_of_mem_handlers (h : entry ∈ program.handlers dispatcher) :
    entry ∈ program.candidates dispatcher :=
  (mem_handlers_iff.1 h).1

theorem function?_of_mem_handlers (h : entry ∈ program.handlers dispatcher) :
    program.function? entry.1 = some entry.2 :=
  (mem_candidates_iff.1 (mem_candidates_of_mem_handlers h)).2.1

/-- A handler has two parameters, and its payload is the second. -/
theorem exists_params_of_mem_handlers (h : entry ∈ program.handlers dispatcher) :
    ∃ context payload, entry.2.params = [context, payload] ∧
      entry.2.payloadType = payload.type := by
  obtain ⟨context, payload, hparams, -⟩ := exists_params_of_accepts (mem_handlers_iff.1 h).2
  refine ⟨context, payload, hparams, ?_⟩
  rw [FunctionDecl.payloadType, hparams]

/-- A rejection is an error. -/
theorem severity_of_mem_rejections {d : Diagnostic}
    (h : d ∈ program.rejections dispatcher) : d.severity = .error := by
  obtain ⟨entry, -, hd⟩ := List.mem_filterMap.1 h
  split at hd
  · cases hd
  · cases hd
    rfl

theorem filter_error_rejections (program : Program) (dispatcher : Dispatcher) :
    (program.rejections dispatcher).filter (·.severity = .error) =
      program.rejections dispatcher :=
  List.filter_eq_self.2 fun d hd => by simpa using severity_of_mem_rejections hd

theorem filter_warning_rejections (program : Program) (dispatcher : Dispatcher) :
    (program.rejections dispatcher).filter (·.severity = .warning) = [] :=
  List.filter_eq_nil_iff.2 fun d hd => by simp [severity_of_mem_rejections hd]

/-! ## The outcomes of an analysis -/

/-- A handler of the program with its proxy. -/
def registration (program : Program) (dispatcher : Dispatcher)
    (entry : FunctionId × FunctionDecl) : Registration :=
  ⟨entry.2, dispatcher.proxy program.package entry.2⟩

/-- The document of the first handler, where a new entry point goes. -/
def handlerDocument (program : Program) (dispatcher : Dispatcher) : DocumentId :=
  ((program.handlers dispatcher).head?.bind fun entry => program.documentOf? entry.1).getD 0

/-- What an analysis knows before it plans anything. -/
def found (program : Program) (dispatcher : Dispatcher) : Analysis where
  diagnostics := ⟨program.rejections dispatcher⟩
  statistics :=
    { candidates := (program.candidates dispatcher).length
      rejected := (program.rejections dispatcher).length }

end Program

/-- What an analysis has found when it plans generated code. -/
structure Wiring (program : Program) (dispatcher : Dispatcher) where
  /-- The import of the dispatcher's package. -/
  dispatch : Import
  /-- The entry point that the program has already. -/
  existing : Option (FunctionId × FunctionDecl)
  importOf?_eq : program.importOf? dispatcher.org dispatcher.package = some dispatch
  entryPoint?_eq : program.entryPoint? dispatcher = .ok existing
  handlers_ne_nil : program.handlers dispatcher ≠ []
  register_mem : dispatcher.registerFunction ∈ dispatch.exports
  process_mem : dispatcher.processFunction ∈ dispatch.exports

namespace Wiring

variable {program : Program} {dispatcher : Dispatcher} (w : Wiring program dispatcher)

/-- The body of the entry point. -/
def body : List Stmt :=
  (program.handlers dispatcher).map
      (fun entry => dispatcher.registerCall program.package w.dispatch
        (program.registration dispatcher entry)) ++
    [dispatcher.processCall w.dispatch]

/-- The change that installs the body of the entry point. -/
def installation : Mutation :=
  match w.existing with
  | some (id, _) => .replaceBody id w.body
  | none =>
    let document := program.handlerDocument dispatcher
    .add document (program.newEntryPoint dispatcher document w.body)

/-- The changes of the run: the proxies, and then the entry point. -/
def edit : Edit :=
  (program.handlers dispatcher).map (program.proxyMutation dispatcher) ++ [w.installation]

/-- The warnings of the run. -/
def warnings : List Diagnostic :=
  (w.existing.toList.filter fun entry => entry.2.body.any Stmt.isVerbatim).map
    fun entry => entry.2.replacedBodyDiagnostic

/-- The analysis of the run. -/
def analysis : Analysis where
  edit := w.edit
  generated := (program.handlers dispatcher).map (·.2.name)
  diagnostics := ⟨program.rejections dispatcher ++ w.warnings⟩
  statistics :=
    { candidates := (program.candidates dispatcher).length
      rejected := (program.rejections dispatcher).length
      registered := (program.handlers dispatcher).length }

/-- The program after the edit, with the old texts. -/
def edited : Program := (program.mutateAll w.edit).2

/-- The program after the run. -/
def result : Program := w.edited.commitSources

/-- A run warns in its warnings only. -/
theorem severity_of_mem_warnings {d : Diagnostic} (h : d ∈ w.warnings) :
    d.severity = .warning := by
  obtain ⟨entry, -, rfl⟩ := List.mem_map.1 h
  rfl

/-- The errors of the run are the rejections of the analysis. -/
theorem filter_error_diagnostics :
    w.analysis.diagnostics.entries.filter (·.severity = .error) =
      program.rejections dispatcher := by
  have hwarnings : w.warnings.filter (·.severity = .error) = [] := by
    refine List.filter_eq_nil_iff.2 fun d hd => ?_
    simp [w.severity_of_mem_warnings hd]
  show (program.rejections dispatcher ++ w.warnings).filter _ = _
  rw [List.filter_append, Program.filter_error_rejections, hwarnings, List.append_nil]

theorem generated_ne_nil : w.analysis.generated ≠ [] := by
  simpa [analysis] using w.handlers_ne_nil

theorem edit_ne_nil : w.edit ≠ [] := by simp [edit]

end Wiring

/-- Diagnostics are logged in order. -/
theorem foldl_add_diagnostics (log : DiagnosticLog) (ds : List Diagnostic) :
    ds.foldl DiagnosticLog.add log = ⟨log.entries ++ ds⟩ := by
  induction ds generalizing log with
  | nil => simp
  | cons d ds ih => simp [ih, DiagnosticLog.add]

namespace Program

variable {program result : Program} {dispatcher : Dispatcher} {analysis : Analysis}

/-- The plan of a program, in closed form. -/
theorem plan_eq (i : Import) (existing : Option (FunctionId × FunctionDecl))
    (himport : program.importOf? dispatcher.org dispatcher.package = some i)
    (hentry : program.entryPoint? dispatcher = .ok existing)
    (hhandlers : program.handlers dispatcher ≠ []) :
    program.plan dispatcher i existing (program.found dispatcher) =
      if hr : dispatcher.registerFunction ∈ i.exports then
        if hp : dispatcher.processFunction ∈ i.exports then
          .ok (Wiring.analysis ⟨i, existing, himport, hentry, hhandlers, hr, hp⟩)
        else .error (.dispatcherSymbolUnresolved i.package.path dispatcher.processFunction)
      else .error (.dispatcherSymbolUnresolved i.package.path dispatcher.registerFunction) := by
  simp only [plan, entryPointMutation]
  rw [Dispatcher.entryPointBody_eq]
  by_cases hr : dispatcher.registerFunction ∈ i.exports
  · rw [if_neg (by simp [hr]), dif_pos hr]
    by_cases hp : dispatcher.processFunction ∈ i.exports
    · rw [if_neg (by simp [hp]), dif_pos hp]
      cases existing <;>
        simp [Wiring.analysis, Wiring.edit, Wiring.installation, Wiring.body, handlerDocument,
          Wiring.warnings, found, foldl_add_diagnostics, registration, Function.comp_def]
    · rw [if_pos hp, dif_neg hp]
  · rw [if_pos ⟨by simpa using hhandlers, hr⟩, dif_neg hr]

/-- **The outcomes of an analysis that succeeds.**  Without handlers, or with an entry
point that cannot be used, nothing is planned; else there is a wiring. -/
theorem analyze_cases (h : program.analyze dispatcher = .ok analysis) :
    (program.handlers dispatcher = [] ∧ analysis = program.found dispatcher) ∨
      (∃ conflict, program.handlers dispatcher ≠ [] ∧
        program.entryPoint? dispatcher = .error conflict ∧
        analysis = { program.found dispatcher with
          diagnostics := ⟨program.rejections dispatcher ++ [conflict.diagnostic]⟩ }) ∨
      ∃ w : Wiring program dispatcher, analysis = w.analysis := by
  rw [analyze] at h
  split at h
  · rename_i hempty
    cases h
    exact .inl ⟨List.isEmpty_iff.1 hempty, rfl⟩
  · rename_i hhandlers
    replace hhandlers : program.handlers dispatcher ≠ [] := by simpa using hhandlers
    split at h
    · cases h
    · rename_i i himport
      split at h
      · rename_i conflict hconflict
        cases h
        exact .inr (.inl ⟨conflict, hhandlers, hconflict, rfl⟩)
      · rename_i existing hentry
        have hplan := plan_eq i existing himport hentry hhandlers
        rw [found] at hplan
        rw [hplan] at h
        split at h
        · split at h
          · cases h
            exact .inr (.inr ⟨_, rfl⟩)
          · cases h
        · cases h

/-- A run that registers handlers has a wiring. -/
theorem exists_wiring (h : program.register dispatcher = .ok (analysis, result))
    (hgenerated : analysis.generated ≠ []) :
    ∃ w : Wiring program dispatcher, analysis = w.analysis ∧ result = w.result := by
  obtain ⟨hanalyze, hresult⟩ := register_cases h
  rcases analyze_cases hanalyze with ⟨-, rfl⟩ | ⟨conflict, -, -, rfl⟩ | ⟨w, rfl⟩
  · exact absurd rfl hgenerated
  · exact absurd rfl hgenerated
  · obtain ⟨hedit, -⟩ | ⟨-, added, edited, happly, rfl⟩ := hresult
    · exact absurd hedit w.edit_ne_nil
    · obtain ⟨-, heq⟩ := apply_eq_ok_iff.1 happly
      have hedited : w.edited = edited := congrArg Prod.snd heq
      exact ⟨w, rfl, by rw [Wiring.result, hedited]⟩

/-- A run that registers nothing leaves the program as it is and logs errors only. -/
theorem register_of_generated_eq_nil
    (h : program.register dispatcher = .ok (analysis, result))
    (hgenerated : analysis.generated = []) :
    result = program ∧ ∀ d ∈ analysis.diagnostics.entries, d.severity = .error := by
  obtain ⟨hanalyze, hresult⟩ := register_cases h
  have hsame : analysis.edit = [] → result = program := by
    intro hedit
    rcases hresult with ⟨-, rfl⟩ | ⟨hne, -⟩
    · rfl
    · exact absurd hedit hne
  rcases analyze_cases hanalyze with ⟨-, rfl⟩ | ⟨conflict, -, -, rfl⟩ | ⟨w, rfl⟩
  · exact ⟨hsame rfl, fun d hd => severity_of_mem_rejections hd⟩
  · refine ⟨hsame rfl, fun d hd => ?_⟩
    rcases List.mem_append.1 hd with hd | hd
    · exact severity_of_mem_rejections hd
    · rw [List.mem_singleton.1 hd]
      rfl
  · exact absurd hgenerated w.generated_ne_nil

end Program

namespace Wiring

variable {program : Program} {dispatcher : Dispatcher} (w : Wiring program dispatcher)
  {m : Mutation} {id : FunctionId} {f : FunctionDecl} {name : String}

theorem analyze_eq : program.analyze dispatcher = .ok w.analysis := by
  have hempty : (program.handlers dispatcher).isEmpty = false := by
    simpa using w.handlers_ne_nil
  have hplan := Program.plan_eq w.dispatch w.existing w.importOf?_eq w.entryPoint?_eq
    w.handlers_ne_nil
  rw [dif_pos w.register_mem, dif_pos w.process_mem] at hplan
  simp only [Program.analyze, hempty, Bool.false_eq_true, if_false, w.importOf?_eq,
    w.entryPoint?_eq]
  exact hplan

/-! ## The changes -/

/-- The existing entry point is the function that is looked up by its name. -/
theorem existing_eq_some_iff :
    w.existing = some (id, f) ↔ program.findFunction? dispatcher.entryPoint = some id ∧
      program.function? id = some f ∧ dispatcher.marks f = false ∧ f.params = [] ∧
      f.restParam = none := by
  rw [← Program.entryPoint?_eq_ok_some_iff, w.entryPoint?_eq]
  simp

theorem existing_eq_none_iff :
    w.existing = none ↔ program.findFunction? dispatcher.entryPoint = none := by
  rw [← Program.entryPoint?_eq_ok_none_iff, w.entryPoint?_eq]
  simp

/-- A proxy comes in the place of the first function of its name, or is added. -/
theorem proxyMutation_cases (program : Program) (dispatcher : Dispatcher)
    (entry : FunctionId × FunctionDecl) :
    (∃ id, program.findFunction? (dispatcher.proxyName entry.2.name) = some id ∧
        program.proxyMutation dispatcher entry =
          .replaceFunction id (dispatcher.proxy program.package entry.2)) ∨
      program.findFunction? (dispatcher.proxyName entry.2.name) = none ∧
        program.proxyMutation dispatcher entry =
          .add ((program.documentOf? entry.1).getD 0)
            (dispatcher.proxy program.package entry.2) := by
  rw [Program.proxyMutation, proxy_name]
  cases h : program.findFunction? (dispatcher.proxyName entry.2.name) with
  | none => exact .inr ⟨rfl, rfl⟩
  | some id => exact .inl ⟨id, rfl, rfl⟩

theorem mem_edit_iff :
    m ∈ w.edit ↔ (∃ entry ∈ program.handlers dispatcher,
      program.proxyMutation dispatcher entry = m) ∨ m = w.installation := by
  simp [edit]

/-- **What is changed in place**: the first function with the name of a proxy, and the
existing entry point. -/
theorem target_cases (hm : m ∈ w.edit) (ht : m.target? = some id) :
    (∃ entry ∈ program.handlers dispatcher,
      program.findFunction? (dispatcher.proxyName entry.2.name) = some id ∧
        m = .replaceFunction id (dispatcher.proxy program.package entry.2)) ∨
      ∃ f, w.existing = some (id, f) ∧ m = .replaceBody id w.body := by
  rcases w.mem_edit_iff.1 hm with ⟨entry, hentry, rfl⟩ | rfl
  · rcases proxyMutation_cases program dispatcher entry with
      ⟨other, hfind, heq⟩ | ⟨-, heq⟩
    · rw [heq] at ht
      cases ht
      exact .inl ⟨entry, hentry, hfind, heq⟩
    · rw [heq] at ht
      cases ht
  · cases hexisting : w.existing with
    | none => simp [installation, hexisting, Mutation.target?] at ht
    | some pair =>
      obtain ⟨other, f⟩ := pair
      simp only [installation, hexisting, Mutation.target?] at ht
      cases ht
      exact .inr ⟨f, rfl, by simp [installation, hexisting]⟩

/-- **What is added**: the proxies whose names are free, and an entry point if there is
none. -/
theorem addition_cases (hm : m ∈ w.edit) (ha : m.addition? = some f) :
    (∃ entry ∈ program.handlers dispatcher,
      program.findFunction? (dispatcher.proxyName entry.2.name) = none ∧
        f = dispatcher.proxy program.package entry.2) ∨
      w.existing = none ∧
        f = program.newEntryPoint dispatcher (program.handlerDocument dispatcher) w.body := by
  rcases w.mem_edit_iff.1 hm with ⟨entry, hentry, rfl⟩ | rfl
  · rcases proxyMutation_cases program dispatcher entry with
      ⟨other, -, heq⟩ | ⟨hfind, heq⟩
    · rw [heq] at ha
      cases ha
    · rw [heq] at ha
      cases ha
      exact .inl ⟨entry, hentry, hfind, rfl⟩
  · cases hexisting : w.existing with
    | none =>
      simp only [installation, hexisting, Mutation.addition?] at ha
      cases ha
      exact .inr ⟨rfl, rfl⟩
    | some pair => simp [installation, hexisting, Mutation.addition?] at ha

/-- What is changed in place keeps its name. -/
theorem keepsName (hm : m ∈ w.edit) : m.KeepsName program := by
  cases m with
  | add document f => trivial
  | replaceBody function body => trivial
  | replaceFunction function replacement =>
    rcases w.target_cases hm rfl with ⟨entry, -, hfind, heq⟩ | ⟨f, -, heq⟩
    · cases heq
      obtain ⟨-, f, hf, hname⟩ := Program.exists_of_findFunction? hfind
      rw [Mutation.KeepsName, Program.nameOf?_of_function? hf, hname, proxy_name]
    · cases heq

section Consistent

variable (hp : program.Consistent)

include hp

/-- The document of a handler exists. -/
theorem exists_documentOf?_of_mem {entry : FunctionId × FunctionDecl}
    (h : entry ∈ program.handlers dispatcher) :
    ∃ document, program.documentOf? entry.1 = some document ∧
      document < program.documents.length :=
  Program.exists_documentOf?
    (hp.mem_order_of_function? (Program.function?_of_mem_handlers h))

omit w in
/-- The document for a new entry point is that of the first handler. -/
theorem exists_handlerDocument_of_ne_nil (hhandlers : program.handlers dispatcher ≠ []) :
    ∃ first, (program.handlers dispatcher).head? = some first ∧
      program.documentOf? first.1 = some (program.handlerDocument dispatcher) ∧
      program.handlerDocument dispatcher < program.documents.length := by
  cases hlist : program.handlers dispatcher with
  | nil => exact absurd hlist hhandlers
  | cons first rest =>
    have hfirst : first ∈ program.handlers dispatcher := by simp [hlist]
    obtain ⟨document, hdocument, hlt⟩ := exists_documentOf?_of_mem hp hfirst
    have heq : program.handlerDocument dispatcher = document := by
      simp [Program.handlerDocument, hlist, hdocument]
    exact ⟨first, rfl, by rw [heq, hdocument], by rwa [heq]⟩

theorem exists_handlerDocument (w : Wiring program dispatcher) :
    ∃ first, (program.handlers dispatcher).head? = some first ∧
      program.documentOf? first.1 = some (program.handlerDocument dispatcher) ∧
      program.handlerDocument dispatcher < program.documents.length :=
  exists_handlerDocument_of_ne_nil hp w.handlers_ne_nil

/-- Every change of the run fits the program. -/
theorem fits (hm : m ∈ w.edit) : m.Fits program := by
  have htarget : ∀ id, m.target? = some id → id < program.functions.length := by
    intro id ht
    rcases w.target_cases hm ht with ⟨entry, -, hfind, -⟩ | ⟨f, hexisting, -⟩
    · obtain ⟨-, f, hf, -⟩ := Program.exists_of_findFunction? hfind
      exact Program.lt_of_function? hf
    · exact Program.lt_of_function? (w.existing_eq_some_iff.1 hexisting).2.1
  rcases w.mem_edit_iff.1 hm with ⟨entry, hentry, rfl⟩ | rfl
  · rcases proxyMutation_cases program dispatcher entry with
      ⟨other, -, heq⟩ | ⟨-, heq⟩
    · rw [heq] at htarget ⊢
      exact htarget other rfl
    · obtain ⟨document, hdocument, hlt⟩ := exists_documentOf?_of_mem hp hentry
      rw [heq, hdocument]
      exact hlt
  · rw [installation] at htarget ⊢
    split
    · rename_i other f hexisting
      rw [hexisting] at htarget
      exact htarget other rfl
    · obtain ⟨-, -, -, hlt⟩ := w.exists_handlerDocument hp
      exact hlt

/-- **A run with a wiring succeeds.** -/
theorem register_eq : program.register dispatcher = .ok (w.analysis, w.result) := by
  have happly : program.apply w.edit = .ok (program.mutateAll w.edit) :=
    Program.apply_eq_ok_iff.2 ⟨fun m hm => w.fits hp hm, rfl⟩
  have hedit : w.analysis.edit.isEmpty = false := by simp [analysis, w.edit_ne_nil]
  rw [Program.register, w.analyze_eq]
  show (if w.analysis.edit.isEmpty then _ else _) = _
  rw [hedit, if_neg Bool.false_ne_true]
  show (program.apply w.edit >>= _) = _
  rw [happly]
  rfl

/-- The edit extends the program. -/
theorem extends_edited : program.Extends w.edited :=
  hp.extends_mutateAll (fun _ hm => w.fits hp hm) fun _ hm => w.keepsName hm

theorem consistent_result : w.result.Consistent :=
  hp.register (w.register_eq hp)

/-- **The result extends the program.** -/
theorem extends_result : program.Extends w.result where
  toScope_eq := by rw [result, Program.toScope_commitSources, (w.extends_edited hp).toScope_eq]
  length_le := by
    rw [result, Program.functions_commitSources]
    exact (w.extends_edited hp).length_le
  order_filter := by
    rw [result, Program.order_commitSources]
    exact (w.extends_edited hp).order_filter
  documentOf?_eq id hid := by
    rw [result, Program.documentOf?_commitSources]
    exact (w.extends_edited hp).documentOf?_eq id hid
  nameOf?_eq id hid := by
    rw [result, Program.nameOf?_commitSources]
    exact (w.extends_edited hp).nameOf?_eq id hid

end Consistent

end Wiring

end LambdaDeploy
