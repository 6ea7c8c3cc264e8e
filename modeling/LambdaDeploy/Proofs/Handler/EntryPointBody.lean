import LambdaDeploy.Proofs.Handler.Outcome

/-!
# The generated entry point

After a run that registers handlers, the function that the entry point's name is
looked up at registers every handler and then starts the dispatch.

* `handlers_eq_flatMap` — the handlers of a program are those of its documents, one
  document after the other.
* `entryPoint_of_register` — **the entry point after a run**, whether it was there
  before or not.
* `sample` — a program with two documents and two handlers.
-/

namespace LambdaDeploy

namespace Program

/-- The handlers of one document, in the order of its functions: those that are marked
and have the signature of a handler. -/
def handlersIn (program : Program) (dispatcher : Dispatcher) (d : Document) :
    List (FunctionId × FunctionDecl) :=
  (d.functions.filterMap fun id => (program.function? id).map fun f => (id, f)).filter
    fun entry => dispatcher.marks entry.2 && dispatcher.accepts program.toScope entry.2

/-- Handlers are found document by document. -/
theorem handlers_eq_flatMap (program : Program) (dispatcher : Dispatcher) :
    program.handlers dispatcher = program.documents.flatMap (program.handlersIn dispatcher) := by
  rw [handlers, candidates, declared, order, List.filterMap_flatMap, List.filter_flatMap,
    List.filter_flatMap]
  congr 1
  funext d
  rw [handlersIn, List.filter_filter]
  congr 1
  funext entry
  exact Bool.and_comm ..

end Program

/-! ## A program with two handlers -/

namespace Program

/-- The package of the dispatcher, with the functions that generated code calls. -/
def sampleDispatch : Import :=
  .plain ⟨"ballerinax", "awslambda", "0.0.0"⟩ ["__register", "__process"]

/-- A function that is marked as a handler. -/
def sampleMarked (name : String) (params : List Param) : FunctionDecl where
  name := name
  annotations := [⟨sampleDispatch.package, "Function"⟩]
  params := params
  returnType := some (.builtin .json)
  body := [.verbatim "return ();"]

/-- The parameters of a handler. -/
def sampleParams : List Param :=
  [⟨"ctx", .named sampleDispatch.package "Context", none⟩, ⟨"order", .builtin .json, none⟩]

/-- A program with an entry point, two handlers, and a marked function that has no
parameters. -/
def sample : Program :=
  ((((((empty ⟨"acme", "shop", "1.0.0"⟩).addImport sampleDispatch).addDocument "orders" ""
    ).addDocument "start" "").appendFunction 1 { name := "main", body := [.verbatim "start();"] }
    ).appendFunction 1 (sampleMarked "cancel" sampleParams)
    ).appendFunction 0 (sampleMarked "place" sampleParams)
    |>.appendFunction 0 (sampleMarked "broken" [])

theorem built_sample : sample.Built := by
  refine .appendFunction (.appendFunction (.appendFunction (.appendFunction (.addDocument
    (.addDocument (.addImport (.empty _) _) _ _) _ _) ?_ _) ?_ _) ?_ _) ?_ _
  all_goals decide

theorem exists_register_sample :
    ∃ analysis result, sample.register {} = .ok (analysis, result) ∧
      analysis.generated = ["place", "cancel"] := by
  obtain ⟨⟨analysis, result⟩, hrun, h⟩ := exists_ok_of_any (x := sample.register {})
    (P := fun outcome => decide (outcome.1.generated = ["place", "cancel"])) (by decide)
  exact ⟨analysis, result, hrun, of_decide_eq_true h⟩

end Program

/-! ## The entry point after a run -/

/-- **The entry point after a run.**  Its body registers the handlers in declaration
order, each with its name, the symbol of its proxy and the type of its payload, and then
starts the dispatch; the calls are those of functions that the import exports.  An entry
point from before keeps everything but its body; a new one is public, takes and declares
nothing, and is in the document of the first handler. -/
theorem entryPoint_of_register {program result : Program} {dispatcher : Dispatcher}
    {analysis : Analysis} (built : program.Built)
    (reserved : ¬ dispatcher.Reserves dispatcher.entryPoint)
    (run : program.register dispatcher = .ok (analysis, result))
    (registers : analysis.generated ≠ []) :
    let handlers := program.documents.flatMap (program.handlersIn dispatcher)
    analysis.generated = handlers.map (·.2.name) ∧
    (∀ entry ∈ handlers, ∃ context payload,
      entry.2.params = [context, payload] ∧ entry.2.payloadType = payload.type) ∧
    ∃ i id f, program.importOf? dispatcher.org dispatcher.package = some i ∧
      dispatcher.registerFunction ∈ i.exports ∧ dispatcher.processFunction ∈ i.exports ∧
      result.findFunction? dispatcher.entryPoint = some id ∧ result.function? id = some f ∧
      f.body = handlers.map (fun entry =>
          .expr (.call (some i.modulePrefix) dispatcher.registerFunction
            ⟨i.package, dispatcher.registerFunction⟩
            [.stringLiteral entry.2.name,
              .reference (dispatcher.proxyName entry.2.name)
                (.function ⟨program.package, dispatcher.proxyName entry.2.name⟩),
              .typeValue entry.2.payloadType]
            (.builtin .nil))) ++
        [.expr (.call (some i.modulePrefix) dispatcher.processFunction
          ⟨i.package, dispatcher.processFunction⟩ [] (.builtin .nil))] ∧
      (∀ old g, program.findFunction? dispatcher.entryPoint = some old →
        program.function? old = some g →
          id = old ∧ f = { g with body := f.body } ∧
            result.documentOf? id = program.documentOf? old) ∧
      (program.findFunction? dispatcher.entryPoint = none →
        program.functions.length ≤ id ∧
        f = { name := dispatcher.entryPoint, isPublic := true, annotations := [], params := [],
              restParam := none, returnType := none, body := f.body, location := f.location,
              origin := .generated } ∧
        ∃ first document, handlers.head? = some first ∧
          program.documentOf? first.1 = some document ∧
          result.documentOf? id = some document) := by
  intro handlers
  have hhandlers : program.handlers dispatcher = handlers :=
    program.handlers_eq_flatMap dispatcher
  rw [← hhandlers]
  have hp := built.consistent
  have apart : dispatcher.Apart program := apart_of_not_reserves reserved
  obtain ⟨w, rfl, rfl⟩ := Program.exists_wiring run registers
  refine ⟨rfl, fun entry hentry => Program.exists_params_of_mem_handlers hentry, w.dispatch, ?_⟩
  cases hexisting : w.existing with
  | some pair =>
    obtain ⟨id, g⟩ := pair
    obtain ⟨hfind, hg, -⟩ := w.existing_eq_some_iff.1 hexisting
    obtain ⟨hfind', hf⟩ := w.entryPoint_of_existing hp apart hexisting
    refine ⟨id, _, w.importOf?_eq, w.register_mem, w.process_mem, hfind', hf, rfl, ?_, ?_⟩
    · intro old g' hold hg'
      obtain rfl : id = old := Option.some.inj (hfind.symm.trans hold)
      obtain rfl : g = g' := Option.some.inj (hg.symm.trans hg')
      exact ⟨rfl, rfl, (w.extends_result hp).documentOf?_eq id (Program.lt_of_function? hg)⟩
    · intro hnone
      rw [hnone] at hfind
      cases hfind
  | none =>
    have hnone := w.existing_eq_none_iff.1 hexisting
    obtain ⟨id, hid, hfind, hf, hdocument⟩ := w.entryPoint_of_new hp apart hexisting
    refine ⟨id, w.newEntryPoint, w.importOf?_eq, w.register_mem, w.process_mem, hfind, hf, rfl,
      ?_, ?_⟩
    · intro old g hold _
      rw [hnone] at hold
      cases hold
    · intro _
      obtain ⟨first, hfirst, hhome, -⟩ := w.exists_handlerDocument hp
      exact ⟨hid, rfl, first, _, hfirst, hhome, hdocument⟩

theorem entryPoint_of_register_sample :
    ∃ analysis result id f, Program.sample.register {} = .ok (analysis, result) ∧
      result.findFunction? "main" = some id ∧ result.function? id = some f ∧
      f.body.length = 3 := by
  obtain ⟨analysis, result, hrun, hgenerated⟩ := Program.exists_register_sample
  obtain ⟨-, -, i, id, f, -, -, -, hfind, hf, hbody, -⟩ :=
    entryPoint_of_register Program.built_sample (by decide) hrun (by simp [hgenerated])
  refine ⟨analysis, result, id, f, hrun, hfind, hf, ?_⟩
  rw [hbody, List.length_append, List.length_map, List.length_singleton]
  decide

end LambdaDeploy
