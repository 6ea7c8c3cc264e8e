import LambdaDeploy.Proofs.Handler.EntryPointBody
import LambdaDeploy.Proofs.Program.Qualifying

/-!
# What generated code refers to

A generated call names a function, or a module prefix and a function.  Where the
program's own names are distinct and stay clear of the proxies' names, each of these
names means in the resulting program what it was generated for: a registration gets the
proxy of its handler, the proxy calls that handler, and the module prefix stands for the
dispatcher's package.

* `importAs?_of_importOf?` — under distinct module prefixes the import of a package is
  found by its prefix.
* `Wiring.linked` — a proxy and its handler are found by their names.
* `linked_of_register` — **generated code links to the right functions.**
-/

namespace LambdaDeploy

/-- Under distinct module prefixes an import is what its prefix stands for. -/
theorem importAs?_of_importOf? {scope : Scope} {org name : String} {i : Import}
    (prefixes : (scope.imports.map (·.modulePrefix)).Nodup)
    (h : scope.importOf? org name = some i) : scope.importAs? i.modulePrefix = some i :=
  Scope.importAs?_of_mem prefixes (List.mem_of_find?_eq_some h)

/-- A proxy and its handler are found by their names. -/
theorem Wiring.linked {program : Program} {dispatcher : Dispatcher}
    (w : Wiring program dispatcher) (hp : program.Consistent) (distinct : program.names.Nodup)
    (free : ∀ name ∈ program.names, ¬ dispatcher.Reserves name)
    (reserved : ¬ dispatcher.Reserves dispatcher.entryPoint)
    {entry : FunctionId × FunctionDecl} (hentry : entry ∈ program.handlers dispatcher) :
    (∃ id, w.result.findFunction? (dispatcher.proxyName entry.2.name) = some id ∧
        w.result.function? id = some (dispatcher.proxy program.package entry.2)) ∧
      w.result.findFunction? entry.2.name = some entry.1 ∧
      w.result.function? entry.1 = some entry.2 := by
  have apart : dispatcher.Apart program := apart_of_not_reserves reserved
  have hhandlers := hp.nodup_handlers distinct dispatcher
  obtain ⟨-, hf, hmarks⟩ :=
    Program.mem_candidates_iff.1 (Program.mem_candidates_of_mem_handlers hentry)
  have hstays := w.function?_result_of_marks hp (spares_of_not_reserves free) hf hmarks
  have hnames := w.nodup_names_result hp apart hhandlers distinct
  exact ⟨w.findFunction?_proxyName hp apart hhandlers hentry,
    (w.consistent_result hp).findFunction?_name hnames hstays, hstays⟩

/-- **Generated code links to the right functions.**  After a run names are still
distinct.  The entry point registers each handler with its name, the symbol of its proxy
and the type of its payload, through a module prefix that stands for the dispatcher's
package.  Under the proxy's name there is the proxy, which takes the context as it is and
the payload as `anydata` and returns the call of the handler with both; under the
handler's name there is the handler as it was. -/
theorem linked_of_register {program result : Program} {dispatcher : Dispatcher}
    {analysis : Analysis} (built : program.Built) (distinct : program.names.Nodup)
    (prefixes : (program.imports.map (·.modulePrefix)).Nodup)
    (free : ∀ name ∈ program.names, ¬ dispatcher.Reserves name)
    (reserved : ¬ dispatcher.Reserves dispatcher.entryPoint)
    (run : program.register dispatcher = .ok (analysis, result))
    (registers : analysis.generated ≠ []) :
    result.names.Nodup ∧
    analysis.generated = (program.handlers dispatcher).map (·.2.name) ∧
    (∃ i id main, result.importAs? i.modulePrefix = some i ∧
      i.package.isNamed dispatcher.org dispatcher.package = true ∧
      dispatcher.registerFunction ∈ i.exports ∧ dispatcher.processFunction ∈ i.exports ∧
      result.findFunction? dispatcher.entryPoint = some id ∧ result.function? id = some main ∧
      main.body = (program.handlers dispatcher).map (fun entry =>
          .expr (.call (some i.modulePrefix) dispatcher.registerFunction
            ⟨i.package, dispatcher.registerFunction⟩
            [.stringLiteral entry.2.name,
              .reference (dispatcher.proxyName entry.2.name)
                (.function ⟨program.package, dispatcher.proxyName entry.2.name⟩),
              .typeValue entry.2.payloadType]
            (.builtin .nil))) ++
        [.expr (.call (some i.modulePrefix) dispatcher.processFunction
          ⟨i.package, dispatcher.processFunction⟩ [] (.builtin .nil))]) ∧
    ∀ entry ∈ program.handlers dispatcher, ∃ context payload,
      entry.2.params = [context, payload] ∧ entry.2.payloadType = payload.type ∧
      (∃ id, result.findFunction? (dispatcher.proxyName entry.2.name) = some id ∧
        result.function? id = some
          { name := dispatcher.proxyName entry.2.name
            isPublic := true
            annotations := []
            params :=
              [⟨context.name, context.type, none⟩, ⟨payload.name, .builtin .anydata, none⟩]
            restParam := none
            returnType := entry.2.returnType
            body := [.returned (.call none entry.2.name ⟨program.package, entry.2.name⟩
              [.reference context.name (.param 0), .reference payload.name (.param 1)]
              entry.2.declaredReturn)]
            location := entry.2.location
            origin := .generated }) ∧
      result.findFunction? entry.2.name = some entry.1 ∧
      result.function? entry.1 = some entry.2 := by
  have hp := built.consistent
  have apart : dispatcher.Apart program := apart_of_not_reserves reserved
  have hhandlers := hp.nodup_handlers distinct dispatcher
  obtain ⟨w, rfl, rfl⟩ := Program.exists_wiring run registers
  refine ⟨w.nodup_names_result hp apart hhandlers distinct, rfl, ?_, ?_⟩
  · have himport : w.result.importAs? w.dispatch.modulePrefix = some w.dispatch := by
      rw [(w.extends_result hp).toScope_eq]
      exact importAs?_of_importOf? prefixes w.importOf?_eq
    have hpackage := List.find?_some w.importOf?_eq
    obtain ⟨id, main, -, hfind, hf, hbody⟩ := w.exists_entryPoint hp apart
    exact ⟨w.dispatch, id, main, himport, hpackage, w.register_mem, w.process_mem, hfind, hf, hbody⟩
  · intro entry hentry
    obtain ⟨context, payload, hparams, hpayload⟩ := Program.exists_params_of_mem_handlers hentry
    obtain ⟨⟨id, hfind, hproxy⟩, hhandler⟩ := w.linked hp distinct free reserved hentry
    rw [proxy_of_params dispatcher program.package hparams] at hproxy
    exact ⟨context, payload, hparams, hpayload, ⟨id, hfind, hproxy⟩, hhandler⟩

theorem linked_of_register_sample :
    ∃ analysis result id, Program.sample.register {} = .ok (analysis, result) ∧
      result.names.Nodup ∧ result.findFunction? "__func_proxy__place" = some id ∧
      result.findFunction? "place" = some 2 := by
  obtain ⟨analysis, result, hrun, hgenerated⟩ := Program.exists_register_sample
  obtain ⟨hnames, -, -, hlinked⟩ := linked_of_register Program.built_sample (by decide)
    (by decide) (by decide) (by decide) hrun (by simp [hgenerated])
  obtain ⟨-, -, -, -, ⟨id, hproxy, -⟩, hplace, -⟩ :=
    hlinked (2, Program.sampleMarked "place" Program.sampleParams) (by decide)
  exact ⟨analysis, result, id, hrun, hnames, hproxy, hplace⟩

end LambdaDeploy
