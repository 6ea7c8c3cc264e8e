import LambdaDeploy.Handler.EntryPoint
import LambdaDeploy.Proofs.Program.Lookup
import LambdaDeploy.Proofs.Steps

/-!
# What is generated

The generated pieces in closed form: which function the look-up of the entry point
accepts, what the proxy of an accepted handler looks like, and when the body of the
entry point can be built.

* `entryPoint?_eq_ok_some_iff` — the existing entry point is the first function of
  its name, unmarked and without parameters.
* `proxy_of_params` — the proxy of a function with two parameters.
* `entryPointBody_eq` — **the body of the entry point**, or the first symbol that is
  missing for it.
-/

namespace LambdaDeploy

/-! ## Signatures -/

/-- The name begins like that of a proxy. -/
def Dispatcher.Reserves (dispatcher : Dispatcher) (name : String) : Prop :=
  ∃ rest, name = dispatcher.proxyPrefix ++ rest

theorem reserves_iff {dispatcher : Dispatcher} {name : String} :
    dispatcher.Reserves name ↔ dispatcher.proxyPrefix.toList <+: name.toList := by
  constructor
  · rintro ⟨rest, rfl⟩
    simp
  · rintro ⟨rest, hrest⟩
    refine ⟨String.ofList rest, String.toList_inj.1 ?_⟩
    simpa using hrest.symm

instance (dispatcher : Dispatcher) (name : String) : Decidable (dispatcher.Reserves name) :=
  decidable_of_iff _ reserves_iff.symm

theorem reserves_proxyName (dispatcher : Dispatcher) (handler : String) :
    dispatcher.Reserves (dispatcher.proxyName handler) :=
  ⟨handler, rfl⟩

/-- Handlers with different names have proxies with different names. -/
theorem proxyName_inj {dispatcher : Dispatcher} {a b : String} :
    dispatcher.proxyName a = dispatcher.proxyName b ↔ a = b := by
  constructor
  · intro h
    have hlist := congrArg String.toList h
    simp only [Dispatcher.proxyName, String.toList_append, List.append_cancel_left_eq] at hlist
    exact String.toList_inj.1 hlist
  · rintro rfl
    rfl

/-- An accepted function has two parameters, neither of them defaultable. -/
theorem exists_params_of_accepts {dispatcher : Dispatcher} {scope : Scope} {f : FunctionDecl}
    (h : dispatcher.accepts scope f = true) :
    ∃ context payload, f.params = [context, payload] ∧ f.restParam = none := by
  rw [Dispatcher.accepts, Dispatcher.checkSignature] at h
  split at h
  · rename_i context payload hparams hdefaultable hrest
    exact ⟨context, payload, hparams, hrest⟩
  · cases h

/-! ## The existing entry point -/

namespace Program

variable {program : Program} {dispatcher : Dispatcher} {id : FunctionId} {f : FunctionDecl}

theorem declared_find?_entry (program : Program) (name : String) :
    (program.declared.find? fun entry => entry.2.name == name) =
      (program.findFunction? name).bind fun id =>
        (program.function? id).map fun f => (id, f) := by
  rw [declared_find?_eq, findFunction?_eq_find?]

theorem entryPoint?_eq_ok_none_iff :
    program.entryPoint? dispatcher = .ok none ↔
      program.findFunction? dispatcher.entryPoint = none := by
  rw [entryPoint?, findFunction?]
  cases (program.declared.find? fun entry => entry.2.name == dispatcher.entryPoint) with
  | none => simp
  | some entry =>
    simp only [Option.map_some, reduceCtorEq, iff_false]
    split
    · simp
    · split <;> simp

/-- **The existing entry point** is the first function of its name, if that is not
marked as a handler and takes no parameters. -/
theorem entryPoint?_eq_ok_some_iff :
    program.entryPoint? dispatcher = .ok (some (id, f)) ↔
      program.findFunction? dispatcher.entryPoint = some id ∧
        program.function? id = some f ∧ dispatcher.marks f = false ∧ f.params = [] ∧
        f.restParam = none := by
  rw [entryPoint?, declared_find?_entry]
  cases hfind : program.findFunction? dispatcher.entryPoint with
  | none => simp
  | some first =>
    obtain ⟨-, g, hg, -⟩ := exists_of_findFunction? hfind
    simp only [Option.bind_some, hg, Option.map_some, Option.some.injEq]
    constructor
    · intro h
      split at h
      · cases h
      · rename_i hmarks
        split at h
        · cases h
        · rename_i hparams
          cases h
          simp only [Bool.or_eq_true, Bool.not_eq_true', List.isEmpty_eq_false_iff,
            Option.isSome_iff_ne_none, not_or, Decidable.not_not] at hparams
          exact ⟨rfl, hg, by simpa using hmarks, hparams.1, hparams.2⟩
    · rintro ⟨rfl, hf, hmarks, hparams, hrest⟩
      obtain rfl : g = f := Option.some.inj (hg.symm.trans hf)
      simp [hmarks, hparams, hrest]

end Program

/-! ## Proxies -/

section Proxies

variable (dispatcher : Dispatcher) (package : Package) (handler : FunctionDecl)

@[simp] theorem proxy_name :
    (dispatcher.proxy package handler).name = dispatcher.proxyName handler.name := rfl

@[simp] theorem proxy_annotations : (dispatcher.proxy package handler).annotations = [] := rfl

@[simp] theorem proxy_origin : (dispatcher.proxy package handler).origin = .generated := rfl

/-- A function without annotations is no handler. -/
theorem marks_of_annotations_nil {dispatcher : Dispatcher} {f : FunctionDecl}
    (h : f.annotations = []) : dispatcher.marks f = false := by
  simp [Dispatcher.marks, FunctionDecl.hasAnnotation, h]

variable {handler} in
/-- **The proxy of a function with two parameters** takes the first as it is and the
second as `anydata`, and returns the call of the handler with both. -/
theorem proxy_of_params {context payload : Param} (h : handler.params = [context, payload]) :
    dispatcher.proxy package handler =
      { name := dispatcher.proxyName handler.name
        isPublic := true
        params := [⟨context.name, context.type, none⟩, ⟨payload.name, .builtin .anydata, none⟩]
        returnType := handler.returnType
        body := [.returned (.call none handler.name ⟨package, handler.name⟩
          [.reference context.name (.param 0), .reference payload.name (.param 1)]
          handler.declaredReturn)]
        location := handler.location
        origin := .generated } := by
  simp [Dispatcher.proxy, h, FunctionDecl.generated, FunctionDecl.paramRef?, Expr.callOf]

end Proxies

/-! ## The body of the entry point -/

namespace Dispatcher

variable {dispatcher : Dispatcher} {package : Package} {i : Import}

/-- The call that registers a handler with the dispatcher's package. -/
def registerCall (dispatcher : Dispatcher) (package : Package) (i : Import)
    (r : Registration) : Stmt :=
  .expr (.call (some i.modulePrefix) dispatcher.registerFunction
    ⟨i.package, dispatcher.registerFunction⟩
    [.stringLiteral r.handler.name, .reference r.proxy.name (.function ⟨package, r.proxy.name⟩),
      .typeValue r.handler.payloadType]
    (.builtin .nil))

/-- The call that starts the dispatch. -/
def processCall (dispatcher : Dispatcher) (i : Import) : Stmt :=
  .expr (.call (some i.modulePrefix) dispatcher.processFunction
    ⟨i.package, dispatcher.processFunction⟩ [] (.builtin .nil))

theorem call_eq (i : Import) (name : String) (args : List Expr) (type : Ty) :
    i.call name args type =
      if name ∈ i.exports then .ok (.call (some i.modulePrefix) name ⟨i.package, name⟩ args type)
      else .error (.dispatcherSymbolUnresolved i.package.path name) := by
  rw [Import.call, Import.lookup?]
  by_cases h : name ∈ i.exports <;> simp [h, Expr.callOf]

theorem registerStmt_eq (r : Registration) :
    dispatcher.registerStmt package i r =
      if dispatcher.registerFunction ∈ i.exports then .ok (dispatcher.registerCall package i r)
      else .error (.dispatcherSymbolUnresolved i.package.path dispatcher.registerFunction) := by
  rw [registerStmt, call_eq]
  split <;> rfl

theorem processStmt_eq :
    dispatcher.processStmt i =
      if dispatcher.processFunction ∈ i.exports then .ok (dispatcher.processCall i)
      else .error (.dispatcherSymbolUnresolved i.package.path dispatcher.processFunction) := by
  rw [processStmt, call_eq]
  split <;> rfl

theorem mapM_registerStmt_eq (registrations : List Registration) :
    registrations.mapM (dispatcher.registerStmt package i) =
      if registrations ≠ [] ∧ dispatcher.registerFunction ∉ i.exports then
        .error (.dispatcherSymbolUnresolved i.package.path dispatcher.registerFunction)
      else .ok (registrations.map (dispatcher.registerCall package i)) := by
  induction registrations with
  | nil => rfl
  | cons r registrations ih =>
    rw [List.mapM_cons, registerStmt_eq, ih]
    by_cases h : dispatcher.registerFunction ∈ i.exports
    · simp only [h, if_true, not_true_eq_false, and_false, if_false]
      rfl
    · simp only [h, not_false_eq_true, ne_eq, reduceCtorEq, and_self, if_true, if_false]
      rfl

/-- **The body of the entry point** is a registration for each handler and the start of
the dispatch.  It cannot be built without what these two call; the registration is
missed first, if there is one. -/
theorem entryPointBody_eq (registrations : List Registration) :
    dispatcher.entryPointBody package i registrations =
      if registrations ≠ [] ∧ dispatcher.registerFunction ∉ i.exports then
        .error (.dispatcherSymbolUnresolved i.package.path dispatcher.registerFunction)
      else if dispatcher.processFunction ∉ i.exports then
        .error (.dispatcherSymbolUnresolved i.package.path dispatcher.processFunction)
      else .ok (registrations.map (dispatcher.registerCall package i) ++
        [dispatcher.processCall i]) := by
  rw [entryPointBody, mapM_registerStmt_eq, processStmt_eq]
  by_cases hregister : registrations ≠ [] ∧ dispatcher.registerFunction ∉ i.exports
  · rw [if_pos hregister, if_pos hregister]
    rfl
  · rw [if_neg hregister, if_neg hregister]
    by_cases hprocess : dispatcher.processFunction ∈ i.exports
    · rw [if_pos hprocess, if_neg (not_not_intro hprocess)]
      rfl
    · rw [if_neg hprocess, if_pos hprocess]
      rfl

end Dispatcher

end LambdaDeploy
