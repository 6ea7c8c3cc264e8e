import LambdaDeploy.Proofs.Handler.EntryPointBody

/-!
# Recording names while the entry point is built

The names of the registered handlers are kept from run to run of a build.  They are recorded one by
one, in a second pass over the registrations, after the body of the entry point was built statement
by statement in the first.  So a statement that cannot be built stops the work before any name is
recorded, however many statements were built before it.

* `Recording`, `Recording.outcome_bind` — steps that may fail, and that record names.
* `outcome_gather`, `outcome_recordAll` — the two passes.
* `Program.outcome_entryPointSteps` — the steps together do what
  `Program.entryPointMutation` says.
* `entryPoint_built_or_nothing_recorded` — **the entry point is built and all names are
  recorded, or neither.**
-/

namespace LambdaDeploy

variable {α β : Type}

/-! ## Steps that record names -/

/-- Steps that may fail, and that record names as they go along.  What is recorded before a step
fails stays recorded. -/
abbrev Recording (α : Type) := ExceptT BuildError (StateM (List String)) α

/-- Records one more name. -/
def recordName (name : String) : Recording Unit := modify (· ++ [name])

namespace Recording

/-- What some steps give, and the names that are recorded after them. -/
def outcome (steps : Recording α) (recorded : List String) : Except BuildError α × List String :=
  steps.run.run recorded

theorem outcome_pure (a : α) (recorded : List String) :
    (pure a : Recording α).outcome recorded = (.ok a, recorded) := rfl

/-- A step that records nothing. -/
theorem outcome_liftM (step : Except BuildError α) (recorded : List String) :
    (liftM step : Recording α).outcome recorded = (step, recorded) := rfl

theorem outcome_recordName (name : String) (recorded : List String) :
    (recordName name).outcome recorded = (.ok (), recorded ++ [name]) := rfl

/-- A step that fails stops the others; what it has recorded stays. -/
theorem outcome_bind (steps : Recording α) (next : α → Recording β) (recorded : List String) :
    (steps >>= next).outcome recorded =
      match steps.outcome recorded with
      | (.ok a, recorded) => (next a).outcome recorded
      | (.error e, recorded) => (.error e, recorded) := by
  simp only [outcome, ExceptT.run_bind, StateT.run_bind]
  cases StateT.run (ExceptT.run steps) recorded with
  | mk result recorded =>
    cases result with
    | ok a => rfl
    | error e => rfl

end Recording

/-! ## Two passes over a list -/

open Recording

/-- A pass that builds one piece for each element, and records nothing. -/
theorem outcome_gather (build : α → Except BuildError β) (l : List α) (gathered : List β)
    (recorded : List String) :
    outcome (forIn l gathered fun a gathered => do
        let b ← liftM (build a)
        pure (ForInStep.yield (gathered ++ [b]))) recorded =
      ((l.mapM build).map (gathered ++ ·), recorded) := by
  induction l generalizing gathered with
  | nil =>
    rw [List.forIn_nil, outcome_pure, List.mapM_nil]
    show (Except.ok gathered, recorded) = (.ok (gathered ++ []), recorded)
    rw [List.append_nil]
  | cons a l ih =>
    rw [List.forIn_cons, bind_assoc, outcome_bind, outcome_liftM, List.mapM_cons]
    cases build a with
    | error e => rfl
    | ok b =>
      simp only [pure_bind, ih]
      cases l.mapM build with
      | error e => rfl
      | ok pieces => simp [bind, Except.bind, Except.map, pure, Except.pure]

/-- A pass that records one name for each element. -/
theorem outcome_recordAll (name : α → String) (l : List α) (recorded : List String) :
    outcome (forIn l PUnit.unit fun a _ => do
        recordName (name a)
        pure (ForInStep.yield PUnit.unit)) recorded =
      (.ok PUnit.unit, recorded ++ l.map name) := by
  induction l generalizing recorded with
  | nil => simp [outcome_pure]
  | cons a l ih =>
    rw [List.forIn_cons, bind_assoc, outcome_bind, outcome_recordName]
    simp only [pure_bind, ih]
    simp

/-! ## The entry point, step by step -/

namespace Program

/-- Builds the body of the entry point statement by statement, records the handlers' names one by
one, and gives the change that installs the body. -/
def entryPointSteps (program : Program) (dispatcher : Dispatcher) (i : Import)
    (registrations : List Registration) (existing : Option FunctionId) (document : DocumentId) :
    Recording Mutation := do
  let mut body := []
  for r in registrations do
    body := body ++ [← dispatcher.registerStmt program.package i r]
  body := body ++ [← dispatcher.processStmt i]
  for r in registrations do
    recordName r.handler.name
  match existing with
  | some id => return .replaceBody id body
  | none => return .add document (program.newEntryPoint dispatcher document body)

/-- **The steps together** give the change that installs the entry point, and leave the recorded
names as they were if there is none. -/
theorem outcome_entryPointSteps (program : Program) (dispatcher : Dispatcher) (i : Import)
    (registrations : List Registration) (existing : Option FunctionId) (document : DocumentId)
    (recorded : List String) :
    (program.entryPointSteps dispatcher i registrations existing document).outcome recorded =
      program.entryPointMutation dispatcher i registrations existing document recorded := by
  unfold entryPointSteps entryPointMutation Dispatcher.entryPointBody
  simp only [outcome_bind, outcome_gather, outcome_liftM, outcome_recordAll, List.nil_append]
  cases registrations.mapM (dispatcher.registerStmt program.package i) with
  | error e => rfl
  | ok registered =>
    simp only [Except.map]
    cases dispatcher.processStmt i with
    | error e => rfl
    | ok start =>
      cases existing with
      | some id => rfl
      | none => rfl

/-! ## All or nothing -/

/-- The change that installs a body: in the existing entry point, or in a new one at the end of
the document. -/
def installing (program : Program) (dispatcher : Dispatcher) (existing : Option FunctionId)
    (document : DocumentId) (body : List Stmt) : Mutation :=
  match existing with
  | some id => .replaceBody id body
  | none => .add document (program.newEntryPoint dispatcher document body)

end Program

namespace Dispatcher

/-- The import lacks a function that the generated body calls: the one that registers a handler,
if there are handlers, or the one that starts the dispatch. -/
def Misses (dispatcher : Dispatcher) (i : Import) (registrations : List Registration) : Prop :=
  (registrations ≠ [] ∧ dispatcher.registerFunction ∉ i.exports) ∨
    dispatcher.processFunction ∉ i.exports

instance (dispatcher : Dispatcher) (i : Import) (registrations : List Registration) :
    Decidable (dispatcher.Misses i registrations) :=
  inferInstanceAs (Decidable (_ ∨ _))

/-- A statement registers a handler: it gives the handler's name, the symbol of its proxy and the
type of its second parameter to the dispatcher's package. -/
def Registers (dispatcher : Dispatcher) (package : Package) (i : Import) (r : Registration)
    (statement : Stmt) : Prop :=
  ∃ payload, r.handler.params[1]? = some payload ∧
    statement = .expr (.call (some i.modulePrefix) dispatcher.registerFunction
      ⟨i.package, dispatcher.registerFunction⟩
      [.stringLiteral r.handler.name,
        .reference r.proxy.name (.function ⟨package, r.proxy.name⟩), .typeValue payload.type]
      (.builtin .nil))

variable {dispatcher : Dispatcher} {package : Package} {i : Import}

theorem registers_registerCall {r : Registration} (h : 2 ≤ r.handler.params.length) :
    dispatcher.Registers package i r (dispatcher.registerCall package i r) := by
  match hparams : r.handler.params with
  | [] | [_] => simp [hparams] at h
  | context :: payload :: more =>
    refine ⟨payload, by rw [hparams]; rfl, ?_⟩
    rw [registerCall, FunctionDecl.payloadType, hparams]

/-- One statement registers each handler. -/
theorem forall₂_registers {registrations : List Registration}
    (handlers : ∀ r ∈ registrations, 2 ≤ r.handler.params.length) :
    List.Forall₂ (dispatcher.Registers package i) registrations
      (registrations.map (dispatcher.registerCall package i)) := by
  rw [List.forall₂_map_right_iff, List.forall₂_same]
  intro r hr
  exact registers_registerCall (handlers r hr)

end Dispatcher

namespace Program

variable {program : Program} {dispatcher : Dispatcher} {i : Import}
  {registrations : List Registration} {existing : Option FunctionId} {document : DocumentId}
  {recorded : List String}

theorem entryPointMutation_of_misses (h : dispatcher.Misses i registrations) :
    ∃ e, program.entryPointMutation dispatcher i registrations existing document recorded =
      (.error e, recorded) := by
  rw [entryPointMutation, Dispatcher.entryPointBody_eq]
  by_cases hregister : registrations ≠ [] ∧ dispatcher.registerFunction ∉ i.exports
  · rw [if_pos hregister]
    exact ⟨_, rfl⟩
  · rw [if_neg hregister, if_pos (h.resolve_left hregister)]
    exact ⟨_, rfl⟩

theorem entryPointMutation_of_not_misses (h : ¬ dispatcher.Misses i registrations) :
    program.entryPointMutation dispatcher i registrations existing document recorded =
      (.ok (program.installing dispatcher existing document
          (registrations.map (dispatcher.registerCall program.package i) ++
            [dispatcher.processCall i])),
        recorded ++ registrations.map (·.handler.name)) := by
  obtain ⟨hregister, hprocess⟩ := not_or.1 h
  rw [entryPointMutation, Dispatcher.entryPointBody_eq, if_neg hregister, if_neg hprocess]
  rfl

end Program

/-- **The entry point is built and all names are recorded, or neither.**  The steps that build it
fail exactly when the import lacks a function that the body calls, and then the names are those
from before, although a name is recorded in a step of its own and the statements before the failing
one were built.  Otherwise the names of all handlers follow the old ones, and the body has one
statement for each handler and then the call that starts the dispatch.  Which function the body goes
into, and whether its document exists, does not matter. -/
theorem entryPoint_built_or_nothing_recorded {registrations : List Registration}
    (handlers : ∀ r ∈ registrations, 2 ≤ r.handler.params.length) (program : Program)
    (dispatcher : Dispatcher) (i : Import) (existing : Option FunctionId)
    (document : DocumentId) (recorded : List String) :
    let outcome := (program.entryPointSteps dispatcher i registrations existing document).outcome
      recorded
    outcome = program.entryPointMutation dispatcher i registrations existing document recorded ∧
      ((dispatcher.Misses i registrations ∧ ∃ e, outcome = (.error e, recorded)) ∨
        (¬ dispatcher.Misses i registrations ∧ ∃ registered,
          List.Forall₂ (dispatcher.Registers program.package i) registrations registered ∧
          outcome = (.ok (program.installing dispatcher existing document
              (registered ++ [.expr (.call (some i.modulePrefix) dispatcher.processFunction
                ⟨i.package, dispatcher.processFunction⟩ [] (.builtin .nil))])),
            recorded ++ registrations.map (·.handler.name)))) := by
  intro outcome
  have houtcome := program.outcome_entryPointSteps dispatcher i registrations existing document
    recorded
  refine ⟨houtcome, ?_⟩
  by_cases h : dispatcher.Misses i registrations
  · obtain ⟨e, he⟩ := Program.entryPointMutation_of_misses h
    exact .inl ⟨h, e, houtcome.trans he⟩
  · exact .inr ⟨h, _, Dispatcher.forall₂_registers handlers,
      houtcome.trans (Program.entryPointMutation_of_not_misses h)⟩

/-- Two handlers with their proxies. -/
def sampleRegistrations : List Registration :=
  ["place", "cancel"].map fun name =>
    let handler := Program.sampleMarked name Program.sampleParams
    ⟨handler, Dispatcher.proxy {} ⟨"acme", "shop", "1.0.0"⟩ handler⟩

/-- The names are recorded although the document of the new entry point does not exist.  Nothing is
recorded when the handlers can be registered and the dispatch cannot be started. -/
theorem entryPoint_built_or_nothing_recorded_sample :
    (∃ m, (Program.sample.entryPointSteps {} Program.sampleDispatch sampleRegistrations none 7
        ).outcome ["earlier"] = (.ok m, ["earlier", "place", "cancel"])) ∧
    ∃ e, (Program.sample.entryPointSteps {} (.plain ⟨"ballerinax", "awslambda", "0.0.0"⟩
        ["__register"]) sampleRegistrations (some 1) 0).outcome ["earlier"] =
      (.error e, ["earlier"]) := by
  have handlers : ∀ r ∈ sampleRegistrations, 2 ≤ r.handler.params.length := by decide
  constructor
  · obtain ⟨-, ⟨h, -⟩ | ⟨-, _, -, h⟩⟩ := entryPoint_built_or_nothing_recorded handlers
      Program.sample {} Program.sampleDispatch none 7 ["earlier"]
    · exact absurd h (by decide)
    · exact ⟨_, h⟩
  · obtain ⟨-, ⟨-, h⟩ | ⟨h, -⟩⟩ := entryPoint_built_or_nothing_recorded handlers
      Program.sample {} (.plain ⟨"ballerinax", "awslambda", "0.0.0"⟩ ["__register"]) (some 1) 0
      ["earlier"]
    · exact h
    · exact absurd h (by decide)

end LambdaDeploy
