import LambdaDeploy.Proofs.Handler.EntryPointBody
import LambdaDeploy.Proofs.Program.InPlace

/-!
# Code that an analysis does not see

An analysis reads little of a program: its marked functions with their documents, the first
function with the entry point's name, the first ones with the names of proxies, and the scope
as far as types are written in it.  Programs that agree in this (`Program.Alike`) have one
analysis, ids and documents included.

* `Scope.renderType_declareType` — a declared type changes the written form of no type.
* `analyze_eq_of_alike` — **an analysis is a function of what it reads.**
* `alike_addDocument`, `alike_declareType`, `alike_appendFunction` — what a new document, a
  new type and a new function leave alone.
* `analyze_eq_of_unrelated` — **unrelated code does not influence the analysis.**
-/

namespace LambdaDeploy

/-! ## Declared types -/

namespace Scope

mutual

/-- The written form of a type depends on the imports and the package alone. -/
theorem renderType_declareType (scope : Scope) (name : String) :
    (type : Ty) → (scope.declareType name).renderType type = scope.renderType type
  | .builtin _ => rfl
  | .named _ _ => rfl
  | .union members => by
    rw [renderType, renderType, renderTypes_declareType scope name members]
  | .array element => by
    rw [renderType, renderType, renderType_declareType scope name element]
  | .map element => by
    rw [renderType, renderType, renderType_declareType scope name element]
  | .record _ => rfl
  | .unresolved _ => rfl

theorem renderTypes_declareType (scope : Scope) (name : String) :
    (types : List Ty) → (scope.declareType name).renderTypes types = scope.renderTypes types
  | [] => rfl
  | type :: types => by
    rw [renderTypes, renderTypes, renderType_declareType scope name type,
      renderTypes_declareType scope name types]

end

end Scope

theorem Dispatcher.checkSignature_declareType (dispatcher : Dispatcher) (scope : Scope)
    (name : String) (f : FunctionDecl) :
    dispatcher.checkSignature (scope.declareType name) f = dispatcher.checkSignature scope f := by
  simp only [checkSignature, Scope.renderType_declareType]

/-! ## What an analysis reads -/

namespace Program

/-- The second program shows an analysis what the first one does. -/
structure Alike (dispatcher : Dispatcher) (program other : Program) : Prop where
  package_eq : other.package = program.package
  importOf?_eq : other.importOf? dispatcher.org dispatcher.package =
    program.importOf? dispatcher.org dispatcher.package
  candidates_eq : other.candidates dispatcher = program.candidates dispatcher
  checkSignature_eq : ∀ f, dispatcher.checkSignature other.toScope f =
    dispatcher.checkSignature program.toScope f
  entryPoint?_eq : other.entryPoint? dispatcher = program.entryPoint? dispatcher
  /-- The proxies of the handlers are looked up at the same functions. -/
  findFunction?_eq : ∀ entry ∈ program.handlers dispatcher,
    other.findFunction? (dispatcher.proxyName entry.2.name) =
      program.findFunction? (dispatcher.proxyName entry.2.name)
  /-- The handlers are in the same documents. -/
  documentOf?_eq : ∀ entry ∈ program.handlers dispatcher,
    other.documentOf? entry.1 = program.documentOf? entry.1
  /-- The documents have the same names. -/
  documentName_eq : ∀ document < program.documents.length,
    (other.document? document).map (·.name) = (program.document? document).map (·.name)

variable {program other : Program} {dispatcher : Dispatcher}

namespace Alike

theorem handlers_eq (h : Alike dispatcher program other) :
    other.handlers dispatcher = program.handlers dispatcher := by
  rw [handlers, handlers, h.candidates_eq]
  exact List.filter_congr fun entry _ => by
    rw [Dispatcher.accepts, Dispatcher.accepts, h.checkSignature_eq]

theorem rejections_eq (h : Alike dispatcher program other) :
    other.rejections dispatcher = program.rejections dispatcher := by
  rw [rejections, rejections, h.candidates_eq]
  exact List.filterMap_congr fun entry _ => by rw [h.checkSignature_eq]

theorem proxyMutation_eq (h : Alike dispatcher program other)
    {entry : FunctionId × FunctionDecl} (hentry : entry ∈ program.handlers dispatcher) :
    other.proxyMutation dispatcher entry = program.proxyMutation dispatcher entry := by
  simp only [proxyMutation, proxy_name, h.package_eq, h.findFunction?_eq entry hentry,
    h.documentOf?_eq entry hentry]

theorem handlerDocument_eq (h : Alike dispatcher program other) :
    other.handlerDocument dispatcher = program.handlerDocument dispatcher := by
  rw [handlerDocument, handlerDocument, h.handlers_eq]
  cases hhandlers : program.handlers dispatcher with
  | nil => rfl
  | cons first rest =>
    have hfirst : first ∈ program.handlers dispatcher := by simp [hhandlers]
    simp only [List.head?_cons, Option.bind_some, h.documentOf?_eq first hfirst]

end Alike

theorem Alike.plan_eq (hp : program.Consistent) (h : Alike dispatcher program other)
    (hhandlers : program.handlers dispatcher ≠ []) (i : Import)
    (existing : Option (FunctionId × FunctionDecl)) (found : Analysis) :
    other.plan dispatcher i existing found = program.plan dispatcher i existing found := by
  have hproxies : (program.handlers dispatcher).map (other.proxyMutation dispatcher) =
      (program.handlers dispatcher).map (program.proxyMutation dispatcher) :=
    List.map_congr_left fun entry hentry => h.proxyMutation_eq hentry
  have hdocument := h.handlerDocument_eq
  rw [handlerDocument, handlerDocument, h.handlers_eq] at hdocument
  obtain ⟨-, -, -, hlt⟩ := Wiring.exists_handlerDocument_of_ne_nil hp hhandlers
  have hname := h.documentName_eq _ hlt
  rw [handlerDocument] at hname
  simp only [plan, entryPointMutation, newEntryPoint, h.handlers_eq, h.package_eq, hdocument,
    hname, hproxies]

/-- **An analysis is a function of what it reads.** -/
theorem analyze_eq_of_alike (hp : program.Consistent) (h : Alike dispatcher program other) :
    other.analyze dispatcher = program.analyze dispatcher := by
  by_cases hhandlers : program.handlers dispatcher = []
  · simp [analyze, h.handlers_eq, h.candidates_eq, h.rejections_eq, hhandlers]
  · simp only [analyze, h.handlers_eq, h.candidates_eq, h.rejections_eq, h.importOf?_eq,
      h.entryPoint?_eq, h.plan_eq hp hhandlers]

/-! ## What unrelated code leaves alone -/

/-- A new document has no functions. -/
theorem alike_addDocument (dispatcher : Dispatcher) (program : Program) (name source : String) :
    Alike dispatcher program (program.addDocument name source) := by
  have horder := order_addDocument program name source
  have hdeclared : (program.addDocument name source).declared = program.declared := by
    rw [declared, declared, horder]
    rfl
  refine ⟨rfl, rfl, ?_, fun _ => rfl, ?_, ?_, ?_, ?_⟩
  · rw [candidates, candidates, hdeclared]
  · rw [entryPoint?, entryPoint?, hdeclared]
  · intro entry _
    rw [findFunction?, findFunction?, hdeclared]
  · intro entry _
    rw [documentOf?, documentOf?, addDocument, List.findIdx?_append]
    simp
  · intro document hlt
    rw [document?, document?, addDocument, List.getElem?_append_left hlt]

/-- A declared type matters to no look-up, and types are written as before. -/
theorem alike_declareType (dispatcher : Dispatcher) (program : Program) (name : String) :
    Alike dispatcher program (program.declareType name) where
  package_eq := rfl
  importOf?_eq := rfl
  candidates_eq := rfl
  checkSignature_eq f := dispatcher.checkSignature_declareType program.toScope name f
  entryPoint?_eq := rfl
  findFunction?_eq _ _ := rfl
  documentOf?_eq _ _ := rfl
  documentName_eq _ _ := rfl

section Functions

variable {document : DocumentId} {f : FunctionDecl}

/-- A new function with another name is not taken for the entry point. -/
theorem Consistent.entryPoint?_appendFunction (hp : program.Consistent)
    (hd : document < program.documents.length) (hname : f.name ≠ dispatcher.entryPoint) :
    (program.appendFunction document f).entryPoint? dispatcher =
      program.entryPoint? dispatcher := by
  rw [entryPoint?, entryPoint?, declared_find?_entry, declared_find?_entry,
    hp.findFunction?_appendFunction hd hname]
  cases hfind : program.findFunction? dispatcher.entryPoint with
  | none => rfl
  | some id =>
    obtain ⟨-, g, hg, -⟩ := exists_of_findFunction? hfind
    have hg' : (program.appendFunction document f).function? id = some g :=
      function?_appendFunction_eq_some_iff.2 (.inl hg)
    simp only [Option.bind_some, hg, hg']

/-- A new function without the mark is no candidate. -/
theorem Consistent.candidates_appendFunction (hp : program.Consistent)
    (hd : document < program.documents.length) (unmarked : dispatcher.marks f = false) :
    (program.appendFunction document f).candidates dispatcher =
      program.candidates dispatcher := by
  refine (hp.extends_appendFunction hd f).candidates_eq ?_
  intro id g hmarks
  rw [function?_appendFunction_eq_some_iff]
  constructor
  · rintro (hg | ⟨-, rfl⟩)
    · exact hg
    · rw [unmarked] at hmarks
      cases hmarks
  · exact .inl

/-- A new function that is no candidate and has another name than what is looked up comes
into the documents unseen. -/
theorem Consistent.alike_appendFunction (hp : program.Consistent)
    (hd : document < program.documents.length) (unmarked : dispatcher.marks f = false)
    (hentry : f.name ≠ dispatcher.entryPoint)
    (hproxies : ∀ entry ∈ program.handlers dispatcher,
      f.name ≠ dispatcher.proxyName entry.2.name) :
    Alike dispatcher program (program.appendFunction document f) where
  package_eq := rfl
  importOf?_eq := rfl
  candidates_eq := hp.candidates_appendFunction hd unmarked
  checkSignature_eq _ := rfl
  entryPoint?_eq := hp.entryPoint?_appendFunction hd hentry
  findFunction?_eq entry hmem := hp.findFunction?_appendFunction hd (hproxies entry hmem)
  documentOf?_eq entry hmem :=
    documentOf?_appendFunction_of_ne
      (Nat.ne_of_lt (lt_of_function? (function?_of_mem_handlers hmem))) f
  documentName_eq d _ := by
    rw [document?, document?, Program.appendFunction, List.getElem?_modify]
    split
    · cases program.documents[d]? <;> rfl
    · simp

end Functions

/-! ## Extending a program -/

/-- An operation that adds something to a program. -/
inductive Extension where
  | addDocument (name source : String)
  | declareType (name : String)
  | addFunction (document : DocumentId) (f : FunctionDecl)

/-- The program with what an operation adds.  A function whose document does not exist is
not added. -/
def extend (program : Program) : Extension → Program
  | .addDocument name source => program.addDocument name source
  | .declareType name => program.declareType name
  | .addFunction document f => (program.addFunctionInPlace document f).2

/-- What is added is neither marked nor named like something that an analysis looks for. -/
def Unrelated (program : Program) (dispatcher : Dispatcher) : Extension → Prop
  | .addDocument _ _ => True
  | .declareType _ => True
  | .addFunction _ f =>
    dispatcher.marks f = false ∧ f.name ≠ dispatcher.entryPoint ∧
      ∀ entry ∈ program.handlers dispatcher, f.name ≠ dispatcher.proxyName entry.2.name

theorem Alike.refl (dispatcher : Dispatcher) (program : Program) :
    Alike dispatcher program program :=
  ⟨rfl, rfl, rfl, fun _ => rfl, rfl, fun _ _ => rfl, fun _ _ => rfl, fun _ _ => rfl⟩

/-- **One unrelated addition** leaves the program consistent and the analysis alone. -/
theorem Consistent.extend (hp : program.Consistent) {step : Extension}
    (unrelated : program.Unrelated dispatcher step) :
    (program.extend step).Consistent ∧ Alike dispatcher program (program.extend step) := by
  cases step with
  | addDocument name source =>
    exact ⟨hp.addDocument name source, alike_addDocument dispatcher program name source⟩
  | declareType name =>
    exact ⟨hp.of_shape rfl rfl, alike_declareType dispatcher program name⟩
  | addFunction document f =>
    obtain ⟨unmarked, hentry, hproxies⟩ := unrelated
    by_cases hd : document < program.documents.length
    · rw [Program.extend, addFunctionInPlace_of_lt hd]
      exact ⟨hp.appendFunction hd f, hp.alike_appendFunction hd unmarked hentry hproxies⟩
    · rw [Program.extend, addFunctionInPlace_of_le (Nat.not_lt.1 hd)]
      exact ⟨hp, .refl dispatcher program⟩

end Program

/-- **Unrelated code does not influence the analysis.**  Documents, types and functions may
be added in any number and order, to any document.  As long as no function that is added is
marked, or named like the entry point or the proxy of a handler, the analysis stays what it
is: the same failure, or the same edit with its ids and documents, names, diagnostics and
statistics. -/
theorem analyze_eq_of_unrelated {program : Program} (built : program.Built)
    (dispatcher : Dispatcher) (steps : List Program.Extension)
    (unrelated : ∀ step ∈ steps, program.Unrelated dispatcher step) :
    (steps.foldl Program.extend program).analyze dispatcher = program.analyze dispatcher := by
  have hp := built.consistent
  clear built
  induction steps generalizing program with
  | nil => rfl
  | cons step steps ih =>
    rw [List.forall_mem_cons] at unrelated
    obtain ⟨hnext, halike⟩ := hp.extend unrelated.1
    -- the handlers stay, so what is unrelated to the program stays unrelated
    have hrest : ∀ other ∈ steps, (program.extend step).Unrelated dispatcher other := by
      intro other hother
      have hold := unrelated.2 other hother
      cases other with
      | addDocument name source => trivial
      | declareType name => trivial
      | addFunction document f => rwa [Program.Unrelated, halike.handlers_eq]
    calc ((step :: steps).foldl Program.extend program).analyze dispatcher
        = (program.extend step).analyze dispatcher := ih hrest hnext
      _ = program.analyze dispatcher := Program.analyze_eq_of_alike hp halike

theorem analyze_eq_of_unrelated_sample :
    ∃ analysis, ([.addDocument "late" "", .declareType "Order",
        .addFunction 0 { name := "helper" }].foldl Program.extend Program.sample).analyze {} =
          .ok analysis ∧
      analysis.generated = ["place", "cancel"] := by
  obtain ⟨analysis, _, hrun, hgenerated⟩ := Program.exists_register_sample
  obtain ⟨hanalyze, -⟩ := Program.register_cases hrun
  have hhelper : Program.sample.Unrelated {} (.addFunction 0 { name := "helper" }) :=
    ⟨by decide, by decide, by decide⟩
  have hsame := analyze_eq_of_unrelated Program.built_sample {}
    [.addDocument "late" "", .declareType "Order", .addFunction 0 { name := "helper" }]
    (List.forall_mem_cons.2 ⟨trivial, List.forall_mem_cons.2 ⟨trivial,
      List.forall_mem_singleton.2 hhelper⟩⟩)
  exact ⟨analysis, hsame.trans hanalyze, hgenerated⟩

end LambdaDeploy
