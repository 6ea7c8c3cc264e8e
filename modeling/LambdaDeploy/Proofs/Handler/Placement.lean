import LambdaDeploy.Proofs.Handler.EntryPointBody
import LambdaDeploy.Proofs.Program.Arena
import LambdaDeploy.Proofs.Program.Atomicity

/-!
# Where generated functions go

A run hands out the next ids, one after the other: first to the new proxies, document by
document, and then to a new entry point.  Each new id goes to the end of a document, that of
the handler, or of the first handler for the entry point.  Since the handlers are found
document by document, the new ids of each document are a stretch of the ids.

* `idsFor_append`, `idsFor_replicate` — the ids that go to one place when they are handed out
  in order.
* `Wiring.filterMap_home?_edit` — the places, in the order of the edit.
* `Wiring.newIn_edit` — the new ids of one document.
* `placement_of_register` — **what a run adds, where, and what it leaves alone.**
-/

namespace LambdaDeploy

/-! ## Ids that are handed out in order -/

/-- The ids that go to one place, if one id is handed out to each entry of `places`, from
`next` on. -/
def idsFor (place : DocumentId) (places : List DocumentId) (next : FunctionId) :
    List FunctionId :=
  ((places.zipIdx next).filter (·.1 = place)).map (·.2)

theorem idsFor_append (place : DocumentId) (places more : List DocumentId)
    (next : FunctionId) :
    idsFor place (places ++ more) next =
      idsFor place places next ++ idsFor place more (next + places.length) := by
  simp [idsFor, List.zipIdx_append]

theorem idsFor_replicate (place : DocumentId) (count : Nat) (next : FunctionId) :
    idsFor place (List.replicate count place) next = List.range' next count := by
  induction count generalizing next with
  | zero => rfl
  | succ count ih =>
    have hcons : idsFor place (List.replicate (count + 1) place) next =
        next :: idsFor place (List.replicate count place) (next + 1) := by
      simp [idsFor, List.replicate_succ, List.zipIdx_cons]
    rw [hcons, ih, List.range'_succ]

theorem idsFor_eq_nil {place : DocumentId} {places : List DocumentId}
    (h : place ∉ places) (next : FunctionId) : idsFor place places next = [] := by
  have hnone : (places.zipIdx next).filter (·.1 = place) = [] := by
    refine List.filter_eq_nil_iff.2 fun entry hentry hplace => h ?_
    rw [← of_decide_eq_true hplace]
    exact List.fst_mem_of_mem_zipIdx hentry
  rw [idsFor, hnone, List.map_nil]

namespace Program

variable {program : Program} {dispatcher : Dispatcher} {d : Document} {i : DocumentId}
  {entry : FunctionId × FunctionDecl}

/-- The documents before one document, that one, and those behind it. -/
theorem documents_eq_of_document? (hd : program.document? i = some d) :
    program.documents = program.documents.take i ++ d :: program.documents.drop (i + 1) := by
  obtain ⟨hi, rfl⟩ := List.getElem?_eq_some_iff.1 hd
  rw [List.getElem_cons_drop, List.take_append_drop]

/-! ## New proxies -/

/-- The handlers of one document for whose proxies there is no function yet. -/
def newHandlersIn (program : Program) (dispatcher : Dispatcher) (d : Document) :
    List (FunctionId × FunctionDecl) :=
  (program.handlersIn dispatcher d).filter fun entry =>
    dispatcher.proxyName entry.2.name ∉ program.names

/-- The proxies that a run adds to one document, in the order of their handlers. -/
def newProxiesIn (program : Program) (dispatcher : Dispatcher) (d : Document) :
    List FunctionDecl :=
  (program.newHandlersIn dispatcher d).map fun entry =>
    dispatcher.proxy program.package entry.2

/-- The first id of the proxies that a run adds to a document: the proxies of the documents
before it come first. -/
def firstNewId (program : Program) (dispatcher : Dispatcher) (i : DocumentId) : FunctionId :=
  program.functions.length +
    ((program.documents.take i).flatMap (program.newProxiesIn dispatcher)).length

@[simp] theorem length_newProxiesIn (program : Program) (dispatcher : Dispatcher)
    (d : Document) :
    (program.newProxiesIn dispatcher d).length = (program.newHandlersIn dispatcher d).length :=
  List.length_map _

theorem mem_functions_of_mem_newHandlersIn (h : entry ∈ program.newHandlersIn dispatcher d) :
    entry.1 ∈ d.functions := by
  obtain ⟨id, hid, hentry⟩ :=
    List.mem_filterMap.1 (List.mem_of_mem_filter (List.mem_of_mem_filter h))
  obtain ⟨f, -, rfl⟩ := Option.map_eq_some_iff.1 hentry
  exact hid

namespace Consistent

variable (hp : program.Consistent)

include hp

/-- A proxy is new if its name is not found. -/
theorem filter_handlers_eq_flatMap (dispatcher : Dispatcher) :
    ((program.handlers dispatcher).filter fun entry =>
        (program.findFunction? (dispatcher.proxyName entry.2.name)).isNone) =
      program.documents.flatMap (program.newHandlersIn dispatcher) := by
  rw [handlers_eq_flatMap, List.filter_flatMap]
  congr 1
  funext d
  refine List.filter_congr fun entry _ => ?_
  rw [Bool.eq_iff_iff, Option.isNone_iff_eq_none, hp.findFunction?_eq_none_iff,
    decide_eq_true_iff]

/-- The new proxies, document by document. -/
theorem addedProxies_eq_flatMap (dispatcher : Dispatcher) :
    program.addedProxies dispatcher =
      program.documents.flatMap (program.newProxiesIn dispatcher) := by
  rw [addedProxies, hp.filter_handlers_eq_flatMap, List.map_flatMap]
  rfl

theorem documentOf?_of_mem_newHandlersIn (hd : program.document? i = some d)
    (h : entry ∈ program.newHandlersIn dispatcher d) :
    program.documentOf? entry.1 = some i :=
  hp.documentOf?_eq_some_iff.2 ⟨d, hd, mem_functions_of_mem_newHandlersIn h⟩

end Consistent

end Program

namespace Wiring

variable {program : Program} {dispatcher : Dispatcher} (w : Wiring program dispatcher)
  {d : Document} {i : DocumentId}

/-! ## The places of an edit -/

/-- The places of a list of handlers: the documents where they are declared. -/
def placesOf (program : Program) (handlers : List (FunctionId × FunctionDecl)) :
    List DocumentId :=
  handlers.map fun entry => (program.documentOf? entry.1).getD 0

theorem placesOf_append (program : Program) (handlers more : List (FunctionId × FunctionDecl)) :
    placesOf program (handlers ++ more) = placesOf program handlers ++ placesOf program more :=
  List.map_append

theorem length_placesOf_flatMap (program : Program) (dispatcher : Dispatcher)
    (documents : List Document) :
    (placesOf program (documents.flatMap (program.newHandlersIn dispatcher))).length =
      (documents.flatMap (program.newProxiesIn dispatcher)).length := by
  simp [placesOf, List.length_flatMap]

/-- The place of the entry point, if it is new. -/
def entryPlaces (program : Program) (dispatcher : Dispatcher) : List DocumentId :=
  if dispatcher.entryPoint ∈ program.names then [] else [program.handlerDocument dispatcher]

theorem filterMap_home?_proxyMutation (program : Program) (dispatcher : Dispatcher)
    (handlers : List (FunctionId × FunctionDecl)) :
    (handlers.map (program.proxyMutation dispatcher)).filterMap Mutation.home? =
      placesOf program (handlers.filter fun entry =>
        (program.findFunction? (dispatcher.proxyName entry.2.name)).isNone) := by
  induction handlers with
  | nil => rfl
  | cons entry handlers ih =>
    rw [List.map_cons, List.filterMap_cons, ih, List.filter_cons]
    rcases proxyMutation_cases program dispatcher entry with ⟨id, hfind, heq⟩ | ⟨hfind, heq⟩
    · simp [heq, hfind, Mutation.home?]
    · simp [heq, hfind, Mutation.home?, placesOf]

theorem mem_entryPlaces_iff :
    i ∈ entryPlaces program dispatcher ↔
      i = program.handlerDocument dispatcher ∧ dispatcher.entryPoint ∉ program.names := by
  rw [entryPlaces]
  split <;> simp [*]

theorem idsFor_entryPlaces (program : Program) (dispatcher : Dispatcher) (i : DocumentId)
    (next : FunctionId) :
    idsFor i (entryPlaces program dispatcher) next =
      if i ∈ entryPlaces program dispatcher then [next] else [] := by
  by_cases hmem : i ∈ entryPlaces program dispatcher
  · rw [if_pos hmem]
    rw [entryPlaces] at hmem ⊢
    split at hmem
    · cases hmem
    · rw [if_neg ‹_›, List.mem_singleton.1 hmem]
      exact idsFor_replicate _ 1 next
  · rw [if_neg hmem, idsFor_eq_nil hmem]

/-- The documents of the result keep their names and their ids, and the new ids come
behind. -/
theorem map_documents_result :
    w.result.documents.map (fun d => (d.name, d.functions)) =
      program.documents.mapIdx fun i d =>
        (d.name, d.functions ++ Program.newIn w.edit program.functions.length i) := by
  rw [result, Program.commitSources_eq, List.map_map]
  show w.edited.documents.map (fun d => (d.name, d.functions)) = _
  rw [edited, Program.documents_mutateAll]
  exact List.ext_getElem (by simp) fun i _ _ => by simp

theorem names_documents_result :
    w.result.documents.map (·.name) = program.documents.map (·.name) := by
  have h := congrArg (List.map Prod.fst) w.map_documents_result
  rw [List.map_map] at h
  exact h.trans (List.ext_getElem (by simp) fun i _ _ => by simp)

theorem document?_result (hd : program.document? i = some d) :
    ∃ d', w.result.document? i = some d' ∧
      d'.functions = d.functions ++ Program.newIn w.edit program.functions.length i := by
  have h := congrArg (·[i]?) w.map_documents_result
  simp only [List.getElem?_map, List.getElem?_mapIdx] at h
  rw [← Program.document?, ← Program.document?, hd, Option.map_some,
    Option.map_eq_some_iff] at h
  obtain ⟨d', hd', heq⟩ := h
  exact ⟨d', hd', congrArg Prod.snd heq⟩

section Consistent

variable (hp : program.Consistent)

include hp

theorem existing_eq_none_iff_not_mem :
    w.existing = none ↔ dispatcher.entryPoint ∉ program.names := by
  rw [w.existing_eq_none_iff, hp.findFunction?_eq_none_iff]

theorem mem_names_of_existing {pair : FunctionId × FunctionDecl}
    (hexisting : w.existing = some pair) : dispatcher.entryPoint ∈ program.names := by
  by_contra hnot
  rw [(w.existing_eq_none_iff_not_mem hp).2 hnot] at hexisting
  cases hexisting

theorem toList_home?_installation :
    w.installation.home?.toList = entryPlaces program dispatcher := by
  cases hexisting : w.existing with
  | none =>
    rw [entryPlaces, if_neg ((w.existing_eq_none_iff_not_mem hp).1 hexisting)]
    simp [installation, hexisting, Mutation.home?]
  | some pair =>
    rw [entryPlaces, if_pos (w.mem_names_of_existing hp hexisting)]
    simp [installation, hexisting, Mutation.home?]

/-- The places of the edit: those of the new proxies, document by document, and then that of
a new entry point. -/
theorem filterMap_home?_edit :
    w.edit.filterMap Mutation.home? =
      placesOf program (program.documents.flatMap (program.newHandlersIn dispatcher)) ++
        entryPlaces program dispatcher := by
  rw [edit, List.filterMap_append, filterMap_home?_proxyMutation,
    hp.filter_handlers_eq_flatMap, ← w.toList_home?_installation hp]
  cases h : w.installation.home? <;> simp [h]

omit w in
/-- The handlers of a document have one place. -/
theorem placesOf_newHandlersIn (hd : program.document? i = some d) :
    placesOf program (program.newHandlersIn dispatcher d) =
      List.replicate (program.newHandlersIn dispatcher d).length i := by
  refine List.eq_replicate_iff.2 ⟨List.length_map _, fun place hplace => ?_⟩
  obtain ⟨entry, hentry, rfl⟩ := List.mem_map.1 hplace
  rw [hp.documentOf?_of_mem_newHandlersIn hd hentry, Option.getD_some]

omit w in
/-- The handlers of other documents have other places. -/
theorem notMem_placesOf {documents : List Document}
    (others : ∀ d ∈ documents, ∃ j, j ≠ i ∧ program.document? j = some d) :
    i ∉ placesOf program (documents.flatMap (program.newHandlersIn dispatcher)) := by
  intro hmem
  obtain ⟨entry, hentry, hplace⟩ := List.mem_map.1 hmem
  obtain ⟨d, hd, hentry⟩ := List.mem_flatMap.1 hentry
  obtain ⟨j, hj, hd⟩ := others d hd
  rw [hp.documentOf?_of_mem_newHandlersIn hd hentry, Option.getD_some] at hplace
  exact hj hplace

omit w in
/-- The new proxies of a document get a stretch of the new ids. -/
theorem idsFor_placesOf (hd : program.document? i = some d) :
    idsFor i (placesOf program (program.documents.flatMap (program.newHandlersIn dispatcher)))
        program.functions.length =
      List.range' (program.firstNewId dispatcher i)
        (program.newProxiesIn dispatcher d).length := by
  have hbefore : i ∉ placesOf program
      ((program.documents.take i).flatMap (program.newHandlersIn dispatcher)) := by
    refine notMem_placesOf hp fun d hd => ?_
    obtain ⟨j, hj, rfl⟩ := List.mem_take_iff_getElem.1 hd
    have hlt : j < i := Nat.lt_of_lt_of_le hj (Nat.min_le_left ..)
    exact ⟨j, Nat.ne_of_lt hlt, List.getElem?_eq_getElem _⟩
  have hafter : i ∉ placesOf program
      ((program.documents.drop (i + 1)).flatMap (program.newHandlersIn dispatcher)) := by
    refine notMem_placesOf hp fun d hd => ?_
    obtain ⟨j, hj, rfl⟩ := List.mem_drop_iff_getElem.1 hd
    have hlt : i < i + 1 + j := Nat.lt_of_lt_of_le i.lt_succ_self (Nat.le_add_right ..)
    exact ⟨i + 1 + j, Nat.ne_of_gt hlt, List.getElem?_eq_getElem _⟩
  rw [Program.documents_eq_of_document? hd, List.flatMap_append, List.flatMap_cons,
    placesOf_append, placesOf_append, idsFor_append, idsFor_eq_nil hbefore, List.nil_append,
    idsFor_append, placesOf_newHandlersIn hp hd, idsFor_replicate, idsFor_eq_nil hafter,
    List.append_nil, length_placesOf_flatMap, Program.firstNewId, Program.length_newProxiesIn]

/-- **The new ids of a document** are a stretch of the new ids, and behind it the last one if
the entry point goes here. -/
theorem newIn_edit (hd : program.document? i = some d) :
    Program.newIn w.edit program.functions.length i =
      List.range' (program.firstNewId dispatcher i)
          (program.newProxiesIn dispatcher d).length ++
        if i ∈ entryPlaces program dispatcher then
          [program.firstNewId dispatcher program.documents.length] else [] := by
  show idsFor i (w.edit.filterMap Mutation.home?) program.functions.length = _
  rw [w.filterMap_home?_edit hp, idsFor_append, idsFor_placesOf hp hd, idsFor_entryPlaces,
    length_placesOf_flatMap, Program.firstNewId, Program.firstNewId, List.take_length]

/-! ## The functions at the new ids -/

/-- The new functions, document by document, and then a new entry point. -/
theorem additions_eq_flatMap :
    w.additions = program.documents.flatMap (program.newProxiesIn dispatcher) ++
      if dispatcher.entryPoint ∈ program.names then [] else [w.newEntryPoint] := by
  rw [← hp.addedProxies_eq_flatMap]
  cases hexisting : w.existing with
  | none =>
    rw [if_neg ((w.existing_eq_none_iff_not_mem hp).1 hexisting), w.additions_of_new hexisting]
  | some pair =>
    obtain ⟨id, f⟩ := pair
    rw [if_pos (w.mem_names_of_existing hp hexisting), List.append_nil,
      w.additions_of_existing hexisting]

/-- The functions behind the old ones are the new ones. -/
theorem drop_functions_result :
    w.result.functions.drop program.functions.length = w.additions := by
  refine List.ext_getElem? fun k => ?_
  have hk := w.function?_result_of_le hp (Nat.le_add_right program.functions.length k)
  rw [Nat.add_sub_cancel_left] at hk
  rw [List.getElem?_drop]
  exact hk

/-- The functions at the new ids of a document are its new proxies. -/
theorem map_function?_result (hd : program.document? i = some d) :
    (List.range' (program.firstNewId dispatcher i)
        (program.newProxiesIn dispatcher d).length).map w.result.function? =
      (program.newProxiesIn dispatcher d).map some := by
  -- the proxies of the documents before this one come first
  obtain ⟨behind, hadditions⟩ : ∃ behind, w.additions =
      (program.documents.take i).flatMap (program.newProxiesIn dispatcher) ++
        (program.newProxiesIn dispatcher d ++ behind) := by
    have h := w.additions_eq_flatMap hp
    nth_rewrite 1 [Program.documents_eq_of_document? hd] at h
    rw [List.flatMap_append, List.flatMap_cons, List.append_assoc, List.append_assoc] at h
    exact ⟨_, h⟩
  refine List.ext_getElem (by simp) fun k hk _ => ?_
  have hlt : k < (program.newProxiesIn dispatcher d).length := by
    simpa using hk
  rw [List.getElem_map, List.getElem_map, List.getElem_range', Nat.one_mul,
    w.function?_result_of_le hp (by rw [Program.firstNewId]; omega), Program.firstNewId,
    hadditions, Nat.add_assoc, Nat.add_sub_cancel_left,
    List.getElem?_append_right (Nat.le_add_right ..), Nat.add_sub_cancel_left,
    List.getElem?_append_left hlt, List.getElem?_eq_getElem hlt]

end Consistent

end Wiring

/-! ## What a run adds, and where -/

/-- **What a run that registers handlers adds, where, and what it leaves alone.**  Package,
imports, types and the names of the documents stay.  The new functions are, behind the old
ones, the new proxies document by document and then the entry point, if there was no function
of its name.  Every document keeps its ids; behind them come those of its new proxies, in the
order of their handlers, and in the document of the first handler the last id is that of a new
entry point.  An old function stays under its id unless the name of a proxy or of the entry
point is looked up there. -/
theorem placement_of_register {program result : Program} {dispatcher : Dispatcher}
    {analysis : Analysis} (built : program.Built)
    (run : program.register dispatcher = .ok (analysis, result))
    (registers : analysis.generated ≠ []) :
    let isNew := dispatcher.entryPoint ∉ program.names
    result.toScope = program.toScope ∧
    result.documents.map (·.name) = program.documents.map (·.name) ∧
    ∃ i first home, program.importOf? dispatcher.org dispatcher.package = some i ∧
      (program.handlers dispatcher).head? = some first ∧
      program.documentOf? first.1 = some home ∧
      result.functions.drop program.functions.length =
        program.documents.flatMap (program.newProxiesIn dispatcher) ++
          (if isNew then
            [program.newEntryPoint dispatcher home
              ((program.handlers dispatcher).map (fun entry =>
                  dispatcher.registerCall program.package i
                    ⟨entry.2, dispatcher.proxy program.package entry.2⟩) ++
                [dispatcher.processCall i])]
          else []) ∧
      (∀ k d, program.document? k = some d → ∃ d' ids, result.document? k = some d' ∧
        ids = List.range' (program.firstNewId dispatcher k)
          (program.newProxiesIn dispatcher d).length ∧
        ids.map result.function? = (program.newProxiesIn dispatcher d).map some ∧
        d'.functions = d.functions ++ (ids ++
          if k = home ∧ isNew then
            [program.firstNewId dispatcher program.documents.length] else [])) ∧
      ∀ id f, program.function? id = some f →
        (∀ entry ∈ program.handlers dispatcher,
          program.findFunction? (dispatcher.proxyName entry.2.name) ≠ some id) →
        program.findFunction? dispatcher.entryPoint ≠ some id →
          result.function? id = some f := by
  intro isNew
  have hp := built.consistent
  obtain ⟨w, rfl, rfl⟩ := Program.exists_wiring run registers
  obtain ⟨first, hfirst, hhome, -⟩ := w.exists_handlerDocument hp
  refine ⟨(w.extends_result hp).toScope_eq, w.names_documents_result, w.dispatch, first,
    program.handlerDocument dispatcher, w.importOf?_eq, hfirst, hhome, ?_, ?_, ?_⟩
  · rw [w.drop_functions_result hp, w.additions_eq_flatMap hp, ite_not]
    rfl
  · intro k d hd
    obtain ⟨d', hd', hfunctions⟩ := w.document?_result hd
    refine ⟨d', _, hd', rfl, w.map_function?_result hp hd, ?_⟩
    rw [hfunctions, w.newIn_edit hp hd]
    simp only [Wiring.mem_entryPlaces_iff, isNew]
  · intro id f hf hproxies hentry
    exact w.function?_result_of_untouched hp hf hproxies fun g hexisting =>
      hentry (w.existing_eq_some_iff.1 hexisting).1

/-- A program without an entry point.  Both documents have handlers, and one of the proxies is
there already. -/
def Program.unstarted : Program :=
  (((((((empty ⟨"acme", "shop", "1.0.0"⟩).addImport sampleDispatch).addDocument "orders" ""
    ).addDocument "returns" "").appendFunction 1 (sampleMarked "cancel" sampleParams)
    ).appendFunction 0 (sampleMarked "place" sampleParams)
    ).appendFunction 1 { name := "__func_proxy__place" }
    ).appendFunction 0 (sampleMarked "track" sampleParams)

theorem Program.built_unstarted : unstarted.Built := by
  refine .appendFunction (.appendFunction (.appendFunction (.appendFunction (.addDocument
    (.addDocument (.addImport (.empty _) _) _ _) _ _) ?_ _) ?_ _) ?_ _) ?_ _
  all_goals decide

theorem placement_of_register_sample :
    ∃ analysis result, Program.unstarted.register {} = .ok (analysis, result) ∧
      analysis.generated ≠ [] ∧
      (∃ d, result.document? 0 = some d ∧ d.functions = [1, 3, 4, 6]) ∧
      (∃ d, result.document? 1 = some d ∧ d.functions = [0, 2, 5]) ∧
      result.function? 3 = some (Program.sampleMarked "track" Program.sampleParams) := by
  obtain ⟨⟨analysis, result⟩, hrun, h⟩ := exists_ok_of_any (x := Program.unstarted.register {})
    (P := fun outcome => decide (outcome.1.generated ≠ [])) (by decide)
  have hgenerated : analysis.generated ≠ [] := of_decide_eq_true h
  obtain ⟨-, -, i, first, home, -, hfirst, hhome, -, hdocuments, hstays⟩ :=
    placement_of_register Program.built_unstarted hrun hgenerated
  obtain rfl : home = 0 := by
    have hzero : (Program.unstarted.handlers {}).head?.bind
        (fun entry => Program.unstarted.documentOf? entry.1) = some 0 := by decide
    rw [hfirst, Option.bind_some, hhome] at hzero
    exact Option.some.inj hzero
  refine ⟨analysis, result, hrun, hgenerated, ?_, ?_, ?_⟩
  · obtain ⟨d, ids, hd, rfl, -, hfunctions⟩ := hdocuments 0 _ rfl
    exact ⟨d, hd, hfunctions.trans (by decide)⟩
  · obtain ⟨d, ids, hd, rfl, -, hfunctions⟩ := hdocuments 1 _ rfl
    exact ⟨d, hd, hfunctions.trans (by decide)⟩
  · exact hstays 3 _ rfl (by decide) (by decide)

end LambdaDeploy
