import LambdaDeploy.Proofs.Handler.Outcome

/-!
# Marked functions by document

What an analysis registers depends on the marked functions, and on which document each of
them is in.  Their ids do not matter for that, and neither do the other functions.

* `Program.marked` — the marked functions of each document, in order.
* `map_snd_candidates`, `map_snd_handlers` — the candidates and the handlers are read off
  them, document after document.
* `Consistent.marked_appendFunction` — a marked function that is added comes last in its
  document, and any other one changes nothing.
* `Wiring.marked_result` — **a run changes nothing either.**
-/

namespace LambdaDeploy

namespace Program

variable {program : Program} {dispatcher : Dispatcher}

/-- The marked functions among those with these ids. -/
def markedAmong (program : Program) (dispatcher : Dispatcher) (ids : List FunctionId) :
    List FunctionDecl :=
  ids.filterMap fun id => (program.function? id).filter dispatcher.marks

/-- The marked functions of each document. -/
def marked (program : Program) (dispatcher : Dispatcher) : List (List FunctionDecl) :=
  program.documents.map fun d => program.markedAmong dispatcher d.functions

theorem length_marked (program : Program) (dispatcher : Dispatcher) :
    (program.marked dispatcher).length = program.documents.length :=
  List.length_map ..

/-- The candidates, without their ids, are the marked functions of all documents. -/
theorem map_snd_candidates (program : Program) (dispatcher : Dispatcher) :
    (program.candidates dispatcher).map (·.2) = (program.marked dispatcher).flatten := by
  calc (program.candidates dispatcher).map (·.2)
      = (program.declared.map (·.2)).filter dispatcher.marks := by
        rw [candidates, List.filter_map]
        rfl
    _ = program.markedAmong dispatcher program.order := by
        rw [map_snd_declared, List.filter_filterMap, markedAmong]
    _ = (program.marked dispatcher).flatten := by
        rw [markedAmong, order, List.filterMap_flatMap, List.flatMap_def]
        rfl

/-- The handlers are those of the marked functions that have the signature of one. -/
theorem map_snd_handlers (program : Program) (dispatcher : Dispatcher) :
    (program.handlers dispatcher).map (·.2) =
      (program.marked dispatcher).flatten.filter (dispatcher.accepts program.toScope) := by
  rw [← map_snd_candidates, handlers, List.filter_map]
  rfl

/-- Ids without a function do not count. -/
theorem markedAmong_filter (program : Program) (dispatcher : Dispatcher)
    (ids : List FunctionId) :
    program.markedAmong dispatcher (ids.filter (· < program.functions.length)) =
      program.markedAmong dispatcher ids := by
  rw [markedAmong, markedAmong, List.filterMap_filter]
  refine List.filterMap_congr fun id _ => ?_
  by_cases hid : id < program.functions.length
  · simp [hid]
  · have hnone : program.function? id = none := List.getElem?_eq_none (Nat.not_lt.1 hid)
    simp [hid, hnone]

/-! ## Adding a function -/

/-- **A new function comes last** among the marked ones of its document, if it is marked. -/
theorem Consistent.marked_appendFunction (hp : program.Consistent) (document : DocumentId)
    (f : FunctionDecl) :
    (program.appendFunction document f).marked dispatcher =
      (program.marked dispatcher).modify document (· ++ [f].filter dispatcher.marks) := by
  have hold : ∀ d ∈ program.documents,
      (program.appendFunction document f).markedAmong dispatcher d.functions =
        program.markedAmong dispatcher d.functions := by
    intro d hd
    refine List.filterMap_congr fun id hid => ?_
    have hlt := hp.mem_order_iff.1 (mem_order_iff_exists.2 ⟨d, hd, hid⟩)
    rw [function?, function?, Program.appendFunction, List.getElem?_append_left hlt]
  have hnew : (program.appendFunction document f).markedAmong dispatcher
      [program.functions.length] = [f].filter dispatcher.marks := by
    have hf : (program.appendFunction document f).function? program.functions.length = some f :=
      function?_appendFunction_eq_some_iff.2 (.inr ⟨rfl, rfl⟩)
    rw [markedAmong, List.filterMap_cons, hf]
    by_cases hmarks : dispatcher.marks f = true
    · simp [Option.filter, hmarks]
    · simp [Option.filter, hmarks]
  have hdocuments : (program.appendFunction document f).documents =
      program.documents.modify document fun d =>
        { d with functions := d.functions ++ [program.functions.length] } := rfl
  rw [marked, marked, hdocuments]
  refine List.ext_getElem (by simp) fun i hi _ => ?_
  have hlt : i < program.documents.length := by simpa using hi
  simp only [List.getElem_map, List.getElem_modify]
  split
  · rw [markedAmong, List.filterMap_append, ← markedAmong, ← markedAmong,
      hold _ (List.getElem_mem hlt), hnew]
  · exact hold _ (List.getElem_mem hlt)

end Program

namespace Wiring

variable {program : Program} {dispatcher : Dispatcher} (w : Wiring program dispatcher)

/-! ## Running -/

theorem map_filter_documents_result :
    w.result.documents.map (fun d => d.functions.filter (· < program.functions.length)) =
      program.documents.map fun d => d.functions.filter (· < program.functions.length) := by
  rw [← Program.map_filter_documents_mutateAll (Nat.le_refl _) w.edit, result,
    Program.commitSources_eq, List.map_map]
  rfl

/-- **A run leaves the marked functions of each document as they are.** -/
theorem marked_result (hp : program.Consistent) (apart : dispatcher.Apart program)
    (distinct : ((program.handlers dispatcher).map (·.2.name)).Nodup)
    (spares : dispatcher.Spares program) :
    w.result.marked dispatcher = program.marked dispatcher := by
  have hsame : ∀ id, (w.result.function? id).filter dispatcher.marks =
      (program.function? id).filter dispatcher.marks := by
    intro id
    refine Option.ext fun f => ?_
    rw [Option.filter_eq_some_iff, Option.filter_eq_some_iff]
    constructor
    · rintro ⟨hf, hmarks⟩
      exact ⟨w.function?_of_result_of_marks hp apart distinct hf hmarks, hmarks⟩
    · rintro ⟨hf, hmarks⟩
      exact ⟨w.function?_result_of_marks hp spares hf hmarks, hmarks⟩
  have hamong : ∀ ids, w.result.markedAmong dispatcher ids =
      program.markedAmong dispatcher ids := by
    intro ids
    rw [Program.markedAmong, Program.markedAmong]
    exact List.filterMap_congr fun id _ => hsame id
  -- what is marked is seen among the old ids, and those stay in their documents
  have hold : ∀ documents : List Document,
      documents.map (fun d => program.markedAmong dispatcher d.functions) =
        (documents.map fun d => d.functions.filter (· < program.functions.length)).map
          (program.markedAmong dispatcher) := by
    intro documents
    simp only [List.map_map, Function.comp_def, Program.markedAmong_filter]
  calc w.result.marked dispatcher
      = w.result.documents.map fun d => program.markedAmong dispatcher d.functions := by
        simp only [Program.marked, hamong]
    _ = program.marked dispatcher := by
        rw [hold, w.map_filter_documents_result, ← hold, Program.marked]

end Wiring

end LambdaDeploy
