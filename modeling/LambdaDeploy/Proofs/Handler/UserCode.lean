import LambdaDeploy.Proofs.Handler.Outcome
import LambdaDeploy.Proofs.Program.Transcript

/-!
# What a run does to the user's functions

A run overwrites whatever its proxies' names are looked up at, without a look at who
wrote it.  So a function of the user stays if and only if it has none of these names; a
handler can have one of them, and is lost.

* `Wiring.function?_result_eq_iff` — a written function stays exactly if no proxy has its
  name.
* `function?_of_register_iff` — **which functions of an outline a run leaves as they
  are.**
* `shadowing` — an outline with a handler that the proxy of another one overwrites.
-/

namespace LambdaDeploy

/-- A written function other than the entry point stays exactly if no proxy has its
name. -/
theorem Wiring.function?_result_eq_iff {program : Program} {dispatcher : Dispatcher}
    (w : Wiring program dispatcher) (hp : program.Consistent) (distinct : program.names.Nodup)
    (apart : dispatcher.Apart program) {id : FunctionId} {f : FunctionDecl}
    (hf : program.function? id = some f) (written : f.origin = .written)
    (hname : f.name ≠ dispatcher.entryPoint) :
    w.result.function? id = some f ↔
      ∀ entry ∈ program.handlers dispatcher, f.name ≠ dispatcher.proxyName entry.2.name := by
  constructor
  · intro hstays entry hentry heq
    have hfind := hp.findFunction?_name distinct hf
    rw [heq] at hfind
    have hproxy := w.function?_result_of_replaced hp apart
      (hp.nodup_handlers distinct dispatcher) hentry hfind
    rw [hstays] at hproxy
    obtain rfl := Option.some.inj hproxy
    rw [proxy_origin] at written
    cases written
  · intro hfree
    refine w.function?_result_of_untouched hp hf ?_ ?_
    · intro entry hentry hfind
      exact hfree entry hentry (Program.name_of_findFunction? hfind hf)
    · intro g hexisting
      obtain ⟨hfind, -⟩ := w.existing_eq_some_iff.1 hexisting
      exact hname (Program.name_of_findFunction? hfind hf)

/-! ## An overwritten handler -/

/-- An outline with two handlers, of which the second has the name of the first one's
proxy. -/
def shadowing : String :=
  "import ballerinax/awslambda \x7b __register, __process \x7d;
document orders \x7b
@awslambda:Function
function place(awslambda:Context ctx, json order) \x7b
save();
\x7d
@awslambda:Function
function __func_proxy__place(awslambda:Context ctx, json order) \x7b
audit();
\x7d
\x7d
"

set_option maxRecDepth 4096 in
theorem exists_register_shadowing :
    ∃ program analysis result, Program.ofOutline shadowing = .ok program ∧
      program.names = ["place", "__func_proxy__place"] ∧
      program.register {} = .ok (analysis, result) ∧ analysis.generated = program.names ∧
      result.function? 1 ≠ program.function? 1 := by
  have h : (Program.ofOutline shadowing).toOption.any (fun program =>
      decide (program.names = ["place", "__func_proxy__place"]) &&
        (program.register {}).toOption.any fun outcome : Analysis × Program =>
          decide (outcome.1.generated = program.names ∧
            outcome.2.function? 1 ≠ program.function? 1)) = true := by
    -- as a list of characters the text need not be decoded
    rw [Program.ofOutline, show shadowing = String.ofList _ from rfl, String.toList_ofList]
    decide +kernel
  obtain ⟨program, hread, hprogram⟩ := exists_ok_of_any h
  rw [Bool.and_eq_true, decide_eq_true_eq] at hprogram
  obtain ⟨⟨analysis, result⟩, hrun, houtcome⟩ := exists_ok_of_any hprogram.2
  exact ⟨program, analysis, result, hread, hprogram.1, hrun, of_decide_eq_true houtcome⟩

/-- **Which functions of an outline a run leaves as they are.**  All of them are written
by the user.  Of those that are not the entry point, a function stays if and only if its
name is not that of the proxy of a registered handler. -/
theorem function?_of_register_iff {text : String} {program result : Program}
    {analysis : Analysis} (read : Program.ofOutline text = .ok program)
    (distinct : program.names.Nodup) (run : program.register {} = .ok (analysis, result)) :
    ∀ (id : FunctionId) (f : FunctionDecl), program.function? id = some f →
      f.origin = .written ∧
      (f.name ≠ "main" →
        (result.function? id = some f ↔
          ∀ name ∈ analysis.generated, f.name ≠ Dispatcher.proxyName {} name)) := by
  intro id f hf
  have hwritten : f.origin = .written :=
    Program.origin_of_ofOutline read f (List.mem_of_getElem? hf)
  refine ⟨hwritten, fun hname => ?_⟩
  by_cases hgenerated : analysis.generated = []
  · obtain ⟨rfl, -⟩ := Program.register_of_generated_eq_nil run hgenerated
    simp [hf, hgenerated]
  · have hp := Program.consistent_of_ofOutline read
    have apart : Dispatcher.Apart {} program := apart_of_not_reserves (by decide)
    obtain ⟨w, rfl, rfl⟩ := Program.exists_wiring run hgenerated
    rw [w.function?_result_eq_iff hp distinct apart hf hwritten hname]
    simp only [Wiring.analysis, List.forall_mem_map]

theorem function?_of_register_iff_shadowing :
    ∃ program analysis result f, Program.ofOutline shadowing = .ok program ∧
      program.register {} = .ok (analysis, result) ∧ program.function? 0 = some f ∧
      result.function? 0 = some f := by
  obtain ⟨program, analysis, result, hread, hnames, hrun, hgenerated, -⟩ :=
    exists_register_shadowing
  have hname : program.nameOf? 0 = some "place" := by
    rw [Program.nameOf?_eq_getElem?, hnames]
    rfl
  obtain ⟨f, hf, hplace⟩ := Program.exists_of_nameOf? hname
  have hstays := function?_of_register_iff hread (by rw [hnames]; decide) hrun 0 f hf
  refine ⟨program, analysis, result, f, hread, hrun, hf, (hstays.2 ?_).2 ?_⟩
  · rw [hplace]
    decide
  · rw [hgenerated, hnames, hplace]
    decide

/-- The run overwrites a registered handler. -/
theorem function?_ne_of_register_shadowing :
    ∃ program analysis result f, Program.ofOutline shadowing = .ok program ∧
      program.names.Nodup ∧ program.register {} = .ok (analysis, result) ∧
      program.function? 1 = some f ∧ f.name ≠ "main" ∧ f.name ∈ analysis.generated ∧
      result.function? 1 ≠ some f := by
  obtain ⟨program, analysis, result, hread, hnames, hrun, hgenerated, hchanged⟩ :=
    exists_register_shadowing
  have hname : program.nameOf? 1 = some "__func_proxy__place" := by
    rw [Program.nameOf?_eq_getElem?, hnames]
    rfl
  obtain ⟨f, hf, hproxy⟩ := Program.exists_of_nameOf? hname
  refine ⟨program, analysis, result, f, hread, ?_, hrun, hf, ?_, ?_, hf ▸ hchanged⟩
  · rw [hnames]
    decide
  · rw [hproxy]
    decide
  · rw [hgenerated, hnames, hproxy]
    decide

end LambdaDeploy
