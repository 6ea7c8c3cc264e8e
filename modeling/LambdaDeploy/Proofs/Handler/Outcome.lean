import LambdaDeploy.Proofs.Handler.Wiring
import Mathlib.Data.List.Nodup

/-!
# The program after a run

What stands under an id of the resulting program, and which id a name is looked up
at.  Two things keep the generated functions apart: no proxy has the name of the
entry point (`Dispatcher.Apart`), and no two handlers have one name.  A third keeps the
marked functions: none of them has the name of a proxy (`Dispatcher.Spares`).

* `Wiring.function?_result_of_untouched` — what is neither in the place of a proxy nor
  the existing entry point stays.
* `Wiring.function?_result_of_replaced`, `Wiring.function?_result_of_existing` — what is
  in such a place is the proxy, or has the generated body.
* `Wiring.additions` — the functions of the run that are new, in the order of their ids.
* `Wiring.findFunction?_proxyName` — **the name of a proxy is looked up at that proxy.**
* `Wiring.entryPoint_of_existing`, `Wiring.entryPoint_of_new` — the name of the entry
  point is looked up at the function with the generated body.
* `Wiring.nodup_names_result` — distinct names stay distinct.
* `Wiring.candidates_result` — the marked functions are those from before.
-/

namespace LambdaDeploy

/-- No proxy of a handler of the program has the name of the entry point. -/
def Dispatcher.Apart (dispatcher : Dispatcher) (program : Program) : Prop :=
  ∀ entry ∈ program.handlers dispatcher,
    dispatcher.proxyName entry.2.name ≠ dispatcher.entryPoint

/-- No marked function of the program has the name of the proxy of a handler. -/
def Dispatcher.Spares (dispatcher : Dispatcher) (program : Program) : Prop :=
  ∀ candidate ∈ program.candidates dispatcher, ∀ entry ∈ program.handlers dispatcher,
    candidate.2.name ≠ dispatcher.proxyName entry.2.name

theorem apart_of_not_reserves {dispatcher : Dispatcher} {program : Program}
    (h : ¬ dispatcher.Reserves dispatcher.entryPoint) : dispatcher.Apart program := by
  intro entry _ heq
  exact h (heq ▸ reserves_proxyName dispatcher entry.2.name)

theorem spares_of_not_reserves {dispatcher : Dispatcher} {program : Program}
    (h : ∀ name ∈ program.names, ¬ dispatcher.Reserves name) : dispatcher.Spares program := by
  intro candidate hcandidate entry _ heq
  have hname := Program.nameOf?_of_function? (Program.mem_candidates_iff.1 hcandidate).2.1
  rw [Program.nameOf?_eq_getElem?] at hname
  exact h _ (List.mem_of_getElem? hname) (heq ▸ reserves_proxyName dispatcher entry.2.name)

/-- Where all functions have different names, so do the handlers. -/
theorem Program.Consistent.nodup_handlers {program : Program} (hp : program.Consistent)
    (distinct : program.names.Nodup) (dispatcher : Dispatcher) :
    ((program.handlers dispatcher).map (·.2.name)).Nodup := by
  have hdeclared : program.declared.map (·.2.name) = program.order.filterMap program.nameOf? := by
    simp only [declared, List.map_filterMap, Option.map_map]
    rfl
  have hnames : (program.declared.map (·.2.name)).Nodup := by
    rw [hdeclared]
    refine hp.nodup_order.filterMap ?_
    intro id other name hid hother
    exact eq_of_nameOf?_eq distinct hid hother
  have hsublist : (program.handlers dispatcher).Sublist program.declared :=
    List.filter_sublist.trans List.filter_sublist
  exact hnames.sublist (hsublist.map _)

namespace Wiring

variable {program : Program} {dispatcher : Dispatcher} (w : Wiring program dispatcher)
  {id : FunctionId} {f : FunctionDecl} {entry : FunctionId × FunctionDecl}

theorem function?_result (id : FunctionId) : w.result.function? id = w.edited.function? id := by
  rw [result, Program.function?_commitSources]

/-! ## Functions from before the run -/

section Old

variable (hp : program.Consistent)

include hp

/-- A function stays if it is in nobody's way: it is not what the name of a proxy is
looked up at, and not the existing entry point. -/
theorem function?_result_of_untouched (hf : program.function? id = some f)
    (proxies : ∀ entry ∈ program.handlers dispatcher,
      program.findFunction? (dispatcher.proxyName entry.2.name) ≠ some id)
    (existing : ∀ g, w.existing ≠ some (id, g)) : w.result.function? id = some f := by
  rw [function?_result]
  refine Program.function?_mutateAll_of_untouched (fun m hm => w.fits hp hm) hf ?_
  intro m hm ht
  rcases w.target_cases hm ht with ⟨entry, hentry, hfind, -⟩ | ⟨g, hexisting, -⟩
  · exact proxies entry hentry hfind
  · exact existing g hexisting

variable (apart : dispatcher.Apart program)

include apart

/-- The existing entry point gets the generated body, and stays as it is otherwise. -/
theorem function?_result_of_existing (hexisting : w.existing = some (id, f)) :
    w.result.function? id = some { f with body := w.body } := by
  obtain ⟨hfind, hf, -⟩ := w.existing_eq_some_iff.1 hexisting
  have hinstall : w.installation = .replaceBody id w.body := by
    simp [installation, hexisting]
  rw [function?_result]
  refine Program.function?_mutateAll_of_settled (m := .replaceBody id w.body)
    (fun m hm => w.fits hp hm) hf (w.mem_edit_iff.2 (.inr hinstall.symm)) rfl ?_
  intro other hother ht
  rcases w.target_cases hother ht with ⟨entry, hentry, hfind', -⟩ | ⟨g, -, heq⟩
  · -- the entry point would have the name of a proxy, too
    exact absurd (Program.eq_of_findFunction?_eq hfind' hfind) (apart entry hentry)
  · exact heq

variable (distinct : ((program.handlers dispatcher).map (·.2.name)).Nodup)

include distinct

/-- The function that the name of a proxy is looked up at becomes that proxy. -/
theorem function?_result_of_replaced (hentry : entry ∈ program.handlers dispatcher)
    (hfind : program.findFunction? (dispatcher.proxyName entry.2.name) = some id) :
    w.result.function? id = some (dispatcher.proxy program.package entry.2) := by
  obtain ⟨-, f, hf, -⟩ := Program.exists_of_findFunction? hfind
  have hm : Mutation.replaceFunction id (dispatcher.proxy program.package entry.2) ∈ w.edit := by
    refine w.mem_edit_iff.2 (.inl ⟨entry, hentry, ?_⟩)
    simp [Program.proxyMutation, hfind]
  rw [function?_result]
  refine Program.function?_mutateAll_of_settled (fun m hm => w.fits hp hm) hf hm rfl ?_
  intro other hother ht
  rcases w.target_cases hother ht with ⟨entry', hentry', hfind', rfl⟩ | ⟨g, hexisting, -⟩
  · have hsame : entry'.2.name = entry.2.name :=
      proxyName_inj.1 (Program.eq_of_findFunction?_eq hfind' hfind)
    rw [List.inj_on_of_nodup_map distinct hentry' hentry hsame]
  · obtain ⟨hfind', -⟩ := w.existing_eq_some_iff.1 hexisting
    exact absurd (Program.eq_of_findFunction?_eq hfind hfind') (apart entry hentry)

end Old

end Wiring

/-! ## New functions -/

/-- The proxies that are added, since their names are free. -/
def Program.addedProxies (program : Program) (dispatcher : Dispatcher) : List FunctionDecl :=
  ((program.handlers dispatcher).filter fun entry =>
      (program.findFunction? (dispatcher.proxyName entry.2.name)).isNone).map
    fun entry => dispatcher.proxy program.package entry.2

theorem filterMap_addition?_proxyMutation (program : Program) (dispatcher : Dispatcher) :
    ((program.handlers dispatcher).map (program.proxyMutation dispatcher)).filterMap
      Mutation.addition? = program.addedProxies dispatcher := by
  rw [Program.addedProxies]
  induction program.handlers dispatcher with
  | nil => rfl
  | cons entry entries ih =>
    rw [List.map_cons, List.filterMap_cons, ih, List.filter_cons]
    rcases Wiring.proxyMutation_cases program dispatcher entry with
      ⟨id, hfind, heq⟩ | ⟨hfind, heq⟩
    · simp [heq, hfind, Mutation.addition?]
    · simp [heq, hfind, Mutation.addition?]

namespace Wiring

variable {program : Program} {dispatcher : Dispatcher} (w : Wiring program dispatcher)
  {id : FunctionId} {f : FunctionDecl} {entry : FunctionId × FunctionDecl}

/-- The functions that the run adds: proxies, and an entry point if there is none. -/
def additions : List FunctionDecl :=
  program.addedProxies dispatcher ++ w.installation.addition?.toList

theorem filterMap_addition?_edit :
    w.edit.filterMap Mutation.addition? = w.additions := by
  rw [edit, additions, List.filterMap_append, filterMap_addition?_proxyMutation]
  cases h : w.installation.addition? <;> simp [h]

theorem mem_addedProxies_iff :
    f ∈ program.addedProxies dispatcher ↔ ∃ entry ∈ program.handlers dispatcher,
      program.findFunction? (dispatcher.proxyName entry.2.name) = none ∧
        dispatcher.proxy program.package entry.2 = f := by
  simp [Program.addedProxies, and_assoc]

theorem additions_of_existing (hexisting : w.existing = some (id, f)) :
    w.additions = program.addedProxies dispatcher := by
  simp [additions, installation, hexisting, Mutation.addition?]

/-- The entry point of the run, if there was none. -/
def newEntryPoint : FunctionDecl :=
  program.newEntryPoint dispatcher (program.handlerDocument dispatcher) w.body

theorem additions_of_new (hexisting : w.existing = none) :
    w.additions = program.addedProxies dispatcher ++ [w.newEntryPoint] := by
  simp [additions, installation, hexisting, Mutation.addition?, newEntryPoint]

/-- A new function is a proxy whose name was free, or the entry point. -/
theorem mem_additions (h : f ∈ w.additions) :
    (∃ entry ∈ program.handlers dispatcher,
      program.findFunction? (dispatcher.proxyName entry.2.name) = none ∧
        f = dispatcher.proxy program.package entry.2) ∨
      w.existing = none ∧ f = w.newEntryPoint := by
  rw [← filterMap_addition?_edit] at h
  obtain ⟨m, hm, ha⟩ := List.mem_filterMap.1 h
  exact w.addition_cases hm ha

section New

variable (hp : program.Consistent)

include hp

theorem function?_result_of_le (hid : program.functions.length ≤ id) :
    w.result.function? id = w.additions[id - program.functions.length]? := by
  rw [function?_result, edited, Program.function?_mutateAll_of_le (fun m hm => w.fits hp hm) hid,
    filterMap_addition?_edit]

/-- The names of the new functions come behind the old names. -/
theorem names_result :
    w.result.names = program.names ++ w.additions.map (·.name) := by
  refine List.ext_getElem? fun id => ?_
  have hlength : program.names.length = program.functions.length := by simp [Program.names]
  rw [← Program.nameOf?_eq_getElem?]
  by_cases hid : id < program.functions.length
  · rw [(w.extends_result hp).nameOf?_eq id hid, Program.nameOf?_eq_getElem?,
      List.getElem?_append_left (by rwa [hlength])]
  · rw [List.getElem?_append_right (by rw [hlength]; exact Nat.not_lt.1 hid), hlength,
      Program.nameOf?, w.function?_result_of_le hp (Nat.not_lt.1 hid), List.getElem?_map]

/-! ## Looking names up -/

/-- A name that no new function has is looked up as before. -/
theorem findFunction?_result_of_old {name : String} (new : ∀ g ∈ w.additions, g.name ≠ name) :
    w.result.findFunction? name = program.findFunction? name := by
  refine (w.extends_result hp).findFunction?_eq ?_
  intro id _ hid hname
  obtain ⟨g, hg, hsame⟩ := Program.exists_of_nameOf? hname
  rw [w.function?_result_of_le hp hid] at hg
  exact new g (List.mem_of_getElem? hg) hsame

/-- A free name that one new function has is looked up at that function. -/
theorem findFunction?_result_of_new {k : Nat} (hk : w.additions[k]? = some f)
    (free : program.findFunction? f.name = none)
    (unique : ∀ (j : Nat) (g : FunctionDecl),
      w.additions[j]? = some g → g.name = f.name → j = k) :
    w.result.findFunction? f.name = some (program.functions.length + k) ∧
      w.result.function? (program.functions.length + k) = some f := by
  have hf : w.result.function? (program.functions.length + k) = some f := by
    rw [w.function?_result_of_le hp (Nat.le_add_right ..), Nat.add_sub_cancel_left, hk]
  refine ⟨Program.findFunction?_eq_some_of_unique
    ((w.consistent_result hp).mem_order_of_function? hf) (Program.nameOf?_of_function? hf) ?_, hf⟩
  intro other _ hname
  by_cases hlt : other < program.functions.length
  · rw [(w.extends_result hp).nameOf?_eq other hlt] at hname
    exact absurd hname (Program.findFunction?_eq_none_iff.1 free other (hp.mem_order_iff.2 hlt))
  · obtain ⟨g, hg, hsame⟩ := Program.exists_of_nameOf? hname
    rw [w.function?_result_of_le hp (Nat.not_lt.1 hlt)] at hg
    have hindex : other - program.functions.length = k := unique _ g hg hsame
    rw [← hindex, Nat.add_sub_cancel' (Nat.not_lt.1 hlt)]

/-! ### The entry point -/

variable (apart : dispatcher.Apart program)

include apart

/-- The existing entry point is still found, with the generated body. -/
theorem entryPoint_of_existing (hexisting : w.existing = some (id, f)) :
    w.result.findFunction? dispatcher.entryPoint = some id ∧
      w.result.function? id = some { f with body := w.body } := by
  refine ⟨?_, w.function?_result_of_existing hp apart hexisting⟩
  rw [w.findFunction?_result_of_old hp]
  · exact (w.existing_eq_some_iff.1 hexisting).1
  · intro g hg hname
    rcases w.mem_additions hg with ⟨entry, hentry, -, rfl⟩ | ⟨hnone, -⟩
    · exact apart entry hentry hname
    · rw [hnone] at hexisting
      cases hexisting

omit apart in
/-- A new entry point is in the document of the first handler. -/
theorem documentOf?_newEntryPoint (hexisting : w.existing = none) :
    w.result.documentOf?
        (program.functions.length + (program.addedProxies dispatcher).length) =
      some (program.handlerDocument dispatcher) := by
  have hfits : ∀ m ∈ (program.handlers dispatcher).map (program.proxyMutation dispatcher),
      m.Fits program := fun m hm => w.fits hp (List.mem_append_left _ hm)
  have hinstall : w.installation =
      .add (program.handlerDocument dispatcher) w.newEntryPoint := by
    simp [installation, hexisting, newEntryPoint]
  -- the proxies are in place when the entry point is added
  have hlast : w.installation.Fits (program.mutateAll
      ((program.handlers dispatcher).map (program.proxyMutation dispatcher))).2 :=
    Program.fits_mutateAll (w.fits hp (w.mem_edit_iff.2 (.inr rfl)))
  have hlength := congrArg List.length (Program.functions_mutateAll hfits)
  rw [List.length_append, Program.length_foldl_patch, filterMap_addition?_proxyMutation] at hlength
  rw [hinstall] at hlast
  rw [result, Program.documentOf?_commitSources, edited, edit, Program.mutateAll_append, hinstall,
    ← hlength]
  exact Program.documentOf?_appendFunction_self (hp.mutateAll hfits) hlast _

/-- The new entry point is found, in the document of the first handler. -/
theorem entryPoint_of_new (hexisting : w.existing = none) :
    ∃ id, program.functions.length ≤ id ∧
      w.result.findFunction? dispatcher.entryPoint = some id ∧
      w.result.function? id = some w.newEntryPoint ∧
      w.result.documentOf? id = some (program.handlerDocument dispatcher) := by
  have hadditions := w.additions_of_new hexisting
  have hk : w.additions[(program.addedProxies dispatcher).length]? = some w.newEntryPoint := by
    simp [hadditions]
  have hfree := w.existing_eq_none_iff.1 hexisting
  -- before it there are proxies only, and none of them has its name
  have hunique : ∀ (j : Nat) (g : FunctionDecl), w.additions[j]? = some g →
      g.name = w.newEntryPoint.name → j = (program.addedProxies dispatcher).length := by
    intro j g hj hname
    rw [hadditions] at hj
    by_cases hlt : j < (program.addedProxies dispatcher).length
    · rw [List.getElem?_append_left hlt] at hj
      obtain ⟨entry, hentry, -, rfl⟩ := mem_addedProxies_iff.1 (List.mem_of_getElem? hj)
      exact absurd hname (apart entry hentry)
    · have hbound := (List.getElem?_eq_some_iff.1 hj).1
      rw [List.length_append, List.length_singleton] at hbound
      omega
  obtain ⟨hfind, hf⟩ := w.findFunction?_result_of_new hp hk hfree hunique
  exact ⟨_, Nat.le_add_right .., hfind, hf, w.documentOf?_newEntryPoint hp hexisting⟩

/-- After the run there is an entry point with the generated body. -/
theorem exists_entryPoint :
    ∃ id f, w.result.entryPoint? dispatcher = .ok (some (id, f)) ∧
      w.result.findFunction? dispatcher.entryPoint = some id ∧
      w.result.function? id = some f ∧ f.body = w.body := by
  cases hexisting : w.existing with
  | some pair =>
    obtain ⟨id, f⟩ := pair
    obtain ⟨-, -, hmarks, hparams, hrest⟩ := w.existing_eq_some_iff.1 hexisting
    obtain ⟨hfind, hf⟩ := w.entryPoint_of_existing hp apart hexisting
    have hentry := Program.entryPoint?_eq_ok_some_iff.2 ⟨hfind, hf, hmarks, hparams, hrest⟩
    exact ⟨id, _, hentry, hfind, hf, rfl⟩
  | none =>
    obtain ⟨id, -, hfind, hf, -⟩ := w.entryPoint_of_new hp apart hexisting
    have hmarks : dispatcher.marks w.newEntryPoint = false := marks_of_annotations_nil rfl
    have hentry := Program.entryPoint?_eq_ok_some_iff.2 ⟨hfind, hf, hmarks, rfl, rfl⟩
    exact ⟨id, _, hentry, hfind, hf, rfl⟩

/-! ### Proxies -/

variable (distinct : ((program.handlers dispatcher).map (·.2.name)).Nodup)

include distinct

omit hp in
/-- No two new functions have one name. -/
theorem nodup_additions : (w.additions.map (·.name)).Nodup := by
  have hproxies : ((program.addedProxies dispatcher).map (·.name)).Nodup := by
    have hhandlers := distinct.sublist ((List.filter_sublist (p := fun entry =>
      (program.findFunction? (dispatcher.proxyName entry.2.name)).isNone)).map _)
    have hnames := hhandlers.map (f := dispatcher.proxyName) fun _ _ => proxyName_inj.1
    simpa [Program.addedProxies, Function.comp_def] using hnames
  cases hexisting : w.existing with
  | some pair =>
    rw [w.additions_of_existing hexisting]
    exact hproxies
  | none =>
    rw [w.additions_of_new hexisting, List.map_append]
    refine hproxies.append (List.nodup_singleton _) ?_
    intro name hname hentry
    obtain ⟨f, hf, rfl⟩ := List.mem_map.1 hname
    obtain ⟨entry, hmem, -, rfl⟩ := mem_addedProxies_iff.1 hf
    exact apart entry hmem (List.mem_singleton.1 hentry)

/-- **The name of a proxy is looked up at that proxy.** -/
theorem findFunction?_proxyName (hentry : entry ∈ program.handlers dispatcher) :
    ∃ id, w.result.findFunction? (dispatcher.proxyName entry.2.name) = some id ∧
      w.result.function? id = some (dispatcher.proxy program.package entry.2) := by
  cases hfind : program.findFunction? (dispatcher.proxyName entry.2.name) with
  | some id =>
    refine ⟨id, ?_, w.function?_result_of_replaced hp apart distinct hentry hfind⟩
    rw [w.findFunction?_result_of_old hp, hfind]
    intro g hg hname
    rcases w.mem_additions hg with ⟨other, -, hfree, rfl⟩ | ⟨-, rfl⟩
    · rw [proxy_name] at hname
      rw [hname, hfind] at hfree
      cases hfree
    · exact apart entry hentry hname.symm
  | none =>
    have hmem : dispatcher.proxy program.package entry.2 ∈ w.additions :=
      List.mem_append_left _ (mem_addedProxies_iff.2 ⟨entry, hentry, hfind, rfl⟩)
    obtain ⟨k, hk⟩ := List.mem_iff_getElem?.1 hmem
    have hunique : ∀ (j : Nat) (g : FunctionDecl), w.additions[j]? = some g →
        g.name = (dispatcher.proxy program.package entry.2).name → j = k := by
      intro j g hj hname
      have hlt := (List.getElem?_eq_some_iff.1 hj).1
      refine (List.getElem?_inj (by simpa using hlt) (w.nodup_additions apart distinct)).1 ?_
      rw [List.getElem?_map, List.getElem?_map, hj, hk, Option.map_some, Option.map_some, hname]
    have hnew := w.findFunction?_result_of_new hp hk
    rw [proxy_name] at hnew hunique
    exact ⟨_, hnew hfind hunique⟩

/-- Under distinct names before the run, the names after it are distinct. -/
theorem nodup_names_result (old : program.names.Nodup) : w.result.names.Nodup := by
  rw [w.names_result hp]
  refine old.append (w.nodup_additions apart distinct) ?_
  intro name hold hnew
  obtain ⟨f, hf, rfl⟩ := List.mem_map.1 hnew
  refine hp.findFunction?_eq_none_iff.1 ?_ hold
  rcases w.mem_additions hf with ⟨entry, -, hfree, rfl⟩ | ⟨hexisting, rfl⟩
  · exact hfree
  · exact w.existing_eq_none_iff.1 hexisting

end New

end Wiring

/-! ## Marked functions -/

/-- The marked functions of a program are found by running through the marked ids. -/
theorem Program.candidates_eq_filterMap (program : Program) (dispatcher : Dispatcher) :
    program.candidates dispatcher =
      (program.order.filter fun id => (program.function? id).any dispatcher.marks).filterMap
        fun id => (program.function? id).map fun f => (id, f) := by
  rw [candidates, declared]
  induction program.order with
  | nil => rfl
  | cons id ids ih =>
    cases hf : program.function? id with
    | none => simp [hf, ih]
    | some f => by_cases hmarks : dispatcher.marks f = true <;> simp [hf, hmarks, ih]

/-- An extension with the same marked functions finds them in the same order. -/
theorem Program.Extends.candidates_eq {program result : Program} {dispatcher : Dispatcher}
    (h : program.Extends result)
    (same : ∀ id f, dispatcher.marks f = true →
      (result.function? id = some f ↔ program.function? id = some f)) :
    result.candidates dispatcher = program.candidates dispatcher := by
  have horder : (result.order.filter fun id => (result.function? id).any dispatcher.marks) =
      program.order.filter fun id => (program.function? id).any dispatcher.marks := by
    refine h.filter_order (fun id _ => ?_) fun id _ hid => ?_
    · rw [Bool.eq_iff_iff, Option.any_eq_true, Option.any_eq_true]
      constructor
      · rintro ⟨f, hf, hmarks⟩
        exact ⟨f, (same id f hmarks).1 hf, hmarks⟩
      · rintro ⟨f, hf, hmarks⟩
        exact ⟨f, (same id f hmarks).2 hf, hmarks⟩
    · rw [← Bool.not_eq_true, Option.any_eq_true]
      rintro ⟨f, hf, hmarks⟩
      exact absurd (lt_of_function? ((same id f hmarks).1 hf)) (Nat.not_lt.2 hid)
  rw [candidates_eq_filterMap, candidates_eq_filterMap, horder]
  refine List.filterMap_congr fun id hid => ?_
  obtain ⟨f, hf, hmarks⟩ := (Option.any_eq_true ..).1 (List.mem_filter.1 hid).2
  rw [hf, (same id f hmarks).2 hf]

namespace Wiring

variable {program : Program} {dispatcher : Dispatcher} (w : Wiring program dispatcher)
  {id : FunctionId} {f : FunctionDecl}

section Marked

variable (hp : program.Consistent) (apart : dispatcher.Apart program)
  (distinct : ((program.handlers dispatcher).map (·.2.name)).Nodup)
  (spares : dispatcher.Spares program)

include hp spares

/-- A marked function stays. -/
theorem function?_result_of_marks (hf : program.function? id = some f)
    (hmarks : dispatcher.marks f = true) : w.result.function? id = some f := by
  have hcandidate : (id, f) ∈ program.candidates dispatcher :=
    Program.mem_candidates_iff.2 ⟨hp.mem_order_of_function? hf, hf, hmarks⟩
  refine w.function?_result_of_untouched hp hf ?_ ?_
  · intro entry hentry hfind
    exact spares _ hcandidate entry hentry (Program.name_of_findFunction? hfind hf)
  · intro g hexisting
    obtain ⟨-, hg, hnot, -⟩ := w.existing_eq_some_iff.1 hexisting
    obtain rfl : f = g := Option.some.inj (hf.symm.trans hg)
    rw [hmarks] at hnot
    cases hnot

include apart distinct

omit spares in
/-- The run marks nothing: a marked function of the result was there before. -/
theorem function?_of_result_of_marks (hf : w.result.function? id = some f)
    (hmarks : dispatcher.marks f = true) : program.function? id = some f := by
  have hproxy : ∀ handler, f ≠ dispatcher.proxy program.package handler := by
    rintro handler rfl
    rw [marks_of_annotations_nil (proxy_annotations ..)] at hmarks
    cases hmarks
  by_cases hid : id < program.functions.length
  · obtain ⟨g, hg⟩ := Program.exists_function?_of_lt hid
    by_cases hreplaced : ∃ entry ∈ program.handlers dispatcher,
        program.findFunction? (dispatcher.proxyName entry.2.name) = some id
    · obtain ⟨entry, hentry, hfind⟩ := hreplaced
      rw [w.function?_result_of_replaced hp apart distinct hentry hfind] at hf
      exact absurd (Option.some.inj hf).symm (hproxy entry.2)
    · by_cases hexisting : ∃ g, w.existing = some (id, g)
      · obtain ⟨g, hexisting⟩ := hexisting
        rw [w.function?_result_of_existing hp apart hexisting] at hf
        obtain rfl := Option.some.inj hf
        have hnot : dispatcher.marks g = false := (w.existing_eq_some_iff.1 hexisting).2.2.1
        have hsame : dispatcher.marks { g with body := w.body } = dispatcher.marks g := rfl
        rw [hsame, hnot] at hmarks
        cases hmarks
      · have hstays := w.function?_result_of_untouched hp hg
          (fun entry hentry hfind => hreplaced ⟨entry, hentry, hfind⟩)
          fun g hg => hexisting ⟨g, hg⟩
        rw [hstays] at hf
        rw [hg, hf]
  · rw [w.function?_result_of_le hp (Nat.not_lt.1 hid)] at hf
    rcases w.mem_additions (List.mem_of_getElem? hf) with ⟨entry, -, -, rfl⟩ | ⟨-, rfl⟩
    · exact absurd rfl (hproxy entry.2)
    · rw [marks_of_annotations_nil rfl] at hmarks
      cases hmarks

/-- **The marked functions are those from before the run.** -/
theorem candidates_result : w.result.candidates dispatcher = program.candidates dispatcher :=
  (w.extends_result hp).candidates_eq fun _ _ hmarks =>
    ⟨fun hf => w.function?_of_result_of_marks hp apart distinct hf hmarks,
      fun hf => w.function?_result_of_marks hp spares hf hmarks⟩

theorem handlers_result : w.result.handlers dispatcher = program.handlers dispatcher := by
  rw [Program.handlers, Program.handlers, w.candidates_result hp apart distinct spares,
    (w.extends_result hp).toScope_eq]

theorem rejections_result :
    w.result.rejections dispatcher = program.rejections dispatcher := by
  rw [Program.rejections, Program.rejections, w.candidates_result hp apart distinct spares,
    (w.extends_result hp).toScope_eq]

end Marked

end Wiring

end LambdaDeploy
