import LambdaDeploy.Proofs.Program.Consistency

/-!
# What an edit makes of a program

An edit changes functions in place and adds new ones behind the old.  The two
kinds do not meet: what a change replaces exists before the edit, so it is never
one of the functions that the edit adds.

* `functions_mutateAll` — the old functions, patched in turn, and then the new
  ones.
* `function?_mutateAll_of_untouched`, `function?_mutateAll_of_settled` — a
  function that no change is made to stays, and one to which a single change is
  made is what that change makes of it.
* `Extends` — the old functions stand under their names, in their documents and in
  their order; others may have come in between.
* `extends_mutateAll` — **an edit that renames nothing extends the program.**
* `map_filter_documents_mutateAll` — an edit moves no function within its document.
* `Extends.findFunction?_eq`, `Consistent.findFunction?_appendFunction` — a name that no
  new function has is looked up as before.
-/

namespace LambdaDeploy

/-! ## Single changes -/

namespace Mutation

/-- The function that is changed in place. -/
def target? : Mutation → Option FunctionId
  | add _ _ => none
  | replaceBody function _ => some function
  | replaceFunction function _ => some function

/-- The function that is added. -/
def addition? : Mutation → Option FunctionDecl
  | add _ function => some function
  | replaceBody _ _ => none
  | replaceFunction _ _ => none

/-- What becomes of the function that is changed in place. -/
def act : Mutation → FunctionDecl → FunctionDecl
  | add _ _, f => f
  | replaceBody _ body, f => { f with body := body }
  | replaceFunction _ replacement, _ => replacement

/-- The functions after a change, without the one it adds. -/
def patch (functions : List FunctionDecl) (m : Mutation) : List FunctionDecl :=
  match m.target? with
  | none => functions
  | some id => functions.modify id m.act

/-- The change leaves the name of every function as it is. -/
def KeepsName (program : Program) : Mutation → Prop
  | replaceFunction function replacement =>
    program.nameOf? function = some replacement.name
  | _ => True

variable {m : Mutation} {functions more : List FunctionDecl} {id : FunctionId}

/-- Making a change twice is making it once. -/
theorem act_act (m : Mutation) (f : FunctionDecl) : m.act (m.act f) = m.act f := by
  cases m <;> rfl

@[simp] theorem length_patch (functions : List FunctionDecl) (m : Mutation) :
    (m.patch functions).length = functions.length := by
  rw [patch]
  split <;> simp

theorem patch_append (h : ∀ id, m.target? = some id → id < functions.length) :
    patch (functions ++ more) m = patch functions m ++ more := by
  cases ht : m.target? with
  | none => simp [patch, ht]
  | some id =>
    have hid := h id ht
    simp only [patch, ht]
    refine List.ext_getElem? fun i => ?_
    by_cases hi : i < functions.length
    · rw [List.getElem?_append_left (by simpa using hi), List.getElem?_modify,
        List.getElem?_modify, List.getElem?_append_left hi]
    · rw [List.getElem?_append_right (by simpa using hi), List.length_modify,
        List.getElem?_modify_ne _ _ (Nat.ne_of_lt (Nat.lt_of_lt_of_le hid (Nat.not_lt.1 hi))),
        List.getElem?_append_right (Nat.not_lt.1 hi)]

theorem getElem?_patch_of_ne (h : m.target? ≠ some id) :
    (patch functions m)[id]? = functions[id]? := by
  cases ht : m.target? with
  | none => simp [patch, ht]
  | some other =>
    have hne : other ≠ id := by
      rintro rfl
      exact h ht
    simp [patch, ht, hne]

theorem getElem?_patch_of_target (h : m.target? = some id) :
    (patch functions m)[id]? = functions[id]?.map m.act := by
  simp [patch, h]

end Mutation

namespace Program

variable {program result : Program} {document : DocumentId} {id : FunctionId}
  {f : FunctionDecl} {m : Mutation} {edit : Edit} {name : String}

theorem target?_lt_of_fits (hm : m.Fits program) (ht : m.target? = some id) :
    id < program.functions.length := by
  cases m with
  | add document f => cases ht
  | replaceBody function body =>
    cases ht
    exact hm
  | replaceFunction function replacement =>
    cases ht
    exact hm

theorem functions_mutate (program : Program) (m : Mutation) :
    (program.mutate m).2.functions = m.patch program.functions ++ m.addition?.toList := by
  cases m with
  | add document f => rfl
  | replaceBody function body => exact (List.append_nil _).symm
  | replaceFunction function replacement => exact (List.append_nil _).symm

/-! ## Functions after an edit -/

theorem functions_mutateAll_of_append {old new : List FunctionDecl}
    (hold : program.functions = old ++ new)
    (targets : ∀ m ∈ edit, ∀ id, m.target? = some id → id < old.length) :
    (program.mutateAll edit).2.functions =
      edit.foldl Mutation.patch old ++ (new ++ edit.filterMap Mutation.addition?) := by
  induction edit generalizing program old new with
  | nil => simp [mutateAll, hold]
  | cons m edit ih =>
    rw [List.forall_mem_cons] at targets
    have hstep : (program.mutate m).2.functions =
        m.patch old ++ (new ++ m.addition?.toList) := by
      rw [functions_mutate, hold, Mutation.patch_append targets.1, List.append_assoc]
    rw [mutateAll_cons, ih hstep (by simpa using targets.2), List.foldl_cons]
    cases ha : m.addition? <;> simp [ha]

/-- **The functions after an edit** are the old ones, patched in turn, and then the
added ones. -/
theorem functions_mutateAll (fits : ∀ m ∈ edit, m.Fits program) :
    (program.mutateAll edit).2.functions =
      edit.foldl Mutation.patch program.functions ++ edit.filterMap Mutation.addition? := by
  have h := functions_mutateAll_of_append (List.append_nil program.functions).symm
    fun m hm id ht => target?_lt_of_fits (fits m hm) ht
  simpa using h

@[simp] theorem length_foldl_patch (functions : List FunctionDecl) (edit : Edit) :
    (edit.foldl Mutation.patch functions).length = functions.length := by
  induction edit generalizing functions with
  | nil => rfl
  | cons m edit ih => rw [List.foldl_cons, ih, Mutation.length_patch]

theorem getElem?_foldl_patch_of_untouched {functions : List FunctionDecl}
    (untouched : ∀ m ∈ edit, m.target? ≠ some id) :
    (edit.foldl Mutation.patch functions)[id]? = functions[id]? := by
  induction edit generalizing functions with
  | nil => rfl
  | cons m edit ih =>
    rw [List.forall_mem_cons] at untouched
    rw [List.foldl_cons, ih untouched.2, Mutation.getElem?_patch_of_ne untouched.1]

/-- Where all changes to a function are one and the same, it does not matter how
often they are made. -/
theorem getElem?_foldl_patch_of_settled {functions : List FunctionDecl} (hm : m ∈ edit)
    (ht : m.target? = some id) (only : ∀ other ∈ edit, other.target? = some id → other = m) :
    (edit.foldl Mutation.patch functions)[id]? = functions[id]?.map m.act := by
  induction edit generalizing functions with
  | nil => exact absurd hm List.not_mem_nil
  | cons first edit ih =>
    rw [List.forall_mem_cons] at only
    rw [List.foldl_cons]
    by_cases hfirst : first.target? = some id
    · obtain rfl := only.1 hfirst
      by_cases hrest : first ∈ edit
      · rw [ih hrest only.2, Mutation.getElem?_patch_of_target ht, Option.map_map]
        congr 1
        funext f
        exact first.act_act f
      · rw [getElem?_foldl_patch_of_untouched, Mutation.getElem?_patch_of_target ht]
        intro other hother hto
        exact hrest (only.2 other hother hto ▸ hother)
    · have hrest : m ∈ edit := by
        rcases List.mem_cons.1 hm with rfl | h
        · exact absurd ht hfirst
        · exact h
      rw [ih hrest only.2, Mutation.getElem?_patch_of_ne hfirst]

theorem function?_mutateAll_of_lt (fits : ∀ m ∈ edit, m.Fits program)
    (hid : id < program.functions.length) :
    (program.mutateAll edit).2.function? id =
      (edit.foldl Mutation.patch program.functions)[id]? := by
  rw [function?, functions_mutateAll fits, List.getElem?_append_left (by simpa using hid)]

/-- A function that no change is made to stays as it is. -/
theorem function?_mutateAll_of_untouched (fits : ∀ m ∈ edit, m.Fits program)
    (hf : program.function? id = some f) (untouched : ∀ m ∈ edit, m.target? ≠ some id) :
    (program.mutateAll edit).2.function? id = some f := by
  rw [function?_mutateAll_of_lt fits (lt_of_function? hf),
    getElem?_foldl_patch_of_untouched untouched]
  exact hf

/-- A function to which one change is made becomes what that change makes of it. -/
theorem function?_mutateAll_of_settled (fits : ∀ m ∈ edit, m.Fits program)
    (hf : program.function? id = some f) (hm : m ∈ edit) (ht : m.target? = some id)
    (only : ∀ other ∈ edit, other.target? = some id → other = m) :
    (program.mutateAll edit).2.function? id = some (m.act f) := by
  rw [function?_mutateAll_of_lt fits (lt_of_function? hf),
    getElem?_foldl_patch_of_settled hm ht only]
  rw [function?] at hf
  rw [hf]
  rfl

/-- The functions that an edit adds get the ids behind the old ones, in order. -/
theorem function?_mutateAll_of_le (fits : ∀ m ∈ edit, m.Fits program)
    (hid : program.functions.length ≤ id) :
    (program.mutateAll edit).2.function? id =
      (edit.filterMap Mutation.addition?)[id - program.functions.length]? := by
  rw [function?, functions_mutateAll fits, List.getElem?_append_right (by simpa using hid),
    length_foldl_patch]

theorem mutateAll_append (program : Program) (edit more : Edit) :
    (program.mutateAll (edit ++ more)).2 = ((program.mutateAll edit).2.mutateAll more).2 := by
  induction edit generalizing program with
  | nil => rfl
  | cons m edit ih => rw [List.cons_append, mutateAll_cons, mutateAll_cons, ih]

theorem fits_mutateAll (hm : m.Fits program) : m.Fits (program.mutateAll edit).2 := by
  induction edit generalizing program with
  | nil => exact hm
  | cons other edit ih =>
    rw [mutateAll_cons]
    exact ih (fits_mutate hm)

/-- An edit of which every change leaves things as they are does nothing. -/
theorem mutateAll_eq_self (h : ∀ m ∈ edit, (program.mutate m).2 = program) :
    (program.mutateAll edit).2 = program := by
  induction edit with
  | nil => rfl
  | cons m edit ih =>
    rw [List.forall_mem_cons] at h
    rw [mutateAll_cons, h.1, ih h.2]

/-- A function is replaced by itself. -/
theorem mutate_replaceFunction_eq_self (hf : program.function? id = some f) :
    (program.mutate (.replaceFunction id f)).2 = program := by
  obtain ⟨hid, rfl⟩ := List.getElem?_eq_some_iff.1 hf
  have hfunctions : program.functions.modify id (fun _ => program.functions[id]) =
      program.functions := by
    refine List.ext_getElem (by simp) fun i _ _ => ?_
    rw [List.getElem_modify]
    split
    · subst_vars
      rfl
    · rfl
  rw [mutate, hfunctions]

/-- A body is replaced by itself. -/
theorem mutate_replaceBody_eq_self (hf : program.function? id = some f) :
    (program.mutate (.replaceBody id f.body)).2 = program := by
  obtain ⟨hid, rfl⟩ := List.getElem?_eq_some_iff.1 hf
  have hfunctions : program.functions.modify id
      (fun f => { f with body := program.functions[id].body }) = program.functions := by
    refine List.ext_getElem (by simp) fun i _ _ => ?_
    rw [List.getElem_modify]
    split
    · subst_vars
      rfl
    · rfl
  rw [mutate, hfunctions]

/-! ## Extensions -/

/-- The functions of a program stand in another one under the same ids and names, in
the same documents and in the same order.  There may be further functions. -/
structure Extends (program result : Program) : Prop where
  toScope_eq : result.toScope = program.toScope
  length_le : program.functions.length ≤ result.functions.length
  order_filter : result.order.filter (· < program.functions.length) = program.order
  documentOf?_eq : ∀ id < program.functions.length,
    result.documentOf? id = program.documentOf? id
  nameOf?_eq : ∀ id < program.functions.length, result.nameOf? id = program.nameOf? id

theorem Consistent.extends_refl (h : program.Consistent) : program.Extends program where
  toScope_eq := rfl
  length_le := Nat.le_refl _
  order_filter := List.filter_eq_self.2 fun _ hid => by simpa using h.mem_order_iff.1 hid
  documentOf?_eq _ _ := rfl
  nameOf?_eq _ _ := rfl

theorem Extends.trans {middle : Program} (h : program.Extends middle)
    (h' : middle.Extends result) : program.Extends result where
  toScope_eq := h'.toScope_eq.trans h.toScope_eq
  length_le := Nat.le_trans h.length_le h'.length_le
  order_filter := by
    rw [← h.order_filter, ← h'.order_filter, List.filter_filter]
    refine List.filter_congr fun id _ => ?_
    have hle := h.length_le
    by_cases hid : id < program.functions.length
    · simp [hid, Nat.lt_of_lt_of_le hid hle]
    · simp [hid]
  documentOf?_eq id hid :=
    (h'.documentOf?_eq id (Nat.lt_of_lt_of_le hid h.length_le)).trans (h.documentOf?_eq id hid)
  nameOf?_eq id hid :=
    (h'.nameOf?_eq id (Nat.lt_of_lt_of_le hid h.length_le)).trans (h.nameOf?_eq id hid)

/-- What decides is the documents and the names. -/
theorem Consistent.extends_of_names (h : program.Consistent)
    (hscope : result.toScope = program.toScope) (hdocuments : result.documents = program.documents)
    (hnames : result.names = program.names) : program.Extends result where
  toScope_eq := hscope
  length_le := by
    have hlength := congrArg List.length hnames
    simp only [names, List.length_map] at hlength
    omega
  order_filter := by
    rw [order, hdocuments]
    exact h.extends_refl.order_filter
  documentOf?_eq id _ := by rw [documentOf?, documentOf?, hdocuments]
  nameOf?_eq id _ := by rw [nameOf?_eq_getElem?, nameOf?_eq_getElem?, hnames]

/-! ### Adding one function -/

theorem names_appendFunction (program : Program) (document : DocumentId) (f : FunctionDecl) :
    (program.appendFunction document f).names = program.names ++ [f.name] := by
  simp [names, appendFunction]

/-- A new function stands behind the old ones. -/
theorem function?_appendFunction_eq_some_iff {g : FunctionDecl} :
    (program.appendFunction document f).function? id = some g ↔
      program.function? id = some g ∨ id = program.functions.length ∧ f = g := by
  rw [function?, function?, appendFunction, List.getElem?_append]
  rcases Nat.lt_trichotomy id program.functions.length with hid | rfl | hid
  · simp [hid, Nat.ne_of_lt hid]
  · simp
  · have hpast : 0 < id - program.functions.length := Nat.sub_pos_of_lt hid
    simp [Nat.lt_asymm hid, Nat.ne_of_gt hid, Nat.ne_of_gt hpast]

theorem documentOf?_appendFunction_of_ne (hid : id ≠ program.functions.length)
    (f : FunctionDecl) :
    (program.appendFunction document f).documentOf? id = program.documentOf? id := by
  have hmodify : ∀ (documents : List Document) (i : Nat),
      (documents.modify i fun d =>
          { d with functions := d.functions ++ [program.functions.length] }).findIdx?
            (fun d => d.functions.contains id) =
        documents.findIdx? fun d => d.functions.contains id := by
    intro documents
    induction documents with
    | nil => simp
    | cons d documents ih =>
      intro i
      cases i with
      | zero => simp [List.findIdx?_cons, hid]
      | succ i => rw [List.modify_succ_cons, List.findIdx?_cons, List.findIdx?_cons, ih]
  exact hmodify program.documents document

/-- A new function is in the document that it was added to. -/
theorem documentOf?_appendFunction_self (h : program.Consistent)
    (hd : document < program.documents.length) (f : FunctionDecl) :
    (program.appendFunction document f).documentOf? program.functions.length =
      some document := by
  refine List.findIdx?_eq_some_iff_getElem.2 ⟨by simpa [appendFunction] using hd, ?_, ?_⟩
  · simp [appendFunction]
  · -- the id is new, so no earlier document holds it
    intro i hi
    have hlt : i < program.documents.length := Nat.lt_trans hi hd
    simp only [appendFunction, List.getElem_modify, if_neg (Nat.ne_of_gt hi)]
    intro hmem
    have hold : program.functions.length ∈ program.order :=
      mem_order_iff_exists.2 ⟨_, List.getElem_mem hlt, by simpa using hmem⟩
    exact absurd (h.mem_order_iff.1 hold) (Nat.lt_irrefl _)

theorem Consistent.extends_appendFunction (h : program.Consistent)
    (hd : document < program.documents.length) (f : FunctionDecl) :
    program.Extends (program.appendFunction document f) where
  toScope_eq := rfl
  length_le := by simp [Program.appendFunction]
  order_filter := by
    obtain ⟨before, after, hold, hnew⟩ := order_appendFunction hd f
    have hall := h.extends_refl.order_filter
    rw [hold] at hall
    rw [hnew, hold, List.filter_append, List.filter_cons_of_neg (by simp),
      ← List.filter_append, hall]
  documentOf?_eq id hid := documentOf?_appendFunction_of_ne (Nat.ne_of_lt hid) f
  nameOf?_eq id hid := by
    rw [nameOf?_eq_getElem?, nameOf?_eq_getElem?, names_appendFunction,
      List.getElem?_append_left (by simpa [names] using hid)]

/-! ### Edits -/

theorem names_mutate_of_target (keeps : m.KeepsName program) (ht : m.target? = some id) :
    (program.mutate m).2.names = program.names := by
  refine List.ext_getElem? fun i => ?_
  rw [← nameOf?_eq_getElem?, ← nameOf?_eq_getElem?]
  cases m with
  | add document f => cases ht
  | replaceBody function body =>
    simp only [mutate, nameOf?, function?, List.getElem?_modify]
    split
    · cases program.functions[i]? <;> rfl
    · simp
  | replaceFunction function replacement =>
    simp only [Mutation.KeepsName] at keeps
    simp only [mutate, nameOf?, function?, List.getElem?_modify]
    split
    · rename_i heq
      subst heq
      obtain ⟨f, hf, hname⟩ := exists_of_nameOf? keeps
      rw [function?] at hf
      simp [hf, hname]
    · simp

theorem Consistent.extends_mutate (h : program.Consistent) (hm : m.Fits program)
    (keeps : m.KeepsName program) : program.Extends (program.mutate m).2 := by
  cases m with
  | add document f => exact h.extends_appendFunction hm f
  | replaceBody function body =>
    exact h.extends_of_names rfl rfl (names_mutate_of_target keeps rfl)
  | replaceFunction function replacement =>
    exact h.extends_of_names rfl rfl (names_mutate_of_target keeps rfl)

theorem Extends.keepsName (h : program.Extends result) (hm : m.Fits program)
    (keeps : m.KeepsName program) : m.KeepsName result := by
  cases m with
  | add document f => trivial
  | replaceBody function body => trivial
  | replaceFunction function replacement => exact (h.nameOf?_eq function hm).trans keeps

/-- **An edit that renames nothing extends the program.** -/
theorem Consistent.extends_mutateAll (h : program.Consistent)
    (fits : ∀ m ∈ edit, m.Fits program) (keeps : ∀ m ∈ edit, m.KeepsName program) :
    program.Extends (program.mutateAll edit).2 := by
  induction edit generalizing program with
  | nil => exact h.extends_refl
  | cons m edit ih =>
    rw [List.forall_mem_cons] at fits keeps
    have hstep := h.extends_mutate fits.1 keeps.1
    exact hstep.trans (ih (h.mutate fits.1) (fun other hother => fits_mutate (fits.2 other hother))
      fun other hother => hstep.keepsName (fits.2 other hother) (keeps.2 other hother))

/-! ### Documents -/

theorem length_functions_mutate (program : Program) (m : Mutation) :
    program.functions.length ≤ (program.mutate m).2.functions.length := by
  rw [functions_mutate, List.length_append, Mutation.length_patch]
  exact Nat.le_add_right ..

/-- A change moves no old function: each document holds its old ids in the old order. -/
theorem map_filter_documents_mutate {bound : Nat} (hbound : bound ≤ program.functions.length)
    (m : Mutation) :
    (program.mutate m).2.documents.map (fun d => d.functions.filter (· < bound)) =
      program.documents.map fun d => d.functions.filter (· < bound) := by
  cases m with
  | add document f =>
    refine List.ext_getElem (by simp [mutate, appendFunction]) fun i _ _ => ?_
    simp only [mutate, appendFunction, List.getElem_map, List.getElem_modify]
    split
    · -- the id that comes in is not among the old ones
      simp [List.filter_append, hbound]
    · rfl
  | replaceBody function body => rfl
  | replaceFunction function replacement => rfl

/-- **An edit moves no function.** -/
theorem map_filter_documents_mutateAll {bound : Nat}
    (hbound : bound ≤ program.functions.length) (edit : Edit) :
    (program.mutateAll edit).2.documents.map (fun d => d.functions.filter (· < bound)) =
      program.documents.map fun d => d.functions.filter (· < bound) := by
  induction edit generalizing program with
  | nil => rfl
  | cons m edit ih =>
    rw [mutateAll_cons, ih (Nat.le_trans hbound (length_functions_mutate program m)),
      map_filter_documents_mutate hbound m]

/-! ### Looking functions up -/

/-- What is searched for among the ids, and never found at a new one, is found where
it was. -/
theorem Extends.filter_order (h : program.Extends result) {P Q : FunctionId → Bool}
    (old : ∀ id < program.functions.length, Q id = P id)
    (new : ∀ id ∈ result.order, program.functions.length ≤ id → Q id = false) :
    result.order.filter Q = program.order.filter P := by
  have hall : ∀ id ∈ program.order, id < program.functions.length := by
    intro id hid
    rw [← h.order_filter] at hid
    simpa using (List.mem_filter.1 hid).2
  rw [← List.filter_congr fun id hid => old id (hall id hid), ← h.order_filter,
    List.filter_filter]
  refine List.filter_congr fun id hid => ?_
  by_cases hlt : id < program.functions.length
  · simp [hlt]
  · simp [new id hid (Nat.not_lt.1 hlt)]

/-- A name that no new function has is looked up as before. -/
theorem Extends.findFunction?_eq (h : program.Extends result)
    (new : ∀ id ∈ result.order, program.functions.length ≤ id →
      result.nameOf? id ≠ some name) :
    result.findFunction? name = program.findFunction? name := by
  rw [findFunction?_eq_find?, findFunction?_eq_find?, ← List.head?_filter, ← List.head?_filter]
  refine congrArg List.head? (h.filter_order (fun id hid => ?_) fun id hmem hid => ?_)
  · rw [h.nameOf?_eq id hid]
  · simpa using new id hmem hid

/-- A new function does not come in the way of other names. -/
theorem Consistent.findFunction?_appendFunction (h : program.Consistent)
    (hd : document < program.documents.length) (hname : f.name ≠ name) :
    (program.appendFunction document f).findFunction? name = program.findFunction? name := by
  refine (h.extends_appendFunction hd f).findFunction?_eq ?_
  intro id _ hid hfound
  obtain ⟨g, hg, hsame⟩ := exists_of_nameOf? hfound
  rcases function?_appendFunction_eq_some_iff.1 hg with hold | ⟨-, rfl⟩
  · exact absurd (lt_of_function? hold) (Nat.not_lt.2 hid)
  · exact hname hsame

end Program

end LambdaDeploy
