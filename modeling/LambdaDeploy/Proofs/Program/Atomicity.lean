import LambdaDeploy.Proofs.Program.Editing
import LambdaDeploy.Proofs.Program.InPlace

/-!
# Edits as a whole

An edit is checked against the program as it is before the first change: an id that the edit
itself would add does not count.  So either the first change without a target is named and
nothing has happened, or every change is made, and then what the edit has made of the program
can be said without running it.

* `checkEdit_of_split` — an edit is refused for its first change without a target.
* `fst_mutateAll`, `documents_mutateAll` — the new ids are the next ones, in the order of the
  edit, and each goes to the end of its document.
* `function?_mutateAll_of_bodies`, `function?_mutateAll_of_replaced` — of the changes to one
  function, the last replacement counts and then the last body behind it.
* `Edited` — what an edit has made of a program.
* `apply_as_a_whole` — **all of it, for every edit**, and edits in turn are one edit.
-/

namespace LambdaDeploy

namespace Mutation

/-- What is said about a change whose document or function is missing. -/
def missing : Mutation → BuildError
  | add document _ => .unknownDocument document
  | replaceBody function _ => .unknownFunction function
  | replaceFunction function _ => .unknownFunction function

/-- The document to which a function is added. -/
def home? : Mutation → Option DocumentId
  | add document _ => some document
  | replaceBody _ _ => none
  | replaceFunction _ _ => none

/-- The body that a function is given. -/
def bodyFor? (id : FunctionId) : Mutation → Option (List Stmt)
  | add _ _ => none
  | replaceBody function body => if function = id then some body else none
  | replaceFunction _ _ => none

end Mutation

/-- The function with the last of some bodies, or with its own if there are none. -/
def FunctionDecl.withLast (f : FunctionDecl) (bodies : List (List Stmt)) : FunctionDecl :=
  { f with body := bodies.getLast?.getD f.body }

namespace Program

variable {program : Program} {edit before after : Edit} {m : Mutation} {id : FunctionId}
  {f replacement : FunctionDecl}

/-! ## Refused edits -/

theorem check_of_not_fits (hm : ¬m.Fits program) : m.check program = .error m.missing := by
  cases m with
  | add document f => exact if_neg hm
  | replaceBody function body => exact if_neg hm
  | replaceFunction function replacement => exact if_neg hm

/-- **An edit is refused for its first change without a target.** -/
theorem checkEdit_of_split (hbefore : ∀ other ∈ before, other.Fits program)
    (hm : ¬m.Fits program) : program.checkEdit (before ++ m :: after) = .error m.missing := by
  induction before with
  | nil =>
    rw [List.nil_append, checkEdit, check_of_not_fits hm]
    rfl
  | cons first before ih =>
    rw [List.forall_mem_cons] at hbefore
    rw [List.cons_append, checkEdit, check_eq_ok_iff.2 hbefore.1]
    exact ih hbefore.2

/-- Of changes that do not all have their targets, one is the first without. -/
theorem exists_split_of_not_fits (h : ∃ m ∈ edit, ¬m.Fits program) :
    ∃ before m after, edit = before ++ m :: after ∧
      (∀ other ∈ before, other.Fits program) ∧ ¬m.Fits program := by
  induction edit with
  | nil =>
    obtain ⟨m, hm, -⟩ := h
    cases hm
  | cons first edit ih =>
    by_cases hfirst : first.Fits program
    · have hrest : ∃ m ∈ edit, ¬m.Fits program := by
        obtain ⟨m, hm, hnot⟩ := h
        rcases List.mem_cons.1 hm with rfl | hm
        · exact absurd hfirst hnot
        · exact ⟨m, hm, hnot⟩
      obtain ⟨before, m, after, rfl, hbefore, hm⟩ := ih hrest
      refine ⟨first :: before, m, after, rfl, ?_, hm⟩
      intro other hother
      rcases List.mem_cons.1 hother with rfl | hother
      · exact hfirst
      · exact hbefore other hother
    · exact ⟨[], first, edit, rfl, fun other hother => absurd hother List.not_mem_nil, hfirst⟩

/-! ## New functions -/

/-- The new ids are the next ones, in order. -/
theorem fst_mutateAll (program : Program) (edit : Edit) :
    (program.mutateAll edit).1 =
      List.range' program.functions.length (edit.filterMap Mutation.addition?).length := by
  induction edit generalizing program with
  | nil => rfl
  | cons m edit ih =>
    have hstep : (program.mutateAll (m :: edit)).1 =
        (program.mutate m).1 ++ ((program.mutate m).2.mutateAll edit).1 := rfl
    rw [hstep, ih]
    cases m with
    | add document f => simp [mutate, appendFunction, Mutation.addition?, List.range'_succ]
    | replaceBody function body =>
      simp [mutate, Mutation.addition?, List.filterMap_cons]
    | replaceFunction function replacement =>
      simp [mutate, Mutation.addition?, List.filterMap_cons]

theorem fst_mutateAll_append (program : Program) (edit more : Edit) :
    (program.mutateAll (edit ++ more)).1 =
      (program.mutateAll edit).1 ++ ((program.mutateAll edit).2.mutateAll more).1 := by
  induction edit generalizing program with
  | nil => rfl
  | cons m edit ih =>
    show (program.mutate m).1 ++ ((program.mutate m).2.mutateAll (edit ++ more)).1 =
      (program.mutate m).1 ++ ((program.mutate m).2.mutateAll edit).1 ++ _
    rw [ih, List.append_assoc]
    rfl

/-- The ids that an edit adds to a document: its additions are numbered from `next` on, in the
order of the edit. -/
def newIn (edit : Edit) (next : FunctionId) (document : DocumentId) : List FunctionId :=
  (((edit.filterMap Mutation.home?).zipIdx next).filter (·.1 = document)).map (·.2)

theorem newIn_add (document other : DocumentId) (f : FunctionDecl) (edit : Edit)
    (next : FunctionId) :
    newIn (.add document f :: edit) next other =
      (if document = other then [next] else []) ++ newIn edit (next + 1) other := by
  by_cases h : document = other
  · simp [newIn, Mutation.home?, List.zipIdx_cons, h]
  · simp [newIn, Mutation.home?, List.zipIdx_cons, h]

/-- **Every new id goes to the end of its document**, and nothing else of a document changes. -/
theorem documents_mutateAll (program : Program) (edit : Edit) :
    (program.mutateAll edit).2.documents =
      program.documents.mapIdx fun document d =>
        { d with functions := d.functions ++ newIn edit program.functions.length document } := by
  induction edit generalizing program with
  | nil =>
    refine List.ext_getElem (by simp [mutateAll]) fun i _ _ => ?_
    simp [mutateAll, newIn]
  | cons m edit ih =>
    rw [mutateAll_cons, ih]
    refine List.ext_getElem ?_ fun i _ _ => ?_
    · cases m <;> simp [mutate, appendFunction]
    · cases m with
      | add document f =>
        simp only [mutate, appendFunction, List.getElem_mapIdx, List.getElem_modify,
          List.length_append, List.length_singleton, newIn_add]
        split <;> simp [*]
      | replaceBody function body =>
        simp [mutate, newIn, Mutation.home?, List.filterMap_cons]
      | replaceFunction function replacement =>
        simp [mutate, newIn, Mutation.home?, List.filterMap_cons]

/-! ## Functions that are changed -/

/-- Where no change replaces a function as a whole, it gets the last body that it is given. -/
theorem getElem?_foldl_patch_of_bodies {functions : List FunctionDecl}
    (hkept : ∀ replacement, .replaceFunction id replacement ∉ edit) :
    (edit.foldl Mutation.patch functions)[id]? =
      functions[id]?.map (·.withLast (edit.filterMap (Mutation.bodyFor? id))) := by
  induction edit generalizing functions with
  | nil => simp [FunctionDecl.withLast]
  | cons m edit ih =>
    have hrest : ∀ replacement, .replaceFunction id replacement ∉ edit := fun replacement hmem =>
      hkept replacement (List.mem_cons_of_mem m hmem)
    rw [List.foldl_cons, ih hrest]
    by_cases ht : m.target? = some id
    · rw [Mutation.getElem?_patch_of_target ht, Option.map_map]
      cases m with
      | add document f => cases ht
      | replaceBody function body =>
        cases ht
        simp [Mutation.bodyFor?, Mutation.act, FunctionDecl.withLast, Function.comp_def,
          List.getLast?_cons]
      | replaceFunction function replacement =>
        cases ht
        exact absurd List.mem_cons_self (hkept replacement)
    · rw [Mutation.getElem?_patch_of_ne ht]
      have hnone : m.bodyFor? id = none := by
        cases m with
        | add document f => rfl
        | replaceBody function body =>
          have hne : function ≠ id := fun heq => ht (congrArg some heq)
          simp [Mutation.bodyFor?, hne]
        | replaceFunction function replacement => rfl
      rw [List.filterMap_cons_none hnone]

/-- A function that no change replaces as a whole has the last body that it is given. -/
theorem function?_mutateAll_of_bodies (fits : ∀ m ∈ edit, m.Fits program)
    (hf : program.function? id = some f)
    (hkept : ∀ replacement, .replaceFunction id replacement ∉ edit) :
    (program.mutateAll edit).2.function? id =
      some (f.withLast (edit.filterMap (Mutation.bodyFor? id))) := by
  rw [function?_mutateAll_of_lt fits (lt_of_function? hf), getElem?_foldl_patch_of_bodies hkept]
  rw [function?] at hf
  rw [hf]
  rfl

/-- **The last replacement of a function counts**, and then the last body that it is given. -/
theorem function?_mutateAll_of_replaced (fits : ∀ m ∈ edit, m.Fits program)
    (hedit : edit = before ++ .replaceFunction id replacement :: after)
    (hlast : ∀ other, .replaceFunction id other ∉ after) :
    (program.mutateAll edit).2.function? id =
      some (replacement.withLast (after.filterMap (Mutation.bodyFor? id))) := by
  have hid : id < program.functions.length :=
    fits (.replaceFunction id replacement) (by rw [hedit]; simp)
  rw [function?_mutateAll_of_lt fits hid, hedit, List.foldl_append, List.foldl_cons,
    getElem?_foldl_patch_of_bodies hlast, Mutation.getElem?_patch_of_target rfl]
  have hlength : id < (before.foldl Mutation.patch program.functions).length := by simpa using hid
  rw [List.getElem?_eq_getElem hlength]
  rfl

/-! ## The whole of an edit -/

/-- What an edit has made of a program. -/
structure Edited (program : Program) (edit : Edit) (result : Program) : Prop where
  /-- Package, imports and types stay. -/
  scope : result.toScope = program.toScope
  /-- The documents keep their names, their texts and their ids, and the new ids come behind. -/
  documents : result.documents = program.documents.mapIdx fun document d =>
    { d with functions := d.functions ++ newIn edit program.functions.length document }
  /-- The new functions stand behind the old ones, in the order of the edit. -/
  added : ∀ id, program.functions.length ≤ id →
    result.function? id = (edit.filterMap Mutation.addition?)[id - program.functions.length]?
  untouched : ∀ id < program.functions.length, (∀ m ∈ edit, m.target? ≠ some id) →
    result.function? id = program.function? id
  /-- A function that is not replaced as a whole gets the last of its bodies. -/
  rebodied : ∀ id f, program.function? id = some f →
    (∀ replacement, .replaceFunction id replacement ∉ edit) →
    result.function? id = some (f.withLast (edit.filterMap (Mutation.bodyFor? id)))
  /-- A function that is replaced becomes its last replacement, with the last body behind it. -/
  replaced : ∀ id before replacement after,
    edit = before ++ .replaceFunction id replacement :: after →
    (∀ other, .replaceFunction id other ∉ after) →
    result.function? id = some (replacement.withLast (after.filterMap (Mutation.bodyFor? id)))

theorem toScope_mutateAll (program : Program) (edit : Edit) :
    (program.mutateAll edit).2.toScope = program.toScope := by
  induction edit generalizing program with
  | nil => rfl
  | cons m edit ih =>
    rw [mutateAll_cons, ih]
    cases m <;> rfl

theorem edited_mutateAll (fits : ∀ m ∈ edit, m.Fits program) :
    program.Edited edit (program.mutateAll edit).2 where
  scope := toScope_mutateAll program edit
  documents := documents_mutateAll program edit
  added _ hid := function?_mutateAll_of_le fits hid
  untouched id hid huntouched := by
    obtain ⟨f, hf⟩ := exists_function?_of_lt hid
    rw [function?_mutateAll_of_untouched fits hf huntouched, hf]
  rebodied _ _ hf hkept := function?_mutateAll_of_bodies fits hf hkept
  replaced _ _ _ _ hedit hlast := function?_mutateAll_of_replaced fits hedit hlast

/-- **Edits are atomic and compose.**  An edit fails exactly if a change is for a document or a
function that is not there before the edit; then the first such change is named, and a program
that was to be changed in place is as it was.  Any other edit gives the next ids to the functions
that it adds, in order, and makes of the program what `Edited` says.  And two edits whose targets
are there beforehand do one after the other what they do as one edit. -/
theorem apply_as_a_whole (program : Program) (edit : Edit) :
    ((∃ e, program.apply edit = .error e) ↔ ∃ m ∈ edit, ¬m.Fits program) ∧
    (∀ before m after, edit = before ++ m :: after → (∀ other ∈ before, other.Fits program) →
      ¬m.Fits program → program.apply edit = .error m.missing ∧
        program.applyInPlace edit = (.error m.missing, program)) ∧
    ((∀ m ∈ edit, m.Fits program) → ∃ result,
      program.apply edit = .ok (List.range' program.functions.length
        (edit.filterMap Mutation.addition?).length, result) ∧
      program.applyInPlace edit = (.ok (List.range' program.functions.length
        (edit.filterMap Mutation.addition?).length), result) ∧
      program.Edited edit result) ∧
    ∀ more, (∀ m ∈ edit ++ more, m.Fits program) → ∃ ids middle newer result,
      program.apply edit = .ok (ids, middle) ∧ middle.apply more = .ok (newer, result) ∧
        program.apply (edit ++ more) = .ok (ids ++ newer, result) := by
  have hrefused : ∀ before m after, edit = before ++ m :: after →
      (∀ other ∈ before, other.Fits program) → ¬m.Fits program →
        program.apply edit = .error m.missing := by
    rintro before m after rfl hbefore hm
    rw [apply, checkEdit_of_split hbefore hm]
    rfl
  refine ⟨⟨?_, ?_⟩, ?_, ?_, ?_⟩
  · rintro ⟨e, hfails⟩
    by_cases hmissing : ∃ m ∈ edit, ¬m.Fits program
    · exact hmissing
    · have hfits : ∀ m ∈ edit, m.Fits program := by simpa using hmissing
      rw [apply_eq_ok_iff.2 ⟨hfits, rfl⟩] at hfails
      cases hfails
  · intro hmissing
    obtain ⟨before, m, after, hedit, hbefore, hm⟩ := exists_split_of_not_fits hmissing
    exact ⟨m.missing, hrefused before m after hedit hbefore hm⟩
  · intro before m after hedit hbefore hm
    have hfails := hrefused before m after hedit hbefore hm
    rw [applyInPlace_eq, hfails]
    exact ⟨rfl, rfl⟩
  · intro fits
    have happly : program.apply edit = .ok (List.range' program.functions.length
        (edit.filterMap Mutation.addition?).length, (program.mutateAll edit).2) := by
      rw [← fst_mutateAll]
      exact apply_eq_ok_iff.2 ⟨fits, rfl⟩
    refine ⟨(program.mutateAll edit).2, happly, ?_, edited_mutateAll fits⟩
    rw [applyInPlace_eq, happly]
    rfl
  · intro more fits
    have hfirst : ∀ m ∈ edit, m.Fits program := fun m hm => fits m (List.mem_append_left _ hm)
    have hsecond : ∀ m ∈ more, m.Fits (program.mutateAll edit).2 := fun m hm =>
      fits_mutateAll (fits m (List.mem_append_right _ hm))
    refine ⟨_, _, _, _, apply_eq_ok_iff.2 ⟨hfirst, rfl⟩, apply_eq_ok_iff.2 ⟨hsecond, rfl⟩,
      apply_eq_ok_iff.2 ⟨fits, ?_⟩⟩
    exact Prod.ext (fst_mutateAll_append program edit more) (mutateAll_append program edit more)

/-- A program with two functions in one document. -/
def paired : Program where
  package := ⟨"acme", "shop", "0.0.0"⟩
  documents := [⟨"orders", [0, 1], ""⟩]
  functions := [{ name := "place" }, { name := "cancel" }]

/-- Two functions are added, and between them one is replaced and given another body. -/
def overlapping : Edit :=
  [.add 0 { name := "track" }, .replaceBody 1 [.verbatim "lost();"],
    .replaceFunction 1 { name := "refund" }, .replaceBody 1 [.verbatim "pay();"],
    .add 0 { name := "close" }]

/-- The edit above is made, and a change to one of the functions that it adds is refused with all
the others. -/
theorem apply_as_a_whole_sample :
    (∀ m ∈ overlapping, m.Fits paired) ∧
      (∃ result, paired.apply overlapping = .ok ([2, 3], result) ∧
        result.documents = [⟨"orders", [0, 1, 2, 3], ""⟩] ∧
        result.function? 1 = some { name := "refund", body := [.verbatim "pay();"] }) ∧
      paired.applyInPlace (overlapping ++ [.replaceBody 2 []]) =
        (.error (.unknownFunction 2), paired) := by
  have hfits : ∀ m ∈ overlapping, m.Fits paired := by
    simp [overlapping, paired, Mutation.Fits]
  have hnot : ¬(Mutation.replaceBody 2 []).Fits paired := by
    simp [paired, Mutation.Fits]
  obtain ⟨-, -, hmade, -⟩ := apply_as_a_whole paired overlapping
  obtain ⟨result, happly, -, hedited⟩ := hmade hfits
  obtain ⟨-, hrefused, -, -⟩ := apply_as_a_whole paired (overlapping ++ [.replaceBody 2 []])
  refine ⟨hfits, ⟨result, happly, ?_, ?_⟩, (hrefused overlapping _ [] rfl hfits hnot).2⟩
  · rw [hedited.documents]
    rfl
  · exact hedited.replaced 1 [.add 0 { name := "track" }, .replaceBody 1 [.verbatim "lost();"]]
      { name := "refund" } [.replaceBody 1 [.verbatim "pay();"], .add 0 { name := "close" }] rfl
      (by simp)

end Program

end LambdaDeploy
