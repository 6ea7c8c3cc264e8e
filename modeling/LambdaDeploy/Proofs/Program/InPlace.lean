import LambdaDeploy.Handler.Registration
import LambdaDeploy.Proofs.Program.Consistency

/-!
# Changing a program in place

`Program.apply` and `Program.register` give a new program or a failure.  Here they work on
one program that is changed as they go along: a change is made as soon as its turn comes,
and when one fails, those before it have been made.  What is left after a failure is thus
something to be shown.

* `Program.keeping` — an operation that gives a new program, in the form of one that
  changes a program in place and leaves it alone when it fails.
* `mutateAllInPlace_eq` — changes that all fit at the start are all made.
* `applyInPlace_eq` — **an edit is applied as a whole or not at all.**
* `registerInPlace_eq` — **a run that fails leaves the program as it was.**
-/

namespace LambdaDeploy.Program

variable {program : Program} {edit : Edit} {α : Type}

/-! ## Operations in place -/

/-- The result of an operation, and the program after it: the new one, or the old one if
the operation fails. -/
def keeping (program : Program) :
    Except BuildError (α × Program) → Except BuildError α × Program
  | .ok (a, result) => (.ok a, result)
  | .error e => (.error e, program)

/-- Adds a function to the end of a document of this program. -/
def addFunctionInPlace (program : Program) (document : DocumentId) (f : FunctionDecl) :
    Except BuildError FunctionId × Program :=
  program.keeping (program.addFunction document f)

/-- Makes one change, if its document or function is there at this moment. -/
def mutateInPlace (program : Program) (m : Mutation) :
    Except BuildError (List FunctionId) × Program :=
  match m.check program with
  | .error e => (.error e, program)
  | .ok () => (.ok (program.mutate m).1, (program.mutate m).2)

/-- Makes the changes in turn, up to the first that fails. -/
def mutateAllInPlace (program : Program) : Edit → Except BuildError (List FunctionId) × Program
  | [] => (.ok [], program)
  | m :: edit =>
    match program.mutateInPlace m with
    | (.error e, program) => (.error e, program)
    | (.ok added, program) =>
      match mutateAllInPlace program edit with
      | (.error e, program) => (.error e, program)
      | (.ok more, program) => (.ok (added ++ more), program)

/-- Applies an edit to this program: all changes are checked, then they are made in turn. -/
def applyInPlace (program : Program) (edit : Edit) :
    Except BuildError (List FunctionId) × Program :=
  match program.checkEdit edit with
  | .error e => (.error e, program)
  | .ok () => program.mutateAllInPlace edit

/-- Analyses this program, applies the edit and gives every document its written form. -/
def registerInPlace (program : Program) (dispatcher : Dispatcher) :
    Except BuildError Analysis × Program :=
  match program.analyze dispatcher with
  | .error e => (.error e, program)
  | .ok analysis =>
    if analysis.edit.isEmpty then (.ok analysis, program)
    else
      match program.applyInPlace analysis.edit with
      | (.error e, program) => (.error e, program)
      | (.ok _, program) => (.ok analysis, program.commitSources)

/-! ## All or nothing -/

theorem addFunctionInPlace_of_lt {document : DocumentId} {f : FunctionDecl}
    (hd : document < program.documents.length) :
    (program.addFunctionInPlace document f).2 = program.appendFunction document f := by
  rw [addFunctionInPlace, addFunction, if_pos hd]
  rfl

theorem addFunctionInPlace_of_le {document : DocumentId} {f : FunctionDecl}
    (hd : program.documents.length ≤ document) :
    (program.addFunctionInPlace document f).2 = program := by
  rw [addFunctionInPlace, addFunction, if_neg (Nat.not_lt.2 hd)]
  rfl

theorem mutateInPlace_of_fits {m : Mutation} (hm : m.Fits program) :
    program.mutateInPlace m = (.ok (program.mutate m).1, (program.mutate m).2) := by
  rw [mutateInPlace, check_eq_ok_iff.2 hm]

/-- No change fails in its turn if all of them fit before the first is made. -/
theorem mutateAllInPlace_eq (fits : ∀ m ∈ edit, m.Fits program) :
    program.mutateAllInPlace edit =
      (.ok (program.mutateAll edit).1, (program.mutateAll edit).2) := by
  induction edit generalizing program with
  | nil => rfl
  | cons m edit ih =>
    rw [List.forall_mem_cons] at fits
    have hlater : ∀ other ∈ edit, other.Fits (program.mutate m).2 := fun other hother =>
      fits_mutate (fits.2 other hother)
    rw [mutateAllInPlace, mutateInPlace_of_fits fits.1]
    simp only [ih hlater]
    rfl

/-- **An edit is applied as a whole or not at all.** -/
theorem applyInPlace_eq (program : Program) (edit : Edit) :
    program.applyInPlace edit = program.keeping (program.apply edit) := by
  cases hcheck : program.checkEdit edit with
  | error e =>
    rw [applyInPlace, apply, hcheck]
    rfl
  | ok =>
    rw [applyInPlace, apply, hcheck]
    exact mutateAllInPlace_eq (checkEdit_eq_ok_iff.1 hcheck)

/-- **A run that fails leaves the program as it was.** -/
theorem registerInPlace_eq (program : Program) (dispatcher : Dispatcher) :
    program.registerInPlace dispatcher = program.keeping (program.register dispatcher) := by
  cases hanalyze : program.analyze dispatcher with
  | error e =>
    rw [registerInPlace, register, hanalyze]
    rfl
  | ok analysis =>
    have hrun : program.register dispatcher =
        if analysis.edit.isEmpty then .ok (analysis, program)
        else program.apply analysis.edit >>= fun outcome =>
          .ok (analysis, outcome.2.commitSources) := by
      rw [register, hanalyze]
      rfl
    rw [registerInPlace, hanalyze, hrun]
    by_cases hedit : analysis.edit.isEmpty = true
    · rw [if_pos hedit]
      simp only [hedit, if_true]
      rfl
    · rw [if_neg hedit]
      simp only [hedit, applyInPlace_eq]
      cases program.apply analysis.edit with
      | error e => rfl
      | ok outcome => rfl

end LambdaDeploy.Program
