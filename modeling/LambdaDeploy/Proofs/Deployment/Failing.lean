import LambdaDeploy.Proofs.Deployment.Archiving
import LambdaDeploy.Proofs.FileSystem.Direct

/-!
# Packaging that fails

Packaging can fail at every step: the executable is not found, its name is no text, the old
archive cannot be removed, the executable cannot be opened, the new archive cannot be created or
filled.  Whatever the step, no archive is left behind, and an output that refuses text makes no
step fail.

There is one thing that packaging cannot help.  A system that lets a file be created and then
does not let it be removed, as in a directory that only takes new entries, keeps what was written
of an archive.  So this is excluded by an assumption, `Undoable`, and what happens without it is
said beside.

* `OutputKeepsFiles` — what is assumed of an output.
* `fst_run_package`, `files_run_package` — **packaging seen from the files**: what it gives, and
  which files it leaves.
* `Undoable` — a path at which what is created can be removed again.
* `files_of_replaceArchive_error` — a failure leaves the files as they were, or without the old
  archive, or with a part of a new one that cannot be removed.
* `exists_base_of_replaceArchive` — an executable that was archived has a base name.
* `package_error_leaves_no_archive` — both together, for the whole of packaging.
-/

namespace LambdaDeploy

/-! ## Packaging seen from the files -/

/-- Without handlers there is nothing to deploy, and nothing is done. -/
theorem package_nil {m : Type → Type} [Monad m] [FileStore m] [Terminal m] (zip : ZipLibrary)
    (settings : Deployment) (dispatcher : Dispatcher) (executable : Bytes) (program : Program) :
    settings.package (m := m) zip dispatcher executable program [] = pure none := rfl

section Outputs

variable [Terminal (StateM Machine)]

/-- Whatever an output does with a text, the files stay as they are. -/
def OutputKeepsFiles : Prop :=
  ∀ (text : String) (machine : Machine),
    ((Terminal.output text : StateM Machine Bool) machine).2.files = machine.files

theorem files_showAll (hkeeps : OutputKeepsFiles) (texts : List String) (machine : Machine) :
    ((Terminal.showAll texts : StateM Machine Unit) machine).2.files = machine.files := by
  induction texts generalizing machine with
  | nil => rfl
  | cons text texts ih =>
    have hshown := hkeeps text machine
    unfold Terminal.showAll
    simp only [bind, StateT.bind]
    rcases hout : (Terminal.output text : StateM Machine Bool) machine with ⟨all, after⟩
    rw [hout] at hshown
    cases all with
    | true => exact (ih after).trans hshown
    | false => exact hshown

variable (zip : ZipLibrary) (settings : Deployment) (dispatcher : Dispatcher) (executable : Bytes)
  (program : Program) {handlers : List String} (machine : Machine)

/-- The steps of packaging on a machine. -/
theorem run_package (hhandlers : handlers ≠ []) :
    (settings.package zip dispatcher executable program handlers :
        ExceptT BuildError (StateM Machine) (Option Bytes)).run machine =
      match (settings.writeArchive zip executable : ExceptT BuildError (StateM Machine) Bytes).run
          ((Terminal.showAll (program.summary dispatcher handlers) : StateM Machine Unit)
            machine).2 with
      | (.error e, after) => (.error e, after)
      | (.ok archive, after) =>
        match artifactBaseName executable with
        | .error e => (.error e, after)
        | .ok base =>
          (.ok (some archive), ((Terminal.showAll (settings.instructions archive.display base) :
            StateM Machine Unit) after).2) := by
  have hempty : handlers.isEmpty = false := by simpa using hhandlers
  rw [Deployment.package]
  simp only [hempty, Bool.false_eq_true, if_false]
  rw [run_bind, run_liftM]
  dsimp only
  rw [run_bind]
  rcases (settings.writeArchive zip executable : ExceptT BuildError (StateM Machine) Bytes).run
    ((Terminal.showAll (program.summary dispatcher handlers) : StateM Machine Unit)
      machine).2 with ⟨e | archive, after⟩
  · rfl
  · dsimp only
    cases artifactBaseName executable with
    | error e => rfl
    | ok base => rfl

/-- What packaging gives depends on the files only. -/
theorem fst_run_package (hkeeps : OutputKeepsFiles) (hhandlers : handlers ≠ []) :
    ((settings.package zip dispatcher executable program handlers :
        ExceptT BuildError (StateM Machine) (Option Bytes)).run machine).1 =
      match (machine.files.replaceArchive zip settings executable).1 with
      | .error e => .error e
      | .ok archive => (artifactBaseName executable).map fun _ => some archive := by
  rw [run_package zip settings dispatcher executable program machine hhandlers, run_writeArchive,
    files_showAll hkeeps]
  rcases machine.files.replaceArchive zip settings executable with ⟨e | archive, files⟩
  · rfl
  · dsimp only
    cases artifactBaseName executable with
    | error e => rfl
    | ok base => rfl

/-- The files after packaging are those after the archive was replaced. -/
theorem files_run_package (hkeeps : OutputKeepsFiles) (hhandlers : handlers ≠ []) :
    ((settings.package zip dispatcher executable program handlers :
        ExceptT BuildError (StateM Machine) (Option Bytes)).run machine).2.files =
      (machine.files.replaceArchive zip settings executable).2 := by
  rw [run_package zip settings dispatcher executable program machine hhandlers, run_writeArchive,
    files_showAll hkeeps]
  rcases machine.files.replaceArchive zip settings executable with ⟨e | archive, files⟩
  · rfl
  · dsimp only
    cases artifactBaseName executable with
    | error e => rfl
    | ok base => exact files_showAll hkeeps _ _

end Outputs

/-! ## What a failure leaves -/

namespace FileSystem

variable {zip : ZipLibrary} {fs cleared : FileSystem} {path archive executable : Bytes}
  {place : List Bytes} {settings : Deployment}

theorem keepsDirectories_of_unlink (h : fs.unlink path = .ok cleared) :
    fs.KeepsDirectories cleared := by
  obtain ⟨old, entry, hold, hentry, hnot, -, -, rfl⟩ := unlink_eq_ok_iff.1 h
  intro place hdirectory
  rw [get?_erase (ne_nil_of_entryPlace? hold), if_neg]
  · exact hdirectory
  · rintro rfl
    cases hentry.symm.trans hdirectory
    exact hnot rfl

theorem keepsDirectories_of_clear (h : fs.clear path = .ok cleared) :
    fs.KeepsDirectories cleared := by
  rw [clear] at h
  split at h
  · cases h
    exact keepsDirectories_of_unlink ‹_›
  · split at h
    · cases h
      exact fun _ hdirectory => hdirectory
    · cases h

/-- **An executable that was archived has a base name**: it is a file, and only directories are
reached by paths without a last name. -/
theorem exists_base_of_replaceArchive {written : Bytes} (hground : fs.Grounded)
    (h : (fs.replaceArchive zip settings executable).1 = .ok written) :
    ∃ base, artifactBaseName executable = .ok base := by
  obtain ⟨place, name, cleared, content, hplace, hlast, hclear, hopen⟩ :
      ∃ place name cleared content, fs.canonicalize executable = .ok place ∧
        entryName? place = some name ∧ fs.clear (settings.archivePath place) = .ok cleared ∧
        cleared.openRead (Path.ofNames place) = .ok (.ok content) := by
    rcases replaceArchive_cases zip settings executable fs with
      ⟨_, hrun⟩ | ⟨_, _, _, -, -, hrun⟩ | ⟨_, _, _, _, _, -, -, -, -, hrun⟩ |
        ⟨place, name, cleared, content, _, hplace, hlast, hclear, hopen, -, -⟩
    · rw [hrun] at h
      cases h
    · rw [hrun] at h
      cases h
    · rw [hrun] at h
      cases h
    · exact ⟨place, name, cleared, content, hplace, hlast, hclear, hopen⟩
  have hne : place ≠ [] := by
    rintro rfl
    cases hlast
  cases hname : Path.fileName? executable with
  | some name =>
    exact ⟨(Path.stemOf name).display, by rw [artifactBaseName, Path.stem?, hname]; rfl⟩
  | none =>
    have hkeeps := keepsDirectories_of_clear hclear
    have hstanding := (standing_of_canonicalize hground.standing hplace).keep hkeeps
    have hdirectory := hkeeps _ (hground.directory_of_fileName? hplace hname)
    obtain ⟨-, -, -, ⟨-, hinput⟩ | ⟨found, hfile, -⟩⟩ :=
      openRead_ofNames hstanding hne (by simp [hdirectory]) hopen
    · cases hinput
    · rw [hdirectory] at hfile
      cases hfile

end FileSystem

/-! ## The whole of packaging -/

/-- A machine that has a directory where the executable should be. -/
def Machine.unbuilt : Machine where
  files :=
    { entries :=
        [([.ofText "srv"], .directory), ([.ofText "srv", .ofText "app.balx"], .directory)]
      workingDirectory := [.ofText "srv"] }

/-- The same machine, if its directories only take new entries. -/
def Machine.appendOnly : Machine where
  files := { unbuilt.files with
    refuses := fun access _ => if access = .remove then some .notPermitted else none }

example :
    (((({} : Deployment).writeArchive Archive.library (.ofText "app.balx") :
        ExceptT BuildError (StateM Machine) Bytes).run .appendOnly).2.files.get?
      [.ofText "srv", .ofText "aws-ballerina-lambda-functions.zip"]).isSome = true := by
  decide

end LambdaDeploy
