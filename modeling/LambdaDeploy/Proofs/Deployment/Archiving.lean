import LambdaDeploy.Archive.Reader
import LambdaDeploy.Deployment.Machine
import LambdaDeploy.Deployment.Packaging
import LambdaDeploy.Proofs.FileSystem.Arrival
import LambdaDeploy.Proofs.FileSystem.Naming

/-!
# Replacing an archive

Packaging removes the archive of an earlier build, opens the executable, and writes the new
archive.  On the files of a machine all of this happens at one place, the entry that the path
of the archive names.  An archive that cannot be completed is removed again; where the system
lets files be created but not removed, this is refused, and then it stays.

* `FileSystem.replaceArchive`, `run_writeArchive` — what packaging does to the files of a
  machine, as a function on file systems.
* `Vacant` — a path at which nothing stands; `vacant_of_clear`, `fill_cases`.
* `replaceArchive_cases` — the four ways in which it ends.
* `get?_replaceArchive` — **every place but the entry of the archive keeps what it has.**
* `get?_writeArchive` — the executable stays as it is, unless it is this entry itself: then
  it is gone.
-/

namespace LambdaDeploy

/-! ## Packaging on file systems -/

/-- The path of the archive for an executable at a place. -/
def Deployment.archivePath (settings : Deployment) (place : List Bytes) : Bytes :=
  Path.join (Path.ofNames place.dropLast) (.ofText settings.archiveName)

/-- The name of the entry for an executable at a place. -/
def entryName? (place : List Bytes) : Option String := place.getLast?.bind Bytes.text?

namespace FileSystem

variable {zip : ZipLibrary} {fs fs' cleared : FileSystem} {path archive executable : Bytes}
  {name : String} {place : List Bytes} {settings : Deployment}

/-- The files without the one at a path, which need not be there. -/
def clear (fs : FileSystem) (path : Bytes) : Except FileError FileSystem :=
  match fs.unlink path with
  | .ok fs => .ok fs
  | .error cause => if cause = .notFound then .ok fs else .error cause

/-- The files without the one at a path, as far as it can be removed. -/
def discard (fs : FileSystem) (path : Bytes) : FileSystem :=
  match fs.unlink path with
  | .ok fs => fs
  | .error _ => fs

/-- The files after a content was written to a file that was opened before, and how that
ended if it was to end like `result`. -/
def finish (fs : FileSystem) (archive : Bytes) (content : ByteArray)
    (result : Except BuildError Unit) : Except BuildError Unit × FileSystem :=
  match fs.write archive content with
  | .error cause => (.error (.packaging archive cause), fs)
  | .ok written => (result, written)

/-- The files after an archive was created and filled, and how that ended. -/
def fill (zip : ZipLibrary) (fs : FileSystem) (archive : Bytes) (name : String)
    (input : Except FileError ByteArray) : Except BuildError Unit × FileSystem :=
  match fs.write archive .empty with
  | .error cause => (.error (.packaging archive cause), fs)
  | .ok opened =>
    match zip.archive archive name input with
    | .ok data => opened.finish archive data (.ok ())
    | .error e => opened.finish archive (zip.abandon name executableOptions input) (.error e)

/-- The files after the archive beside an executable was replaced, and how that ended. -/
def replaceArchive (zip : ZipLibrary) (settings : Deployment) (executable : Bytes)
    (fs : FileSystem) : Except BuildError Bytes × FileSystem :=
  match fs.canonicalize executable with
  | .error cause => (.error (.packaging executable cause), fs)
  | .ok place =>
    match entryName? place with
    | none => (.error (.invalidExecutable (Path.ofNames place)), fs)
    | some name =>
      let archive := settings.archivePath place
      match fs.clear archive with
      | .error cause => (.error (.packaging archive cause), fs)
      | .ok cleared =>
        match cleared.openRead (Path.ofNames place) with
        | .error cause => (.error (.packaging (Path.ofNames place) cause), cleared)
        | .ok input =>
          match fill zip cleared archive name input with
          | (.ok (), filled) => (.ok archive, filled)
          | (.error e, filled) => (.error e, filled.discard archive)

end FileSystem

section Machines

variable (machine : Machine)

/-- Two steps of a computation on a machine: the second one starts on the machine that the
first one leaves, if that succeeds. -/
theorem run_bind {ε α β : Type} (x : ExceptT ε (StateM Machine) α)
    (next : α → ExceptT ε (StateM Machine) β) :
    (x >>= next).run machine =
      match x.run machine with
      | (.ok a, after) => (next a).run after
      | (.error e, after) => (.error e, after) := by
  show (match x.run machine with | (a, after) => ExceptT.bindCont next a after) = _
  rcases x.run machine with ⟨e | a, after⟩
  · rfl
  · rfl

/-- A computation whose failure is handled on the machine that it leaves. -/
theorem run_tryCatch {ε α : Type} (x : ExceptT ε (StateM Machine) α)
    (handle : ε → ExceptT ε (StateM Machine) α) :
    (tryCatch x handle).run machine =
      match x.run machine with
      | (.ok a, after) => (.ok a, after)
      | (.error e, after) => (handle e).run after := by
  have hrun : (tryCatch x handle).run machine =
      (match (x.run machine).1 with
        | .ok a => (pure (.ok a) : StateM Machine (Except ε α))
        | .error e => handle e) (x.run machine).2 := rfl
  rw [hrun]
  rcases x.run machine with ⟨e | a, after⟩
  · rfl
  · rfl

theorem run_liftM {ε α : Type} (x : StateM Machine α) :
    (liftM x : ExceptT ε (StateM Machine) α).run machine =
      (.ok (x machine).1, (x machine).2) := rfl

theorem run_packagingStep {α : Type} (path : Bytes)
    (operation : StateM Machine (Except FileError α)) :
    (packagingStep path operation).run machine =
      match operation machine with
      | (.ok a, after) => (.ok a, after)
      | (.error cause, after) => (.error (.packaging path cause), after) := by
  rw [packagingStep, run_bind, run_liftM]
  rcases operation machine with ⟨cause | a, after⟩
  · rfl
  · rfl

theorem run_unlink (path : Bytes) :
    (FileStore.unlink path : StateM Machine (Except FileError Unit)) machine =
      match machine.files.unlink path with
      | .ok files => (.ok (), { machine with files := files })
      | .error cause => (.error cause, machine) := rfl

theorem run_write (path : Bytes) (content : ByteArray) :
    (FileStore.write path content : StateM Machine (Except FileError Unit)) machine =
      match machine.files.write path content with
      | .ok files => (.ok (), { machine with files := files })
      | .error cause => (.error cause, machine) := rfl

theorem run_removeArchive (archive : Bytes) :
    (removeArchive archive : ExceptT BuildError (StateM Machine) Unit).run machine =
      match machine.files.clear archive with
      | .ok cleared => (.ok (), { machine with files := cleared })
      | .error cause => (.error (.packaging archive cause), machine) := by
  rw [removeArchive, run_bind, run_liftM, run_unlink, FileSystem.clear]
  cases machine.files.unlink archive with
  | ok files => rfl
  | error cause =>
    dsimp only
    split
    · rfl
    · rfl

theorem run_fillArchive (zip : ZipLibrary) (archive : Bytes) (name : String)
    (input : Except FileError ByteArray) :
    (fillArchive zip archive name input : ExceptT BuildError (StateM Machine) Unit).run machine =
      ((FileSystem.fill zip machine.files archive name input).1,
        { machine with files := (FileSystem.fill zip machine.files archive name input).2 }) := by
  rw [fillArchive, run_bind, run_packagingStep, run_write, FileSystem.fill]
  cases machine.files.write archive .empty with
  | error cause => rfl
  | ok opened =>
    dsimp only
    cases zip.archive archive name input with
    | ok data =>
      dsimp only
      rw [run_packagingStep, run_write, FileSystem.finish]
      cases opened.write archive data with
      | error cause => rfl
      | ok written => rfl
    | error e =>
      dsimp only
      rw [run_bind, run_packagingStep, run_write, FileSystem.finish]
      cases opened.write archive (zip.abandon name executableOptions input) with
      | error cause => rfl
      | ok written => rfl

/-- Packaging changes the files of a machine as `replaceArchive` does, and nothing else. -/
theorem run_writeArchive (zip : ZipLibrary) (settings : Deployment) (executable : Bytes) :
    (settings.writeArchive zip executable : ExceptT BuildError (StateM Machine) Bytes).run
        machine =
      ((machine.files.replaceArchive zip settings executable).1,
        { machine with files := (machine.files.replaceArchive zip settings executable).2 }) := by
  have hcanonical : (FileStore.canonicalize executable : StateM Machine _) machine =
    (machine.files.canonicalize executable, machine) := rfl
  unfold Deployment.writeArchive
  rw [run_bind, run_packagingStep, hcanonical, FileSystem.replaceArchive]
  cases machine.files.canonicalize executable with
  | error cause => rfl
  | ok place =>
    dsimp only
    rw [← entryName?]
    cases entryName? place with
    | none => rfl
    | some name =>
      dsimp only
      rw [← Deployment.archivePath, run_bind, run_removeArchive]
      cases machine.files.clear (settings.archivePath place) with
      | error cause => rfl
      | ok cleared =>
        have hopen : (FileStore.openRead (Path.ofNames place) : StateM Machine _)
            { machine with files := cleared } =
          (cleared.openRead (Path.ofNames place), { machine with files := cleared }) := rfl
        dsimp only
        rw [run_bind, run_packagingStep, hopen]
        cases cleared.openRead (Path.ofNames place) with
        | error cause => rfl
        | ok input =>
          dsimp only
          rw [run_bind, run_tryCatch, run_fillArchive]
          dsimp only
          rcases FileSystem.fill zip cleared (settings.archivePath place) name input with
            ⟨cause | _, filled⟩
          · dsimp only
            rw [run_bind, run_liftM, run_unlink, FileSystem.discard]
            dsimp only
            cases filled.unlink (settings.archivePath place) with
            | error _ => rfl
            | ok _ => rfl
          · rfl

end Machines

/-! ## The place of the archive -/

namespace FileSystem

variable {zip : ZipLibrary} {fs fs' cleared : FileSystem} {path archive executable : Bytes}
  {name : String} {place other : List Bytes} {settings : Deployment}

/-- Nothing stands at the entry that a path names, and the path is one that could name an
entry. -/
structure Vacant (fs : FileSystem) (path : Bytes) : Prop where
  located : fs.locate path ≠ .ok none
  empty : ∀ place, fs.entryPlace? path = some place → fs.get? place = none

/-- Clearing a path either finds nothing there or takes its entry away. -/
theorem clear_cases (h : fs.clear path = .ok cleared) :
    fs.unlink path = .error .notFound ∧ cleared = fs ∨
      ∃ place, fs.entryPlace? path = some place ∧ fs.refuses .remove place = none ∧
        cleared = fs.erase place := by
  rw [clear] at h
  split at h
  · rename_i hunlink
    cases h
    obtain ⟨place, -, hplace, -, -, -, hremove, herase⟩ := unlink_eq_ok_iff.1 hunlink
    exact .inr ⟨place, hplace, hremove, herase⟩
  · split at h
    · rename_i hcause
      cases h
      exact .inl ⟨hcause ▸ ‹_›, rfl⟩
    · cases h

theorem within_of_clear (h : fs.clear path = .ok cleared) : cleared.Within fs := by
  rcases clear_cases h with ⟨-, rfl⟩ | ⟨place, hplace, -, rfl⟩
  · exact ⟨fun _ _ hfound => hfound, rfl⟩
  · exact erase_within (ne_nil_of_entryPlace? hplace)

/-- After clearing, nothing stands at the path. -/
theorem vacant_of_clear (h : fs.clear path = .ok cleared) : cleared.Vacant path := by
  have hwithin := within_of_clear h
  rcases clear_cases h with ⟨hnone, rfl⟩ | ⟨place, hplace, -, rfl⟩
  · exact ⟨(of_unlink_eq_notFound hnone).1, (of_unlink_eq_notFound hnone).2⟩
  · constructor
    · intro hnone
      obtain ⟨directory, name, hlocate, -⟩ := entryPlace?_eq_some_iff.1 hplace
      cases (locate_within hwithin hnone).symm.trans hlocate
    · intro found hfound
      cases (entryPlace?_within hwithin hfound).symm.trans hplace
      rw [get?_erase (ne_nil_of_entryPlace? hplace), if_pos rfl]

theorem put_put (fs : FileSystem) (place : List Bytes) (first second : Entry) :
    (fs.put place first).put place second = fs.put place second := by
  simp [put, List.filter_filter]

/-- Where a path names a file, that file is written. -/
theorem eq_put_of_write {content written : ByteArray}
    (hplace : fs.entryPlace? path = some place) (hfile : fs.get? place = some (.file content))
    (h : fs.write path written = .ok fs') : fs' = fs.put place (.file written) := by
  obtain ⟨directory, name, hlocate, -⟩ := entryPlace?_eq_some_iff.1 hplace
  have hlink : ∀ found target, fs.entryPlace? path = some found →
      fs.get? found ≠ some (.link target) := by
    intro found target hfound hlink
    cases hplace.symm.trans hfound
    cases hfile.symm.trans hlink
  obtain ⟨found, hfound, -, -, rfl⟩ :=
    exists_of_write h (fun hnone => by cases hnone.symm.trans hlocate) hlink
  cases hplace.symm.trans hfound
  rfl

/-- Writing at a path where nothing stands leaves a file at the entry that the path names, and
the path has no slash at its end. -/
theorem exists_of_open {content : ByteArray} (hvacant : fs.Vacant archive)
    (h : fs.write archive content = .ok fs') :
    ∃ place, fs.entryPlace? archive = some place ∧ Path.endsInSlash archive = false ∧
      fs' = fs.put place (.file content) := by
  have hlink : ∀ place target, fs.entryPlace? archive = some place →
      fs.get? place ≠ some (.link target) := by
    intro place target hplace hlink
    rw [hvacant.empty place hplace] at hlink
    cases hlink
  obtain ⟨place, hplace, hslash, -, hput⟩ := exists_of_write h hvacant.located hlink
  exact ⟨place, hplace, hslash, hput⟩

/-- What is written to the opened archive stands at this entry, if anything is. -/
theorem finish_cases (hvacant : fs.Vacant archive) (hplace : fs.entryPlace? archive = some place)
    (written content : ByteArray) (result : Except BuildError Unit) :
    (∃ cause, (fs.put place (.file written)).finish archive content result =
        (.error (.packaging archive cause), fs.put place (.file written))) ∨
      (fs.put place (.file written)).finish archive content result =
        (result, fs.put place (.file content)) := by
  have hne := ne_nil_of_entryPlace? hplace
  have hstill : (fs.put place (.file written)).entryPlace? archive = some place :=
    entryPlace?_within (within_put hne (hvacant.empty place hplace)) hplace
  have hfile : (fs.put place (.file written)).get? place = some (.file written) := by
    rw [get?_put hne, if_pos rfl]
  rw [finish]
  cases hwrite : (fs.put place (.file written)).write archive content with
  | error cause => exact .inl ⟨cause, rfl⟩
  | ok fs' =>
    obtain rfl := eq_put_of_write hstill hfile hwrite
    exact .inr (by rw [put_put])

/-- Filling an archive at a path where nothing stands.  If it cannot be created, the files stay
as they are.  Else there is a file then at the entry that the path names: what the library makes
of the executable if that went well, and some other bytes if not. -/
theorem fill_cases (hvacant : fs.Vacant archive) (zip : ZipLibrary) (name : String)
    (input : Except FileError ByteArray) :
    (∃ e, fill zip fs archive name input = (.error e, fs)) ∨
      ∃ place, fs.entryPlace? archive = some place ∧ Path.endsInSlash archive = false ∧
        ((∃ e partialData, fill zip fs archive name input =
            (.error e, fs.put place (.file partialData))) ∨
          ∃ data, zip.archive archive name input = .ok data ∧
            fill zip fs archive name input = (.ok (), fs.put place (.file data))) := by
  rw [fill]
  cases hopen : fs.write archive .empty with
  | error cause => exact .inl ⟨_, rfl⟩
  | ok opened =>
    obtain ⟨place, hplace, hslash, rfl⟩ := exists_of_open hvacant hopen
    refine .inr ⟨place, hplace, hslash, ?_⟩
    dsimp only
    cases zip.archive archive name input with
    | error e =>
      left
      rcases finish_cases hvacant hplace .empty (zip.abandon name executableOptions input)
        (.error e) with ⟨cause, hfinish⟩ | hfinish
      · exact ⟨_, _, hfinish⟩
      · exact ⟨_, _, hfinish⟩
    | ok data =>
      rcases finish_cases hvacant hplace .empty data (.ok ()) with ⟨cause, hfinish⟩ | hfinish
      · exact .inl ⟨_, _, hfinish⟩
      · exact .inr ⟨data, rfl, hfinish⟩

/-! ## How it ends -/

theorem erase_put (hne : place ≠ []) (habsent : fs.get? place = none) (entry : Entry) :
    (fs.put place entry).erase place = fs := by
  rw [get?, if_neg hne, List.lookup_eq_none_iff] at habsent
  have hkept : fs.entries.filter (fun found => decide (found.1 ≠ place)) = fs.entries := by
    refine List.filter_eq_self.2 fun found hfound => ?_
    have hother : place ≠ found.1 := by simpa using habsent found hfound
    simpa using hother.symm
  rw [put, erase, List.filter_cons_of_neg (by simp), hkept, hkept]

/-- Discarding a file that was just created leaves nothing of it, if it can be removed. -/
theorem discard_put (hplace : fs.entryPlace? path = some place) (habsent : fs.get? place = none)
    (hslash : Path.endsInSlash path = false) (content : ByteArray) :
    (fs.put place (.file content)).discard path =
      if fs.refuses .remove place = none then fs else fs.put place (.file content) := by
  have hne := ne_nil_of_entryPlace? hplace
  have hstill : (fs.put place (.file content)).entryPlace? path = some place :=
    entryPlace?_within (within_put hne habsent) hplace
  have hfile : (fs.put place (.file content)).get? place = some (.file content) := by
    rw [get?_put hne, if_pos rfl]
  rw [discard]
  by_cases hremove : fs.refuses .remove place = none
  · rw [if_pos hremove,
      unlink_eq_ok_iff.2 ⟨place, _, hstill, hfile, by simp, hslash, hremove, rfl⟩]
    exact erase_put hne habsent _
  · rw [if_neg hremove]
    split
    · rename_i hunlink
      obtain ⟨found, -, hfound, -, -, -, hfree, -⟩ := unlink_eq_ok_iff.1 hunlink
      cases hstill.symm.trans hfound
      exact absurd hfree hremove
    · rfl

/-- Where nothing stands, nothing is discarded. -/
theorem discard_of_vacant (hvacant : fs.Vacant path) : fs.discard path = fs := by
  rw [discard]
  split
  · rename_i hunlink
    obtain ⟨place, entry, hplace, hentry, -⟩ := unlink_eq_ok_iff.1 hunlink
    rw [hvacant.empty place hplace] at hentry
    cases hentry
  · rfl

/-- An archive that cannot be filled is taken away again, unless the system refuses that: then
some of it stays. -/
theorem discard_of_fill_error {input : Except FileError ByteArray} {e : BuildError}
    {filled : FileSystem} (hvacant : fs.Vacant archive)
    (h : fill zip fs archive name input = (.error e, filled)) :
    filled.discard archive = fs ∨
      ∃ place refusal partialData, fs.entryPlace? archive = some place ∧
        fs.refuses .remove place = some refusal ∧
        filled.discard archive = fs.put place (.file partialData) := by
  rcases fill_cases hvacant zip name input with
    ⟨_, hfill⟩ | ⟨place, hplace, hslash, ⟨_, partialData, hfill⟩ | ⟨_, -, hfill⟩⟩
  · cases hfill.symm.trans h
    exact .inl (discard_of_vacant hvacant)
  · cases hfill.symm.trans h
    rw [discard_put hplace (hvacant.empty place hplace) hslash]
    cases hremove : fs.refuses .remove place with
    | none => exact .inl (if_pos rfl)
    | some refusal => exact .inr ⟨place, refusal, partialData, hplace, hremove, if_neg (by simp)⟩
  · cases hfill.symm.trans h

/-- Where removing is refused, clearing leaves everything as it is. -/
theorem eq_of_clear {refusal : Refusal} (hclear : fs.clear path = .ok cleared)
    (hplace : cleared.entryPlace? path = some place)
    (hremove : cleared.refuses .remove place = some refusal) : cleared = fs := by
  have hwithin := within_of_clear hclear
  rcases clear_cases hclear with ⟨-, heq⟩ | ⟨found, hfound, hfree, rfl⟩
  · exact heq
  · cases (entryPlace?_within hwithin hplace).symm.trans hfound
    cases hremove.symm.trans hfree

/-- How replacing an archive ends: without any change; with the old archive removed; with an
archive that was not there before and could not be completed, nor removed; or with the new one
filled. -/
theorem replaceArchive_cases (zip : ZipLibrary) (settings : Deployment) (executable : Bytes)
    (fs : FileSystem) :
    (∃ e, fs.replaceArchive zip settings executable = (.error e, fs)) ∨
      (∃ place cleared e, fs.canonicalize executable = .ok place ∧
        fs.clear (settings.archivePath place) = .ok cleared ∧
        fs.replaceArchive zip settings executable = (.error e, cleared)) ∨
      (∃ place old refusal partialData e, fs.canonicalize executable = .ok place ∧
        fs.entryPlace? (settings.archivePath place) = some old ∧ fs.get? old = none ∧
        fs.refuses .remove old = some refusal ∧
        fs.replaceArchive zip settings executable =
          (.error e, fs.put old (.file partialData))) ∨
      ∃ place name cleared content filled, fs.canonicalize executable = .ok place ∧
        entryName? place = some name ∧ fs.clear (settings.archivePath place) = .ok cleared ∧
        cleared.openRead (Path.ofNames place) = .ok (.ok content) ∧
        fill zip cleared (settings.archivePath place) name (.ok content) = (.ok (), filled) ∧
        fs.replaceArchive zip settings executable =
          (.ok (settings.archivePath place), filled) := by
  rw [replaceArchive]
  cases hplace : fs.canonicalize executable with
  | error cause => exact .inl ⟨_, rfl⟩
  | ok place =>
    dsimp only
    cases hname : entryName? place with
    | none => exact .inl ⟨_, rfl⟩
    | some name =>
      dsimp only
      cases hclear : fs.clear (settings.archivePath place) with
      | error cause => exact .inl ⟨_, rfl⟩
      | ok cleared =>
        have hvacant := vacant_of_clear hclear
        dsimp only
        cases hopen : cleared.openRead (Path.ofNames place) with
        | error cause => exact .inr (.inl ⟨place, cleared, _, rfl, hclear, rfl⟩)
        | ok input =>
          dsimp only
          rcases hfill : fill zip cleared (settings.archivePath place) name input with
            ⟨e | _, filled⟩
          · dsimp only
            rcases discard_of_fill_error hvacant hfill with
              hdiscard | ⟨old, refusal, partialData, hold, hremove, hdiscard⟩
            · rw [hdiscard]
              exact .inr (.inl ⟨place, cleared, _, rfl, hclear, rfl⟩)
            · rw [hdiscard]
              obtain rfl := eq_of_clear hclear hold hremove
              exact .inr (.inr (.inl ⟨place, old, refusal, partialData, _, rfl, hold,
                hvacant.empty old hold, hremove, rfl⟩))
          · cases input with
            | ok content =>
              exact .inr (.inr (.inr
                ⟨place, name, cleared, content, filled, rfl, hname, hclear, hopen, hfill, rfl⟩))
            | error cause =>
              -- what cannot be read does not fill an archive
              rcases fill_cases hvacant zip name (.error cause) with
                ⟨_, hother⟩ | ⟨_, -, -, ⟨_, _, hother⟩ | ⟨_, hdata, -⟩⟩
              · cases hother.symm.trans hfill
              · cases hother.symm.trans hfill
              · obtain ⟨_, -, hread⟩ := exists_of_bind_eq_ok hdata
                cases hread

/-! ## Everything else -/

theorem get?_of_clear (h : fs.clear path = .ok cleared)
    (hother : fs.entryPlace? path ≠ some other) :
    cleared.get? other = fs.get? other := by
  rcases clear_cases h with ⟨-, rfl⟩ | ⟨place, hplace, -, rfl⟩
  · rfl
  · rw [get?_erase (ne_nil_of_entryPlace? hplace), if_neg]
    rintro rfl
    exact hother hplace

theorem get?_put_of_entryPlace? {found : List Bytes} (hfound : fs.entryPlace? path = some found)
    (hother : fs.entryPlace? path ≠ some other) (entry : Entry) :
    (fs.put found entry).get? other = fs.get? other := by
  rw [get?_put (ne_nil_of_entryPlace? hfound), if_neg]
  rintro rfl
  exact hother hfound

/-- **Replacing an archive leaves every place alone** but the entry that the path of the
archive names. -/
theorem get?_replaceArchive (hplace : fs.canonicalize executable = .ok place)
    (hother : fs.entryPlace? (settings.archivePath place) ≠ some other) :
    (fs.replaceArchive zip settings executable).2.get? other = fs.get? other := by
  rcases replaceArchive_cases zip settings executable fs with
    ⟨_, hrun⟩ | ⟨_, cleared, _, hfound, hclear, hrun⟩ |
      ⟨_, old, _, _, _, hfound, hold, -, -, hrun⟩ |
      ⟨_, name, cleared, content, filled, hfound, -, hclear, -, hfill, hrun⟩
  · rw [hrun]
  · cases hfound.symm.trans hplace
    rw [hrun]
    exact get?_of_clear hclear hother
  · cases hfound.symm.trans hplace
    rw [hrun]
    exact get?_put_of_entryPlace? hold hother _
  · cases hfound.symm.trans hplace
    rw [hrun, ← get?_of_clear hclear hother]
    have hstill : cleared.entryPlace? (settings.archivePath place) ≠ some other := fun h =>
      hother (entryPlace?_within (within_of_clear hclear) h)
    rcases fill_cases (vacant_of_clear hclear) zip name (.ok content) with
      ⟨_, hsame⟩ | ⟨found, hentry, -, ⟨_, _, hput⟩ | ⟨_, -, hput⟩⟩
    · cases hsame.symm.trans hfill
    · cases hput.symm.trans hfill
    · cases hput.symm.trans hfill
      exact get?_put_of_entryPlace? hentry hstill _

/-! ## The executable -/

/-- If the archive is to stand where the executable stands, the executable is removed, and
then there is nothing to fill the archive with. -/
theorem replaceArchive_of_coincidence (zip : ZipLibrary) {content : ByteArray}
    (hstart : fs.Standing fs.workingDirectory) (hplace : fs.canonicalize executable = .ok place)
    (hfile : fs.get? place = some (.file content)) (hname : entryName? place = some name)
    (hentry : fs.entryPlace? (settings.archivePath place) = some place)
    (hslash : Path.endsInSlash (settings.archivePath place) = false)
    (hremove : fs.refuses .remove place = none) :
    ∃ cause, fs.replaceArchive zip settings executable =
      (.error (.packaging (Path.ofNames place) cause), fs.erase place) := by
  have hne := ne_nil_of_entryPlace? hentry
  have hclear : fs.clear (settings.archivePath place) = .ok (fs.erase place) := by
    rw [clear, unlink_eq_ok_iff.2 ⟨place, _, hentry, hfile, by simp, hslash, hremove, rfl⟩]
  obtain ⟨cause, hopen⟩ := openRead_erase (standing_of_canonicalize hstart hplace) hne
  refine ⟨cause, ?_⟩
  rw [replaceArchive, hplace]
  dsimp only
  rw [hname]
  dsimp only
  rw [hclear]
  dsimp only
  rw [hopen]

/-- A file or a link that its path asks to be a directory, or that may not be removed, is not
cleared away. -/
theorem exists_clear_eq_error {entry : Entry} (hentry : fs.entryPlace? path = some place)
    (hfound : fs.get? place = some entry)
    (hkept : Path.endsInSlash path = true ∨ fs.refuses .remove place ≠ none) :
    ∃ cause, fs.clear path = .error cause := by
  cases hclear : fs.clear path with
  | error cause => exact ⟨cause, rfl⟩
  | ok cleared =>
    exfalso
    rw [clear] at hclear
    split at hclear
    · rename_i hunlink
      obtain ⟨found, -, hplace, -, -, hslash, hremove, -⟩ := unlink_eq_ok_iff.1 hunlink
      cases hentry.symm.trans hplace
      rcases hkept with hslash' | hrefused
      · cases hslash.symm.trans hslash'
      · exact hrefused hremove
    · rename_i cause hunlink
      split at hclear
      · rename_i hcause
        rw [hcause] at hunlink
        rw [(of_unlink_eq_notFound hunlink).2 place hentry] at hfound
        cases hfound
      · cases hclear

/-- Nothing changes for an executable whose name is no text, or whose archive of an earlier
build cannot be cleared away. -/
theorem replaceArchive_eq_self (hplace : fs.canonicalize executable = .ok place)
    (h : entryName? place = none ∨ ∃ cause, fs.clear (settings.archivePath place) = .error cause) :
    (fs.replaceArchive zip settings executable).2 = fs := by
  rw [replaceArchive, hplace]
  dsimp only
  cases hname : entryName? place with
  | none => rfl
  | some name =>
    obtain ⟨cause, hclear⟩ := h.resolve_left (by simp [hname])
    dsimp only
    rw [hclear]

end FileSystem

/-- **The executable after packaging.**  Whether packaging succeeds or fails, the file that
the executable's path leads to is as it was, unless the path of the archive names this very
file: then the file is gone.  (It stays even then if its name is no text, and where the system
refuses to remove it.) -/
theorem get?_writeArchive (zip : ZipLibrary) (settings : Deployment) (executable : Bytes)
    (machine : Machine) {place : List Bytes} {content : ByteArray}
    (hstart : machine.files.Standing machine.files.workingDirectory)
    (hplace : machine.files.canonicalize executable = .ok place)
    (hfile : machine.files.get? place = some (.file content)) :
    ((settings.writeArchive zip executable : ExceptT BuildError (StateM Machine) Bytes).run
        machine).2.files.get? place =
      if (entryName? place).isSome ∧
          machine.files.entryPlace? (settings.archivePath place) = some place ∧
          Path.endsInSlash (settings.archivePath place) = false ∧
          machine.files.refuses .remove place = none
      then none else some (.file content) := by
  rw [run_writeArchive]
  by_cases hentry : machine.files.entryPlace? (settings.archivePath place) = some place
  · split
    · rename_i hlost
      obtain ⟨hsome, -, hslash, hremove⟩ := hlost
      obtain ⟨name, hname⟩ := Option.isSome_iff_exists.1 hsome
      obtain ⟨cause, hrun⟩ := FileSystem.replaceArchive_of_coincidence zip hstart hplace
        hfile hname hentry hslash hremove
      rw [hrun, FileSystem.get?_erase (FileSystem.ne_nil_of_entryPlace? hentry), if_pos rfl]
    · rename_i hkept
      rw [FileSystem.replaceArchive_eq_self hplace]
      · exact hfile
      · by_cases hname : entryName? place = none
        · exact .inl hname
        · refine .inr (FileSystem.exists_clear_eq_error hentry hfile ?_)
          cases hslash : Path.endsInSlash (settings.archivePath place) with
          | true => exact .inl rfl
          | false =>
            exact .inr fun hremove =>
              hkept ⟨Option.isSome_iff_ne_none.2 hname, hentry, hslash, hremove⟩
  · rw [if_neg fun h => hentry h.2.1]
    exact (FileSystem.get?_replaceArchive hplace hentry).trans hfile

/-- A machine with an executable and an archive of an earlier build in its working
directory. -/
def Machine.workshop : Machine where
  files :=
    { entries :=
        [([.ofText "srv"], .directory),
          ([.ofText "srv", .ofText "app.balx"], .file "app".toUTF8),
          ([.ofText "srv", .ofText "aws-ballerina-lambda-functions.zip"],
            .file "earlier".toUTF8)]
      workingDirectory := [.ofText "srv"] }

theorem Machine.standing_workshop : workshop.files.Standing workshop.files.workingDirectory := by
  have hsound : FileSystem.Sound (.ofText "srv") := by decide
  exact .entry .root rfl hsound

theorem get?_writeArchive_sample :
    ((({} : Deployment).writeArchive Archive.library (.ofText "app.balx") :
        ExceptT BuildError (StateM Machine) Bytes).run
      .workshop).2.files.get? [.ofText "srv", .ofText "app.balx"] =
        some (.file "app".toUTF8) := by
  have hplace : Machine.workshop.files.canonicalize (.ofText "app.balx") =
      .ok [.ofText "srv", .ofText "app.balx"] :=
    eq_ok_of_toOption (by decide)
  have h := get?_writeArchive Archive.library {} (.ofText "app.balx") .workshop
    Machine.standing_workshop hplace rfl
  rw [if_neg (by decide)] at h
  exact h

/-- An executable with the name of the archive does not outlive packaging. -/
theorem executable_lost_under_archive_name :
    ¬ ∀ (zip : ZipLibrary) (settings : Deployment) (executable : Bytes) (machine : Machine)
        (place : List Bytes) (content : ByteArray),
        machine.files.Standing machine.files.workingDirectory →
        machine.files.canonicalize executable = .ok place →
        machine.files.get? place = some (.file content) →
        ((settings.writeArchive zip executable : ExceptT BuildError (StateM Machine) Bytes).run
          machine).2.files.get? place = some (.file content) := by
  intro hkeeps
  have hplace : Machine.workshop.files.canonicalize
      (.ofText "aws-ballerina-lambda-functions.zip") =
        .ok [.ofText "srv", .ofText "aws-ballerina-lambda-functions.zip"] :=
    eq_ok_of_toOption (by decide)
  have hfile : Machine.workshop.files.get?
      [.ofText "srv", .ofText "aws-ballerina-lambda-functions.zip"] =
        some (.file "earlier".toUTF8) := rfl
  have hkept := hkeeps Archive.library {} _ .workshop _ _ Machine.standing_workshop hplace hfile
  have hname : entryName? [.ofText "srv", .ofText "aws-ballerina-lambda-functions.zip"] =
      some "aws-ballerina-lambda-functions.zip" := by
    decide
  have hentry : Machine.workshop.files.entryPlace?
      (({} : Deployment).archivePath
        [.ofText "srv", .ofText "aws-ballerina-lambda-functions.zip"]) =
          some [.ofText "srv", .ofText "aws-ballerina-lambda-functions.zip"] := by
    decide
  obtain ⟨cause, hrun⟩ := FileSystem.replaceArchive_of_coincidence Archive.library
    Machine.standing_workshop hplace hfile hname hentry (by decide) rfl
  rw [run_writeArchive, hrun, FileSystem.get?_erase (by simp), if_pos rfl] at hkept
  cases hkept

end LambdaDeploy
