import LambdaDeploy.Archive.Library
import LambdaDeploy.BuildError
import LambdaDeploy.Deployment.Command
import LambdaDeploy.Deployment.Terminal
import LambdaDeploy.FileSystem.Path
import LambdaDeploy.FileSystem.Store
import LambdaDeploy.Program.Basic

/-!
# Packaging

The executable of a program goes into an archive beside it, and the commands that
deploy the archive are shown.

* `ZipLibrary.archive` — the archive of an executable, as a library makes it.
* `Deployment.writeArchive` — replaces the archive beside an executable by one that
  holds just the executable.
* `Deployment.package` — shows the generated program, writes the archive and shows
  the commands.  A program without handlers is not packaged, and an output that
  refuses text changes nothing else.
-/

namespace LambdaDeploy

variable {m : Type → Type} [Monad m]

/-! ## The archive -/

/-- An operation on files whose failure means that packaging fails at `path`. -/
def packagingStep {α : Type} (path : Bytes) (operation : m (Except FileError α)) :
    ExceptT BuildError m α := do
  match ← operation with
  | .ok a => return a
  | .error cause => throw (.packaging path cause)

/-- How an executable is archived: deflated, and everyone may run it. -/
def executableOptions : EntryOptions where
  compression := .deflated
  permissions := 0o755

/-- The bytes of the archive at `path` whose only entry has this name, and the content that
an opened file gives when it is read. -/
def ZipLibrary.archive (zip : ZipLibrary) (path : Bytes) (name : String)
    (input : Except FileError ByteArray) : Except BuildError ByteArray := do
  (zip.start name executableOptions).mapError (.archive path)
  let content ← input.mapError (.packaging path)
  (zip.copy name executableOptions content).mapError (.packaging path)
  (zip.finish name executableOptions content).mapError (.archive path)

section Files

variable [FileStore m]

/-- Removes the archive of an earlier build.  It need not be there. -/
def removeArchive (archive : Bytes) : ExceptT BuildError m Unit := do
  match ← FileStore.unlink (m := m) archive with
  | .ok () => return
  | .error cause =>
    if cause = .notFound then return else throw (.packaging archive cause)

/-- Creates an archive with one entry, whose content comes from an opened file.  An
archive that is given up stays as the library leaves it. -/
def fillArchive (zip : ZipLibrary) (path : Bytes) (name : String)
    (input : Except FileError ByteArray) : ExceptT BuildError m Unit := do
  packagingStep path (FileStore.write path .empty)
  match zip.archive path name input with
  | .ok data => packagingStep path (FileStore.write path data)
  | .error e =>
    packagingStep path (FileStore.write path (zip.abandon name executableOptions input))
    throw e

/-- Replaces the archive beside an executable by one that holds just the
executable, and gives its path.  An archive that cannot be completed is removed
again, if that is possible. -/
def Deployment.writeArchive (zip : ZipLibrary) (settings : Deployment) (executable : Bytes) :
    ExceptT BuildError m Bytes := do
  let place ← packagingStep executable (FileStore.canonicalize executable)
  match place.getLast?.bind Bytes.text? with
  | none => throw (.invalidExecutable (Path.ofNames place))
  | some name =>
    let archive := Path.join (Path.ofNames place.dropLast) (.ofText settings.archiveName)
    removeArchive archive
    let input ← packagingStep (Path.ofNames place) (FileStore.openRead (Path.ofNames place))
    try
      fillArchive zip archive name input
    catch e =>
      let _ ← FileStore.unlink (m := m) archive
      throw e
    return archive

end Files

/-! ## The whole of packaging -/

/-- What is shown before an archive is made: the text of every document, and the
names of the handlers. -/
def Program.summary (program : Program) (dispatcher : Dispatcher) (handlers : List String) :
    List String :=
  program.documents.map (fun document => document.source ++ "\n") ++
    ["\t@" ++ dispatcher.package ++ ":" ++ dispatcher.annotation ++ ": " ++
      String.intercalate ", " handlers ++ "\n"]

/-- The name of an executable without its extension; handlers are addressed by
it. -/
def artifactBaseName (executable : Bytes) : Except BuildError String :=
  match Path.stem? executable with
  | some base => .ok base.display
  | none => .error (.invalidExecutable executable)

/-- Packages the executable of a program and shows how to deploy it.  The result is
the path of the archive; without handlers there is nothing to deploy. -/
def Deployment.package [FileStore m] [Terminal m] (zip : ZipLibrary) (settings : Deployment)
    (dispatcher : Dispatcher) (executable : Bytes) (program : Program)
    (handlers : List String) : ExceptT BuildError m (Option Bytes) := do
  if handlers.isEmpty then return none
  Terminal.showAll (m := m) (program.summary dispatcher handlers)
  let archive ← settings.writeArchive zip executable
  match artifactBaseName executable with
  | .error e => throw e
  | .ok base =>
    Terminal.showAll (m := m) (settings.instructions archive.display base)
    return some archive

end LambdaDeploy
