import LambdaDeploy.CommandLine.Session
import LambdaDeploy.Proofs.CommandLine.Omitting
import LambdaDeploy.Proofs.Deployment.Delivery
import LambdaDeploy.Proofs.Deployment.Showing
import LambdaDeploy.Proofs.Handler.Placement
import LambdaDeploy.Proofs.Program.Transcript

/-!
# The phases of a build

A build reads its outline and registers the handlers before it touches anything, then writes out
the texts of the documents, and packages the executable last.  On a machine each phase is a
function of the files, and the whole is their composition: a phase that fails ends the build with
what the phases before it have done, and packaging without handlers does nothing.

Two loops write the documents' texts: one joins them for the file that gets them, the other ends
each of them on the output.  They agree because a program with handlers has a document.

* `run_build` — **a build on a machine**, phase by phase; `run_runCommand` — its exit code.
* `packaging_of_idle` — without handlers, the executable makes no difference.
* `runCommand_of_emit_error`, `runCommand_of_emit_ok` — a command whose text cannot be written,
  and one whose text is.
* `runCommand_of_generated_nil`, `runCommand_of_generated` — a command without and with handlers.
* `Program.exists_sources_of_ofOutline` — the texts of the documents, from the lines of the
  outline.
* `packaging_of_documents` — when packaging succeeds, and that it shows the texts first.
* `runCommand_phases` — **what each outcome of the registration leaves of output and files.**
-/

namespace LambdaDeploy

variable {zip : ZipLibrary} {a : Arguments} (machine : Machine)

/-! ## Steps on a machine -/

theorem run_fileStep {α : Type} (operation : StateM Machine (Except FileError α)) :
    (fileStep operation).run machine =
      match operation machine with
      | (.ok value, after) => (.ok value, after)
      | (.error cause, after) => (.error (.file cause), after) := by
  rw [fileStep, run_bind, run_liftM]
  rcases operation machine with ⟨cause | value, after⟩
  · rfl
  · rfl

theorem run_buildStep {α : Type} (result : Except BuildError α) :
    (buildStep result : ExceptT Failure (StateM Machine) α).run machine =
      match result with
      | .ok value => (.ok value, machine)
      | .error e => (.error (.build e), machine) := by
  cases result with
  | ok value => rfl
  | error e => rfl

/-- The text of a file, which must be UTF-8. -/
def FileSystem.readText (fs : FileSystem) (path : Bytes) : Except FileError String :=
  match fs.openRead path with
  | .ok (.ok content) =>
    match String.fromUTF8? content with
    | some text => .ok text
    | none => .error .notUtf8
  | .ok (.error cause) => .error cause
  | .error cause => .error cause

theorem run_andThen {α β : Type} (x : StateM Machine α) (next : α → StateM Machine β) :
    (x >>= next) machine = next (x machine).1 (x machine).2 := rfl

theorem run_openRead (path : Bytes) :
    (FileStore.openRead path : StateM Machine (Except FileError (Except FileError ByteArray)))
      machine = (machine.files.openRead path, machine) := rfl

theorem run_readText (path : Bytes) :
    (readText path : StateM Machine (Except FileError String)) machine =
      (machine.files.readText path, machine) := by
  rw [readText, run_andThen, FileStore.read, run_andThen, run_openRead, FileSystem.readText]
  rcases machine.files.openRead path with cause | ⟨cause | content⟩
  · rfl
  · rfl
  · dsimp only [pure, StateT.pure]
    cases String.fromUTF8? content with
    | none => rfl
    | some text => rfl

theorem run_reportAll (texts : List String) :
    (Terminal.reportAll texts : StateM Machine Unit) machine =
      ((), { machine with errors := machine.errors ++ String.join texts }) := by
  induction texts generalizing machine with
  | nil => simp [Terminal.reportAll, String.join]; rfl
  | cons text texts ih =>
    refine (ih { machine with errors := machine.errors ++ text }).trans ?_
    rw [String.join_cons, String.append_assoc]

/-! ## A build as a function of the files -/

/-- The files after the text of the documents was written out, if that is asked for. -/
def FileSystem.emit (fs : FileSystem) (path? : Option String) (text : String) :
    Except FileError FileSystem :=
  match path? with
  | none => .ok fs
  | some path => fs.write (.ofText path) text.toUTF8

theorem FileSystem.emit_some (fs : FileSystem) (path text : String) :
    fs.emit (some path) text = fs.write (.ofText path) text.toUTF8 := rfl

/-- How the packaging of a build ends, the files that it leaves, and the text that it shows;
without an executable there is nothing to package. -/
def Arguments.packaging (zip : ZipLibrary) (a : Arguments) (program : Program)
    (handlers : List String) (files : FileSystem) :
    Except BuildError Unit × FileSystem × String :=
  match a.executable with
  | none => (.ok (), files, "")
  | some executable =>
    let outcome := a.deployment.outcome zip {} (.ofText executable) program handlers files
    (outcome.1.map fun _ => (), outcome.2)

theorem run_packaging (zip : ZipLibrary) (a : Arguments) (program : Program)
    (handlers : List String) :
    (do
      if let some executable := a.executable then
        let result ← (a.deployment.package zip {} (.ofText executable) program handlers :
          ExceptT BuildError (StateM Machine) (Option Bytes)).run
        let _ ← buildStep result : ExceptT Failure (StateM Machine) Unit).run machine =
      let outcome := a.packaging zip program handlers machine.files
      (outcome.1.mapError .build, { machine with
        files := outcome.2.1
        output := (machine.output.write outcome.2.2).2 }) := by
  rw [Arguments.packaging]
  cases a.executable with
  | none =>
    dsimp only
    rw [Sink.write_empty]
    rfl
  | some executable =>
    dsimp only
    rw [run_bind, run_liftM, run_package_eq]
    dsimp only
    rw [run_bind, run_buildStep]
    cases (a.deployment.outcome zip {} (.ofText executable) program handlers machine.files).1 with
    | error e => rfl
    | ok archive => rfl

/-- The machine after the diagnostics of an analysis were shown. -/
def Machine.told (machine : Machine) (analysis : Analysis) : Machine :=
  { machine with
    errors := machine.errors ++
      String.join (analysis.diagnostics.entries.map fun d => d.text ++ "\n") }

/-- What a build makes of a machine once the handlers are registered. -/
def Arguments.finish (zip : ZipLibrary) (a : Arguments) (analysis : Analysis) (result : Program)
    (machine : Machine) : Except Failure Unit × Machine :=
  match machine.files.emit a.emit result.sources with
  | .error cause => (.error (.file cause), machine.told analysis)
  | .ok files =>
    let outcome := a.packaging zip result analysis.generated files
    (outcome.1.mapError .build, { machine.told analysis with
      files := outcome.2.1
      output := (machine.output.write outcome.2.2).2 })

/-- **A build on a machine**, phase by phase. -/
theorem run_build (zip : ZipLibrary) (a : Arguments) :
    (a.build zip : ExceptT Failure (StateM Machine) Unit).run machine =
      match machine.files.readText (.ofText a.outline) with
      | .error cause => (.error (.file cause), machine)
      | .ok text =>
        match Program.ofOutline text with
        | .error e => (.error (.build e), machine)
        | .ok program =>
          match program.register {} with
          | .error e => (.error (.build e), machine)
          | .ok (analysis, result) => a.finish zip analysis result machine := by
  rw [Arguments.build, run_bind, run_fileStep, run_readText]
  cases machine.files.readText (.ofText a.outline) with
  | error cause => rfl
  | ok text =>
    dsimp only
    rw [run_bind, run_buildStep]
    cases Program.ofOutline text with
    | error e => rfl
    | ok program =>
      dsimp only
      rw [run_bind, run_buildStep]
      cases program.register {} with
      | error e => rfl
      | ok outcome =>
        obtain ⟨analysis, result⟩ := outcome
        dsimp only
        rw [run_bind, run_liftM, run_reportAll, Arguments.finish, Machine.told]
        generalize machine.errors ++ String.join _ = errors
        dsimp only
        cases a.emit with
        | none =>
          exact run_packaging { machine with errors := errors } zip a result analysis.generated
        | some path =>
          dsimp only [FileSystem.emit]
          rw [run_bind, run_fileStep, run_write]
          dsimp only
          cases machine.files.write (.ofText path) result.sources.toUTF8 with
          | error cause => rfl
          | ok files =>
            exact run_packaging { machine with files := files, errors := errors } zip a result
              analysis.generated

/-- A build whose handlers are registered. -/
theorem run_build_of_register (zip : ZipLibrary) {text : String} {program result : Program}
    {analysis : Analysis} (htext : machine.files.readText (.ofText a.outline) = .ok text)
    (hprogram : Program.ofOutline text = .ok program)
    (hregister : program.register {} = .ok (analysis, result)) :
    (a.build zip : ExceptT Failure (StateM Machine) Unit).run machine =
      a.finish zip analysis result machine := by
  rw [run_build, htext]
  dsimp only
  rw [hprogram]
  dsimp only
  rw [hregister]

/-- A command line that asks for a build. -/
theorem run_runCommand {arguments : List String}
    (h : Request.ofArguments arguments = .ok (.build a)) :
    (runCommand zip arguments : StateM Machine UInt32) machine =
      match (a.build zip : ExceptT Failure (StateM Machine) Unit).run machine with
      | (.ok (), after) => (0, after)
      | (.error failure, after) =>
        (1, { after with
          errors := after.errors ++ ("Error: " ++ failure.message ++ "\n") }) := by
  rw [runCommand, h]
  dsimp only
  rw [run_andThen]
  rcases (a.build zip : ExceptT Failure (StateM Machine) Unit).run machine with
    ⟨failure | ⟨⟩, after⟩
  · rfl
  · rfl

/-- A build that fails and leaves the machine alone makes the command fail. -/
theorem refused_of_build {arguments : List String}
    (request : Request.ofArguments arguments = .ok (.build a)) {failure : Failure}
    (h : (a.build zip : ExceptT Failure (StateM Machine) Unit).run machine =
      (.error failure, machine)) :
    let done := (runCommand zip arguments : StateM Machine UInt32) machine
    done.1 = 1 ∧ done.2.output = machine.output ∧ done.2.files = machine.files := by
  intro done
  have hdone : done = _ := run_runCommand machine request
  rw [h] at hdone
  rw [hdone]
  exact ⟨rfl, rfl, rfl⟩

/-! ## Without handlers -/

/-- Without handlers, or without an executable, there is nothing to package. -/
theorem packaging_of_idle (zip : ZipLibrary) {a : Arguments} {handlers : List String}
    (h : a.executable = none ∨ handlers = [])
    (program : Program) (files : FileSystem) :
    a.packaging zip program handlers files = (.ok (), files, "") := by
  rw [Arguments.packaging]
  cases hexecutable : a.executable with
  | none => rfl
  | some executable =>
    rw [h.resolve_left (by simp [hexecutable])]
    rfl

theorem finish_withoutExecutable {analysis : Analysis} (h : analysis.generated = [])
    (result : Program) :
    a.withoutExecutable.finish zip analysis result machine =
      a.finish zip analysis result machine := by
  simp only [Arguments.finish, packaging_of_idle zip (.inr h), Arguments.withoutExecutable]

/-! ## Once the handlers are registered -/

section Registered

variable {arguments : List String} {analysis : Analysis} {result : Program}
  (request : Request.ofArguments arguments = .ok (.build a))
  (hbuild : (a.build zip : ExceptT Failure (StateM Machine) Unit).run machine =
    a.finish zip analysis result machine)

include request hbuild

/-- A command whose text cannot be written fails and does nothing else. -/
theorem runCommand_of_emit_error {cause : FileError}
    (hemit : machine.files.emit a.emit result.sources = .error cause) :
    let done := (runCommand zip arguments : StateM Machine UInt32) machine
    done.1 = 1 ∧ done.2.output = machine.output ∧ done.2.files = machine.files := by
  intro done
  have hdone : done = _ := run_runCommand machine request
  rw [hbuild, Arguments.finish, hemit] at hdone
  rw [hdone]
  exact ⟨rfl, rfl, rfl⟩

/-- A command whose text is written, where that is asked for, ends as its packaging does. -/
theorem runCommand_of_emit_ok {written : FileSystem}
    (hemit : machine.files.emit a.emit result.sources = .ok written) :
    let done := (runCommand zip arguments : StateM Machine UInt32) machine
    let outcome := a.packaging zip result analysis.generated written
    (done.1 = 0 ∨ done.1 = 1) ∧ (done.1 = 0 ↔ outcome.1 = .ok ()) ∧
      done.2.files = outcome.2.1 ∧ done.2.output = (machine.output.write outcome.2.2).2 := by
  intro done outcome
  have hdone : done = _ := run_runCommand machine request
  rw [hbuild, Arguments.finish, hemit] at hdone
  dsimp only at hdone
  rcases hresult : outcome.1 with e | ⟨⟩
  · rw [hresult] at hdone
    rw [hdone]
    have hfailed : (1 : UInt32) ≠ 0 := by decide
    exact ⟨.inr rfl, iff_of_false hfailed (by simp), rfl, rfl⟩
  · rw [hresult] at hdone
    rw [hdone]
    exact ⟨.inl rfl, iff_of_true rfl rfl, rfl, rfl⟩

/-- A command that has nothing to package ends with its text. -/
theorem runCommand_of_idle (hidle : a.executable = none ∨ analysis.generated = [])
    {written : FileSystem} (hemit : machine.files.emit a.emit result.sources = .ok written) :
    let done := (runCommand zip arguments : StateM Machine UInt32) machine
    done.1 = 0 ∧ done.2.files = written ∧ done.2.output = machine.output := by
  obtain ⟨-, hcode, hfiles, houtput⟩ := runCommand_of_emit_ok machine request hbuild hemit
  rw [packaging_of_idle zip hidle] at hcode hfiles houtput
  rw [Sink.write_empty] at houtput
  exact ⟨hcode.2 rfl, hfiles, houtput⟩

/-- Without handlers a command goes as it goes without its executable. -/
theorem runCommand_withoutExecutable (hgenerated : analysis.generated = [])
    (hother : (a.withoutExecutable.build zip : ExceptT Failure (StateM Machine) Unit).run machine =
      a.withoutExecutable.finish zip analysis result machine) :
    (runCommand zip arguments : StateM Machine UInt32) machine =
      (runCommand zip (Request.withoutExecutable .anything arguments) : StateM Machine UInt32)
        machine := by
  refine (run_runCommand machine request).trans (.symm ?_)
  refine (run_runCommand machine (Request.ofArguments_withoutExecutable request)).trans ?_
  rw [hother, finish_withoutExecutable machine hgenerated, ← hbuild]

/-- Without handlers it writes the text to the file that was asked for, or fails. -/
theorem runCommand_of_generated_nil (hgenerated : analysis.generated = []) {path : String}
    (hpath : a.emit = some path) :
    let done := (runCommand zip arguments : StateM Machine UInt32) machine
    (∃ cause, machine.files.write (.ofText path) result.sources.toUTF8 = .error cause ∧
      done.1 = 1 ∧ done.2.output = machine.output ∧ done.2.files = machine.files) ∨
    ∃ place, machine.files.writePlace (.ofText path) = .ok place ∧ done.1 = 0 ∧
      done.2.files = machine.files.put place (.file result.sources.toUTF8) := by
  intro done
  have hemit : machine.files.emit a.emit result.sources =
      machine.files.write (.ofText path) result.sources.toUTF8 := by
    rw [hpath, FileSystem.emit_some]
  cases hwrite : machine.files.write (.ofText path) result.sources.toUTF8 with
  | error cause =>
    exact .inl ⟨cause, rfl, runCommand_of_emit_error machine request hbuild (hemit.trans hwrite)⟩
  | ok written =>
    obtain ⟨hcode, hfiles, -⟩ :=
      runCommand_of_idle machine request hbuild (.inr hgenerated) (hemit.trans hwrite)
    obtain ⟨place, hplace, -, hput⟩ := FileSystem.exists_writePlace_of_write hwrite
    exact .inr ⟨place, hplace, hcode, hfiles.trans hput⟩

end Registered

/-! ## The texts of the documents -/

/-- The text of a document: its lines, without comments and without the indentation that they
share. -/
def Outline.Extent.source (e : Outline.Extent) : String :=
  String.ofList (Text.dedent ((Outline.kept e.inside).map (·.text)))

theorem map_source_of_gives {program : Program} {extents : List Outline.Extent}
    {blocks : List Outline.Block} {documents : List Document}
    (hextents : List.Forall₂ Outline.Extent.Encloses extents blocks)
    (h : List.Forall₂ program.Gives blocks documents) :
    documents.map (·.source) = extents.map Outline.Extent.source := by
  induction hextents generalizing documents with
  | nil =>
    cases h
    rfl
  | cons hextent _ ih =>
    cases h with
    | cons hgives hrest =>
      rw [List.map_cons, List.map_cons, ih hrest, hgives.source, hextent.inside]
      rfl

/-- **The texts of a program that is read from an outline** are those of its documents'
lines. -/
theorem Program.exists_sources_of_ofOutline {program : Program} {text : String}
    (h : ofOutline text = .ok program) :
    ∃ items blocks, Text.numberedLines text.toList = items.flatMap Outline.Item.lines ∧
      Outline.Composed Outline.Layout.start.scope items program.toScope blocks ∧
      program.sources =
        String.intercalate "\n"
          ((items.filterMap Outline.Item.extent?).map Outline.Extent.source) := by
  obtain ⟨items, blocks, hlines, hitems, hdocuments⟩ := exists_items_of_ofOutline h
  refine ⟨items, blocks, hlines, hitems, ?_⟩
  rw [sources, map_source_of_gives hitems.documents hdocuments]

/-- Lines that are ended are lines that are joined, and an end. -/
theorem join_map_ended {texts : List String} (h : texts ≠ []) :
    String.join (texts.map (· ++ "\n")) = String.intercalate "\n" texts ++ "\n" := by
  induction texts with
  | nil => exact absurd rfl h
  | cons text texts ih =>
    cases texts with
    | nil => simp
    | cons next texts =>
      rw [List.map_cons, String.join_cons, ih (List.cons_ne_nil next texts),
        String.intercalate_cons_cons]
      simp [String.append_assoc]

/-- What is shown before an archive is made begins with the texts of the documents. -/
theorem exists_join_summary {program : Program} (h : program.documents ≠ [])
    (dispatcher : Dispatcher) (handlers : List String) :
    ∃ rest, String.join (program.summary dispatcher handlers) =
      program.sources ++ "\n" ++ rest := by
  rw [Program.summary, String.join_append, Program.sources, ← join_map_ended (by simpa using h),
    List.map_map]
  exact ⟨_, rfl⟩

/-- Packaging with handlers succeeds exactly if the archive is written and the executable has a
base name.  It replaces the archive, and shows the texts of the documents first. -/
theorem packaging_of_documents (zip : ZipLibrary) {executable : String}
    (hexecutable : a.executable = some executable) {program : Program}
    (hdocuments : program.documents ≠ []) {handlers : List String} (hhandlers : handlers ≠ [])
    (files : FileSystem) :
    let outcome := a.packaging zip program handlers files
    let replaced := files.replaceArchive zip a.deployment (.ofText executable)
    (outcome.1 = .ok () ↔ ∃ archive base, replaced.1 = .ok archive ∧
        artifactBaseName (.ofText executable) = .ok base) ∧
      outcome.2.1 = replaced.2 ∧ ∃ rest, outcome.2.2 = program.sources ++ "\n" ++ rest := by
  obtain ⟨line, hsummary⟩ := exists_join_summary hdocuments {} handlers
  rw [Arguments.packaging, hexecutable]
  dsimp only
  rw [Deployment.outcome, if_neg hhandlers, hsummary]
  rcases files.replaceArchive zip a.deployment (.ofText executable) with ⟨e | archive, after⟩
  · exact ⟨iff_of_false (by rintro ⟨⟩) (by rintro ⟨_, _, ⟨⟩, _⟩), rfl, line, rfl⟩
  · dsimp only
    cases artifactBaseName (.ofText executable) with
    | error e => exact ⟨iff_of_false (by rintro ⟨⟩) (by rintro ⟨_, _, _, ⟨⟩⟩), rfl, line, rfl⟩
    | ok base => exact ⟨⟨fun _ => ⟨archive, base, rfl, rfl⟩, fun _ => rfl⟩, rfl, _,
        String.append_assoc⟩

/-- A program with handlers has documents, before and after a run. -/
theorem documents_ne_nil_of_register {program result : Program} {dispatcher : Dispatcher}
    {analysis : Analysis} (hp : program.Consistent)
    (run : program.register dispatcher = .ok (analysis, result))
    (registers : analysis.generated ≠ []) : result.documents ≠ [] := by
  obtain ⟨w, rfl, rfl⟩ := Program.exists_wiring run registers
  obtain ⟨first, -, -, hlt⟩ := w.exists_handlerDocument hp
  have hlength := congrArg List.length w.names_documents_result
  rw [List.length_map, List.length_map] at hlength
  exact List.ne_nil_of_length_pos (hlength ▸ Nat.lt_of_le_of_lt (Nat.zero_le _) hlt)

/-- With handlers a command succeeds exactly if the archive is written and the executable has a
base name.  It shows the text first. -/
theorem runCommand_of_generated {arguments : List String} {analysis : Analysis} {result : Program}
    (request : Request.ofArguments arguments = .ok (.build a))
    (hbuild : (a.build zip : ExceptT Failure (StateM Machine) Unit).run machine =
      a.finish zip analysis result machine)
    (hdocuments : result.documents ≠ []) (hgenerated : analysis.generated ≠ [])
    {executable : String} (hexecutable : a.executable = some executable) {written : FileSystem}
    (hemit : machine.files.emit a.emit result.sources = .ok written) :
    let done := (runCommand zip arguments : StateM Machine UInt32) machine
    let replaced := written.replaceArchive zip a.deployment (.ofText executable)
    (done.1 = 0 ∨ done.1 = 1) ∧
      (done.1 = 0 ↔ ∃ archive base, replaced.1 = .ok archive ∧
        artifactBaseName (.ofText executable) = .ok base) ∧
      done.2.files = replaced.2 ∧
      ∃ rest, done.2.output = (machine.output.write (result.sources ++ "\n" ++ rest)).2 ∧
        (machine.output = {} →
          (result.sources ++ "\n").toUTF8.toList <+: done.2.output.taken) := by
  intro done replaced
  obtain ⟨hcodes, hcode, hfiles, houtput⟩ := runCommand_of_emit_ok machine request hbuild hemit
  obtain ⟨hsucceeds, hreplaced, rest, hshown⟩ :=
    packaging_of_documents zip hexecutable hdocuments hgenerated written
  rw [hshown] at houtput
  refine ⟨hcodes, hcode.trans hsucceeds, hfiles.trans hreplaced, rest, houtput, fun hempty => ?_⟩
  have htaken : done.2.output.taken = (result.sources ++ "\n" ++ rest).toUTF8.toList := by
    rw [houtput, hempty]
    rfl
  rw [htaken, toList_toUTF8_append _ rest]
  exact List.prefix_append _ _

/-! ## The phases -/

/-- **The phases of a build are kept apart.**  If the outline cannot be read, or is not one, or
its handlers cannot be registered, the build fails and leaves output and files alone.

Without handlers the build goes as it goes without an executable: nothing is shown, and at most
one file is written, the one that gets the texts of the documents as they stand in the outline.
The build fails only if this file cannot be written, and then nothing is.

With handlers, a file that cannot be written ends the build, too.  Else the executable is
packaged, if one is given: the build succeeds exactly if its archive is written and it has a base
name, and what the output begins with is what was written for the documents. -/
theorem runCommand_phases (zip : ZipLibrary) {arguments : List String}
    (request : Request.ofArguments arguments = .ok (.build a)) :
    let done := (runCommand zip arguments : StateM Machine UInt32) machine
    let unpackaged :=
      (runCommand zip (Request.withoutExecutable .anything arguments) : StateM Machine UInt32)
        machine
    let code := done.1
    let after := done.2
    let refused := code = 1 ∧ after.output = machine.output ∧ after.files = machine.files
    let read :=
      ((readText (.ofText a.outline) : StateM Machine (Except FileError String)) machine).1
    (∀ cause, read = .error cause → refused) ∧
    ∀ text, read = .ok text →
      (∀ e, Program.ofOutline text = .error e → refused) ∧
      ∀ program, Program.ofOutline text = .ok program →
        (∀ e, program.register {} = .error e → refused) ∧
        ∀ analysis result, program.register {} = .ok (analysis, result) →
          (∀ path cause, a.emit = some path →
            machine.files.write (.ofText path) result.sources.toUTF8 = .error cause → refused) ∧
          (analysis.generated = [] →
            done = unpackaged ∧
            after.output = machine.output ∧
            (a.emit = none → code = 0 ∧ after.files = machine.files) ∧
            ∀ path, a.emit = some path →
              (∃ cause, machine.files.write (.ofText path) result.sources.toUTF8 = .error cause ∧
                refused) ∨
              ∃ place items blocks, machine.files.writePlace (.ofText path) = .ok place ∧
                code = 0 ∧ Text.numberedLines text.toList = items.flatMap Outline.Item.lines ∧
                Outline.Composed Outline.Layout.start.scope items program.toScope blocks ∧
                after.files = machine.files.put place (.file (String.intercalate "\n"
                  ((items.filterMap Outline.Item.extent?).map Outline.Extent.source)).toUTF8)) ∧
          (analysis.generated ≠ [] → ∀ written,
            machine.files.emit a.emit result.sources = .ok written →
            (a.executable = none →
              code = 0 ∧ after.files = written ∧ after.output = machine.output) ∧
            ∀ executable, a.executable = some executable →
              let replaced := written.replaceArchive zip a.deployment (.ofText executable)
              (code = 0 ∨ code = 1) ∧
              (code = 0 ↔ ∃ archive base, replaced.1 = .ok archive ∧
                artifactBaseName (.ofText executable) = .ok base) ∧
              after.files = replaced.2 ∧
              ∃ rest, after.output = (machine.output.write (result.sources ++ "\n" ++ rest)).2 ∧
                (machine.output = {} →
                  (result.sources ++ "\n").toUTF8.toList <+: after.output.taken)) := by
  intro done unpackaged code after refused read
  have hread : read = machine.files.readText (.ofText a.outline) :=
    congrArg Prod.fst (run_readText machine (.ofText a.outline))
  have hbuild := run_build machine zip a
  refine ⟨?_, ?_⟩
  · intro cause hcause
    rw [← hread, hcause] at hbuild
    exact refused_of_build machine request hbuild
  intro text htext
  rw [← hread, htext] at hbuild
  dsimp only at hbuild
  refine ⟨?_, ?_⟩
  · intro e he
    rw [he] at hbuild
    exact refused_of_build machine request hbuild
  intro program hprogram
  rw [hprogram] at hbuild
  dsimp only at hbuild
  refine ⟨?_, ?_⟩
  · intro e he
    rw [he] at hbuild
    exact refused_of_build machine request hbuild
  intro analysis result hregister
  rw [hregister] at hbuild
  dsimp only at hbuild
  refine ⟨?_, ?_, ?_⟩
  · intro path cause hpath hwrite
    have hemit : machine.files.emit a.emit result.sources = .error cause := by
      rw [hpath, FileSystem.emit_some, hwrite]
    exact runCommand_of_emit_error machine request hbuild hemit
  · intro hgenerated
    have hother := @run_build_of_register a.withoutExecutable machine zip text program result
      analysis (hread.symm.trans htext) hprogram hregister
    refine ⟨runCommand_withoutExecutable machine request hbuild hgenerated hother, ?_,
      fun hnone => ?_, fun path hpath => ?_⟩
    · cases hemit : machine.files.emit a.emit result.sources with
      | error cause => exact (runCommand_of_emit_error machine request hbuild hemit).2.1
      | ok written =>
        exact (runCommand_of_idle machine request hbuild (.inr hgenerated) hemit).2.2
    · have hemit : machine.files.emit a.emit result.sources = .ok machine.files := by
        rw [hnone]
        rfl
      obtain ⟨hcode, hfiles, -⟩ :=
        runCommand_of_idle machine request hbuild (.inr hgenerated) hemit
      exact ⟨hcode, hfiles⟩
    · rcases runCommand_of_generated_nil machine request hbuild hgenerated hpath with
        hfailed | ⟨place, hplace, hcode, hfiles⟩
      · exact .inl hfailed
      · -- without handlers the program is the one that was read
        obtain ⟨rfl, -⟩ := Program.register_of_generated_eq_nil hregister hgenerated
        obtain ⟨items, blocks, hlines, hitems, hsources⟩ :=
          Program.exists_sources_of_ofOutline hprogram
        exact .inr ⟨place, items, blocks, hplace, hcode, hlines, hitems, hsources ▸ hfiles⟩
  · intro hgenerated written hemit
    have hdocuments := documents_ne_nil_of_register
      (Program.consistent_of_ofOutline hprogram) hregister hgenerated
    exact ⟨fun hnone => runCommand_of_idle machine request hbuild (.inl hnone) hemit,
      fun executable hexecutable =>
        runCommand_of_generated machine request hbuild hdocuments hgenerated hexecutable hemit⟩

/-- An outline whose only function is no handler. -/
def plainOutline : String := "document orders \x7b
    function place() \x7b
    \x7d
\x7d
"

/-- An outline with a handler. -/
def handlerOutline : String := "import ballerinax/awslambda \x7b __register, __process \x7d;
document orders \x7b
    @awslambda:Function
    function place(awslambda:Context ctx, json order) \x7b
    \x7d
\x7d
"

/-- A machine with an outline, and an executable beside it. -/
def Machine.shop (outline : String) : Machine where
  files :=
    { entries :=
        [([.ofText "shop.outline"], .file outline.toUTF8),
          ([.ofText "app.balx"], .file "code".toUTF8)]
      workingDirectory := [] }

theorem exists_register_plainOutline :
    ∃ program analysis result, Program.ofOutline plainOutline = .ok program ∧
      program.register {} = .ok (analysis, result) ∧ analysis.generated = [] := by
  have hrun : (Program.ofOutline plainOutline >>= fun program =>
      program.register {}).toOption.any (fun outcome => outcome.1.generated.isEmpty) = true := by
    rw [Program.ofOutline, show plainOutline = String.ofList _ from rfl, String.toList_ofList]
    decide
  obtain ⟨⟨analysis, result⟩, hboth, hempty⟩ := exists_ok_of_any hrun
  obtain ⟨program, hprogram, hregister⟩ := exists_of_bind_eq_ok hboth
  exact ⟨program, analysis, result, hprogram, hregister, List.isEmpty_iff.1 hempty⟩

set_option maxRecDepth 1000 in
theorem exists_register_handlerOutline :
    ∃ program analysis result, Program.ofOutline handlerOutline = .ok program ∧
      program.register {} = .ok (analysis, result) ∧ analysis.generated ≠ [] := by
  have hrun : (Program.ofOutline handlerOutline >>= fun program =>
      program.register {}).toOption.any (fun outcome => !outcome.1.generated.isEmpty) = true := by
    rw [Program.ofOutline, show handlerOutline = String.ofList _ from rfl, String.toList_ofList]
    decide +kernel
  obtain ⟨⟨analysis, result⟩, hboth, hsome⟩ := exists_ok_of_any hrun
  obtain ⟨program, hprogram, hregister⟩ := exists_of_bind_eq_ok hboth
  exact ⟨program, analysis, result, hprogram, hregister, by simpa using hsome⟩

/-- On these machines a file of a plain name can be created and removed. -/
theorem creatable_shop (outline : String) {name : Bytes} (hsound : FileSystem.Sound name)
    (hshort : name.length ≤ FileSystem.nameLimit)
    (htaken : FileSystem.checkPath (Path.ofNames [name]) = .ok ()) :
    (Machine.shop outline).files.Creatable [] name where
  standing := .root
  isDirectory := rfl
  sound := hsound
  short := by simpa using hshort
  taken := htaken
  writable := rfl
  removable := rfl

/-- The outline of these machines is read. -/
theorem readText_shop (outline : String) :
    ((readText (.ofText "/shop.outline") : StateM Machine (Except FileError String))
      (.shop outline)).1 = .ok outline := by
  have hstanding : (Machine.shop outline).files.Standing [.ofText "shop.outline"] :=
    .entry .root rfl (by decide)
  have hfile : (Machine.shop outline).files.get? [.ofText "shop.outline"] =
      some (.file outline.toUTF8) := rfl
  have hopen : (Machine.shop outline).files.openRead (Path.ofNames [.ofText "shop.outline"]) =
      .ok (.ok outline.toUTF8) :=
    (FileSystem.openRead_ofNames_iff hstanding (by simp)
      (fun target hlink => nomatch hfile.symm.trans hlink)).2
        ⟨eq_ok_of_toOption (by decide), by decide, rfl, hfile⟩
  have htext : String.fromUTF8? outline.toUTF8 = some outline := Bytes.text?_ofText outline
  rw [run_readText, show Bytes.ofText "/shop.outline" = Path.ofNames [.ofText "shop.outline"]
    by decide, FileSystem.readText, hopen]
  dsimp only
  rw [htext]

/-- What is written on these machines. -/
theorem write_shop (outline text : String) :
    (Machine.shop outline).files.write (.ofText "/out.bal") text.toUTF8 =
      .ok ((Machine.shop outline).files.put [.ofText "out.bal"] (.file text.toUTF8)) := by
  have hcreatable : (Machine.shop outline).files.Creatable [] (.ofText "out.bal") :=
    creatable_shop outline (by decide) (by decide)
      (eq_ok_of_toOption (by decide))
  rw [show Bytes.ofText "/out.bal" = Path.ofNames ([] ++ [.ofText "out.bal"]) by decide,
    hcreatable.write_eq (.inl rfl)]
  rfl

/-- The executable can be packaged after any text was written. -/
theorem deliverable_shop (text : String) :
    ((Machine.shop handlerOutline).files.put [.ofText "out.bal"] (.file text.toUTF8)).Deliverable {}
      (.ofText "/app.balx") [] "app.balx" "code".toUTF8 := by
  have hstanding : (Machine.shop handlerOutline).files.Standing ([] ++ [.ofText "app.balx"]) :=
    .entry .root rfl (by decide)
  have hfile : (Machine.shop handlerOutline).files.get? ([] ++ [.ofText "app.balx"]) =
      some (.file "code".toUTF8) := rfl
  have habsent : (Machine.shop handlerOutline).files.get?
      ([] ++ [.ofText ({} : Deployment).archiveName]) = none := rfl
  have hunwritten : (Machine.shop handlerOutline).files.get? [.ofText "out.bal"] = none := rfl
  have h : (Machine.shop handlerOutline).files.Deliverable {} (.ofText "/app.balx") [] "app.balx"
      "code".toUTF8 := {
    grounded := ⟨.root, rfl⟩
    leads := eq_ok_of_toOption (by decide)
    readable := (FileSystem.openRead_ofNames_iff hstanding (by simp)
      (fun target hlink => nomatch hfile.symm.trans hlink)).2
        ⟨eq_ok_of_toOption (by decide), by decide, rfl, hfile⟩
    plain := by decide
    writable := rfl
    removable := rfl
    apart := by decide
    free := fun hdirectory => nomatch habsent.symm.trans hdirectory
    clear := by decide
    short := by decide
    taken := eq_ok_of_toOption (by decide) }
  have hsame : ∀ place, place ≠ [.ofText "out.bal"] →
      ((Machine.shop handlerOutline).files.put [.ofText "out.bal"] (.file text.toUTF8)).get? place =
        (Machine.shop handlerOutline).files.get? place := fun place hplace => by
    rw [FileSystem.get?_put (by simp), if_neg hplace]
  have hclear : [.ofText "out.bal"] ∉
      (Machine.shop handlerOutline).files.trail (.ofText "/app.balx") := by decide
  refine h.keep (FileSystem.keepsDirectories_put (by simp) (by simp [hunwritten]) _) rfl rfl
    (fun seen hseen => hsame seen (ne_of_mem_of_not_mem hseen hclear)) ?_ ?_
  · exact hsame _ (by decide)
  · rw [hsame _ (by decide), habsent]
    simp

/-- Without a handler the text of the document is written and nothing else is done; with one the
executable is packaged, too, and the text is shown. -/
theorem runCommand_phases_sample :
    let all := ["--executable=/app.balx", "--emit", "/out.bal", "/shop.outline"]
    Request.ofArguments all =
        .ok (.build ⟨"/shop.outline", some "/app.balx", some "/out.bal", none, none, none⟩) ∧
      (∃ text : String,
        let done := (runCommand Archive.library all : StateM Machine UInt32) (.shop plainOutline)
        done = (runCommand Archive.library ["--emit", "/out.bal", "/shop.outline"] :
            StateM Machine UInt32) (.shop plainOutline) ∧
          done.1 = 0 ∧ done.2.output = {} ∧
          done.2.files = (Machine.shop plainOutline).files.put [.ofText "out.bal"]
            (.file text.toUTF8)) ∧
      ∃ (text : String) (data : ByteArray),
        let done := (runCommand Archive.library all : StateM Machine UInt32) (.shop handlerOutline)
        done.1 = 0 ∧
          done.2.files = ((Machine.shop handlerOutline).files.put [.ofText "out.bal"]
            (.file text.toUTF8)).put [.ofText "aws-ballerina-lambda-functions.zip"] (.file data) ∧
          Archive.library.entries? data =
            some [⟨"app.balx", .deflated, 0o100755, "code".toUTF8⟩] ∧
          (text ++ "\n").toUTF8.toList <+: done.2.output.taken := by
  intro all
  have hrequest : Request.ofArguments all =
      .ok (.build ⟨"/shop.outline", some "/app.balx", some "/out.bal", none, none, none⟩) := rfl
  refine ⟨hrequest, ?_, ?_⟩
  · obtain ⟨program, analysis, result, hprogram, hregister, hnone⟩ := exists_register_plainOutline
    obtain ⟨-, hread⟩ := runCommand_phases (.shop plainOutline) Archive.library hrequest
    obtain ⟨-, hparsed⟩ := hread plainOutline (readText_shop plainOutline)
    obtain ⟨-, hregistered⟩ := hparsed program hprogram
    obtain ⟨-, hplain, -⟩ := hregistered analysis result hregister
    obtain ⟨hsame, houtput, -, hemitted⟩ := hplain hnone
    have hwithout : Request.withoutExecutable .anything all =
        ["--emit", "/out.bal", "/shop.outline"] := by decide
    rw [hwithout] at hsame
    rcases hemitted "/out.bal" rfl with
      ⟨cause, hwrite, -⟩ | ⟨place, items, blocks, hplace, hcode, -, -, hfiles⟩
    · have hok := write_shop plainOutline result.sources
      rw [hok] at hwrite
      cases hwrite
    · have hout : (Machine.shop plainOutline).files.writePlace (.ofText "/out.bal") =
          .ok [.ofText "out.bal"] := eq_ok_of_toOption (by decide)
      have hthere : place = [.ofText "out.bal"] := Except.ok.inj (hplace.symm.trans hout)
      rw [hthere] at hfiles
      exact ⟨_, hsame, hcode, houtput, hfiles⟩
  · obtain ⟨program, analysis, result, hprogram, hregister, hsome⟩ :=
      exists_register_handlerOutline
    obtain ⟨-, hread⟩ := runCommand_phases (.shop handlerOutline) Archive.library hrequest
    obtain ⟨-, hparsed⟩ := hread handlerOutline (readText_shop handlerOutline)
    obtain ⟨-, hregistered⟩ := hparsed program hprogram
    obtain ⟨-, -, hhandlers⟩ := hregistered analysis result hregister
    obtain ⟨-, hpackages⟩ := hhandlers hsome _
      ((FileSystem.emit_some _ _ _).trans (write_shop handlerOutline result.sources))
    obtain ⟨-, hcode, hfiles, rest, -, hprefix⟩ := hpackages "/app.balx" rfl
    have haccepts : Archive.library.Accepts "app.balx" executableOptions "code".toUTF8 :=
      Archive.accepts_library (by decide)
    obtain ⟨data, hfinish, hdata⟩ := haccepts.archive_eq
    have hreplace := (deliverable_shop result.sources).replaceArchive_eq hdata
    have hbase : artifactBaseName (.ofText "/app.balx") = .ok "app" :=
      eq_ok_of_toOption (by decide)
    have hdeployment : Arguments.deployment
        ⟨"/shop.outline", some "/app.balx", some "/out.bal", none, none, none⟩ = {} := rfl
    rw [hdeployment, hreplace] at hcode hfiles
    have hzero := hcode.2 ⟨_, _, rfl, hbase⟩
    exact ⟨result.sources, data, hzero, hfiles, Archive.faithful_library _ _ _ _ hfinish,
      hprefix rfl⟩

/-- An outline that cannot be read does not make a command fail that asks for help. -/
theorem runCommand_help_without_outline :
    Request.ofArguments ["missing.outline"] =
        .ok (.build ⟨"missing.outline", none, none, none, none, none⟩) ∧
      Request.ofArguments ["missing.outline", "--help"] = .ok .help ∧
      ((readText (.ofText "missing.outline") : StateM Machine (Except FileError String)) {}).1 =
        .error .notFound ∧
      let done := (runCommand Archive.library ["missing.outline", "--help"] :
        StateM Machine UInt32) {}
      done.1 = 0 ∧ done.2.output.taken = helpText.toUTF8.toList :=
  ⟨rfl, rfl, rfl, rfl, rfl⟩

end LambdaDeploy
