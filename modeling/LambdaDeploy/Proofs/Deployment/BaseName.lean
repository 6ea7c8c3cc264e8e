import LambdaDeploy.Proofs.Archive.ReadBack
import LambdaDeploy.Proofs.Deployment.Showing
import LambdaDeploy.Proofs.FileSystem.LastName
import Mathlib.Data.Prod.Basic

/-!
# The base name in the commands

The deployment command addresses the handlers by a base name, which is taken from the path of the
executable as it is given.  The entry of the archive has the name of the executable itself, to
which the path leads through links.  The two agree unless the last name of the path is the name
of a link: then the command has the link's name, and the archive that of the executable.

* `archive_of_replaceArchive` — the archive that replaces another one, and its entry.
* `base_of_package` — **the base name and the entry's name**, after packaging that succeeds.
* `base_ne_stem_of_link` — the base name does not always belong to the entry.
-/

namespace LambdaDeploy

namespace FileSystem

variable {zip : ZipLibrary} {fs filled : FileSystem} {archive executable : Bytes} {name : String}
  {content : ByteArray} {settings : Deployment}

/-- An archive that was filled where nothing stood is what the library has finished. -/
theorem archive_of_fill (hvacant : fs.Vacant archive)
    (h : fill zip fs archive name (.ok content) = (.ok (), filled)) :
    ∃ found data, filled.entryPlace? archive = some found ∧
      filled.get? found = some (.file data) ∧
      zip.finish name executableOptions content = .ok data := by
  rcases fill_cases hvacant zip name (.ok content) with
    ⟨_, hfill⟩ | ⟨found, hfound, -, ⟨_, _, hfill⟩ | ⟨data, hdata, hfill⟩⟩
  · cases hfill.symm.trans h
  · cases hfill.symm.trans h
  · cases hfill.symm.trans h
    have hne := ne_nil_of_entryPlace? hfound
    refine ⟨found, data, entryPlace?_within (within_put hne (hvacant.empty found hfound)) hfound,
      by rw [get?_put hne, if_pos rfl], ?_⟩
    obtain ⟨_, -, hdata⟩ := exists_of_bind_eq_ok hdata
    obtain ⟨_, hread, hdata⟩ := exists_of_bind_eq_ok hdata
    cases hread
    obtain ⟨_, -, hdata⟩ := exists_of_bind_eq_ok hdata
    cases hfinish : zip.finish name executableOptions content with
    | ok written =>
      rw [hfinish] at hdata
      exact congrArg _ (Except.ok.inj hdata)
    | error reason =>
      rw [hfinish] at hdata
      cases hdata

/-- **The archive that replaces another one** is what the library makes of the executable, under
its own name. -/
theorem archive_of_replaceArchive {after : FileSystem}
    (h : fs.replaceArchive zip settings executable = (.ok archive, after)) :
    ∃ place name content found data, fs.canonicalize executable = .ok place ∧
      entryName? place = some name ∧ archive = settings.archivePath place ∧
      after.entryPlace? archive = some found ∧ after.get? found = some (.file data) ∧
      zip.finish name executableOptions content = .ok data := by
  rcases replaceArchive_cases zip settings executable fs with
    ⟨_, hrun⟩ | ⟨_, _, _, -, -, hrun⟩ | ⟨_, _, _, _, _, -, -, -, -, hrun⟩ |
      ⟨place, name, cleared, content, filled, hplace, hname, hclear, -, hfill, hrun⟩
  · cases hrun.symm.trans h
  · cases hrun.symm.trans h
  · cases hrun.symm.trans h
  · cases hrun.symm.trans h
    obtain ⟨found, data, hfound, hdata, hfinish⟩ := archive_of_fill (vacant_of_clear hclear) hfill
    exact ⟨place, name, content, found, data, hplace, hname, rfl, hfound, hdata, hfinish⟩

end FileSystem

/-- An output without a limit takes every text whole. -/
theorem Sink.taken_write {sink : Sink} (h : sink.room = none) (text : String) :
    (sink.write text).2.taken = sink.taken ++ text.toUTF8.toList := by
  obtain ⟨taken, room⟩ := sink
  cases h
  rfl

variable (zip : ZipLibrary) (settings : Deployment) (dispatcher : Dispatcher)
  (executable : Bytes) (program : Program) {handlers : List String} (machine : Machine)

/-- Packaging that succeeds has replaced the archive, and has shown the commands last. -/
theorem exists_of_package (hhandlers : handlers ≠ []) {archive : Bytes} {after : Machine}
    (run : (settings.package zip dispatcher executable program handlers :
      ExceptT BuildError (StateM Machine) (Option Bytes)).run machine =
        (.ok (some archive), after)) :
    ∃ last, Path.fileName? executable = some last ∧
      machine.files.replaceArchive zip settings executable = (.ok archive, after.files) ∧
      after.output = (machine.output.write
        (String.join (program.summary dispatcher handlers) ++
          String.join (settings.instructions archive.display (Path.stemOf last).display))).2 := by
  rw [run_package_eq, Deployment.outcome, if_neg hhandlers] at run
  dsimp only at run
  rcases hreplace : machine.files.replaceArchive zip settings executable with
    ⟨e | written, files⟩
  · rw [hreplace] at run
    cases run
  · rw [hreplace] at run
    dsimp only at run
    cases hname : Path.fileName? executable with
    | none =>
      rw [artifactBaseName, Path.stem?, hname] at run
      cases run
    | some last =>
      rw [artifactBaseName, Path.stem?, hname] at run
      cases run
      exact ⟨last, rfl, rfl, rfl⟩

/-- **The base name and the entry's name.**  After packaging that succeeds, the archive has one
entry with the last name of the place to which the path of the executable leads, and the commands
have the stem of the last name of the path itself.  That name is looked up in the directory to
which the names before it lead.  If it is the name of a link there, the path goes on to where the
link leads, and nothing ties the two names together; else they are the same. -/
theorem base_of_package (hhandlers : handlers ≠ []) (unlimited : machine.output.room = none)
    (hfaithful : zip.Faithful) {archive : Bytes} {after : Machine}
    (run : (settings.package zip dispatcher executable program handlers :
      ExceptT BuildError (StateM Machine) (Option Bytes)).run machine =
        (.ok (some archive), after)) :
    ∃ place name content found data last front still directory,
      machine.files.canonicalize executable = .ok place ∧
      place.getLast? = some (.ofText name) ∧
      after.files.entryPlace? archive = some found ∧
      after.files.get? found = some (.file data) ∧
      zip.entries? data = some [⟨name, .deflated, 0o100755, content⟩] ∧
      after.output.taken = machine.output.taken ++
        (String.join (program.summary dispatcher handlers) ++
          String.join (settings.instructions archive.display
            (Path.stemOf last).display)).toUTF8.toList ∧
      Path.fileName? executable = some last ∧
      Path.steps executable = front ++ last :: still ∧
      (∀ name ∈ still, name = Path.self ∨ name = []) ∧
      machine.files.canonicalFrom FileSystem.linkLimit
        (FileSystem.origin machine.files.workingDirectory executable) front = .ok directory ∧
      ((∃ target links, machine.files.get? (directory ++ [last]) = some (.link target) ∧
          machine.files.canonicalFrom links (FileSystem.origin directory target)
            (Path.steps target ++ still) = .ok place) ∨
        (∀ target, machine.files.get? (directory ++ [last]) ≠ some (.link target)) ∧
          .ofText name = last) := by
  obtain ⟨last, hlast, hreplace, houtput⟩ :=
    exists_of_package zip settings dispatcher executable program machine hhandlers run
  obtain ⟨place, name, content, found, data, hplace, hname, -, hfound, hdata, hfinish⟩ :=
    FileSystem.archive_of_replaceArchive hreplace
  obtain ⟨front, still, directory, hsteps, hstill, hfront, harrives⟩ :=
    FileSystem.arrival_of_fileName? hplace hlast
  obtain ⟨bytes, hbytes, hname⟩ := Option.bind_eq_some_iff.1 hname
  obtain rfl := Bytes.ofText_of_text? hname
  refine ⟨place, name, content, found, data, last, front, still, directory, hplace, hbytes, hfound,
    hdata, hfaithful _ _ _ _ hfinish, ?_, hlast, hsteps, hstill, hfront, ?_⟩
  · rw [houtput, Sink.taken_write unlimited]
  · rcases harrives with hlink | ⟨rfl, hsolid⟩
    · exact .inl hlink
    · rw [List.getLast?_concat] at hbytes
      exact .inr ⟨hsolid, (Option.some.inj hbytes).symm⟩

/-! ## A link to an executable -/

/-- A machine where `app` is a link to the executable `build/real.bin`. -/
def Machine.aliased : Machine where
  files :=
    { entries :=
        [([.ofText "app"], .link (.ofText "build/real.bin")), ([.ofText "build"], .directory),
          ([.ofText "build", .ofText "real.bin"], .file "hello".toUTF8)]
      workingDirectory := [] }

/-- The path of the archive beside this executable. -/
def Machine.aliasedArchive : Bytes := .ofText "/build/aws-ballerina-lambda-functions.zip"

theorem canonicalize_aliased :
    Machine.aliased.files.canonicalize (.ofText "app") =
      .ok [.ofText "build", .ofText "real.bin"] :=
  eq_ok_of_toOption (by decide)

theorem fileName?_aliased : Path.fileName? (.ofText "app") = some (.ofText "app") := by
  decide

/-- Packaging through the link succeeds. -/
theorem exists_package_aliased :
    ∃ after, (({} : Deployment).package Archive.library {} (.ofText "app")
        (.empty ⟨"acme", "shop", "0.0.0"⟩) ["place"] :
          ExceptT BuildError (StateM Machine) (Option Bytes)).run .aliased =
        (.ok (some Machine.aliasedArchive), after) := by
  have hreplace : (Machine.aliased.files.replaceArchive Archive.library {} (.ofText "app")).1 =
      .ok Machine.aliasedArchive := eq_ok_of_toOption (by decide)
  have hbase : artifactBaseName (.ofText "app") = .ok "app" :=
    eq_ok_of_toOption (by decide)
  have hfirst := fst_run_package Archive.library {} {} (.ofText "app")
    (.empty ⟨"acme", "shop", "0.0.0"⟩) .aliased (fun _ _ => rfl) (List.cons_ne_nil "place" [])
  rw [hreplace, hbase] at hfirst
  exact ⟨_, Prod.fst_eq_iff.1 hfirst⟩

/-- The entry has the name of the executable, and the commands have that of the link. -/
theorem base_of_package_sample :
    Archive.library.Faithful ∧ ∃ after found data content shown,
      (({} : Deployment).package Archive.library {} (.ofText "app")
        (.empty ⟨"acme", "shop", "0.0.0"⟩) ["place"] :
          ExceptT BuildError (StateM Machine) (Option Bytes)).run .aliased =
        (.ok (some Machine.aliasedArchive), after) ∧
      after.files.get? found = some (.file data) ∧
      Archive.library.entries? data = some [⟨"real.bin", .deflated, 0o100755, content⟩] ∧
      after.output.taken = (shown ++ String.join (({} : Deployment).instructions
        "/build/aws-ballerina-lambda-functions.zip" "app")).toUTF8.toList := by
  obtain ⟨after, hrun⟩ := exists_package_aliased
  obtain ⟨place, name, content, found, data, last, -, -, -, hplace, hname, -, hdata, hentries,
    houtput, hlast, -⟩ := base_of_package Archive.library {} {} (.ofText "app")
      (.empty ⟨"acme", "shop", "0.0.0"⟩) .aliased (List.cons_ne_nil "place" []) rfl
      Archive.faithful_library hrun
  obtain rfl : [.ofText "build", .ofText "real.bin"] = place :=
    Except.ok.inj (canonicalize_aliased.symm.trans hplace)
  have hbytes : Bytes.ofText "real.bin" = .ofText name := Option.some.inj hname
  have htext := congrArg Bytes.text? hbytes
  rw [Bytes.text?_ofText, Bytes.text?_ofText] at htext
  obtain rfl : "real.bin" = name := Option.some.inj htext
  obtain rfl : .ofText "app" = last := Option.some.inj (fileName?_aliased.symm.trans hlast)
  have hstem : (Path.stemOf (.ofText "app")).display = "app" := by decide
  rw [hstem, Machine.aliasedArchive, Bytes.display_ofText] at houtput
  exact ⟨Archive.faithful_library, after, found, data, content, _, hrun, hdata, hentries, houtput⟩

/-- A text that has another one in it, between two fixed ones. -/
def Surrounds (text : String → String) : Prop :=
  ∃ before behind, ∀ inner, text inner = before ++ inner ++ behind

theorem Surrounds.concat {text : String → String} (h : Surrounds text) (more : String) :
    Surrounds fun inner => text inner ++ more := by
  obtain ⟨before, behind, htext⟩ := h
  refine ⟨before, behind ++ more, fun inner => ?_⟩
  dsimp only
  rw [htext, String.append_assoc]

theorem Surrounds.cons {text : String → String} (h : Surrounds text) (more : String) :
    Surrounds fun inner => more ++ text inner := by
  obtain ⟨before, behind, htext⟩ := h
  refine ⟨more ++ before, behind, fun inner => ?_⟩
  dsimp only
  rw [htext, String.append_assoc, String.append_assoc, String.append_assoc]

/-- The base name stands in the middle of the commands. -/
theorem surrounds_instructions (settings : Deployment) (archive : String) :
    Surrounds fun base => String.join (settings.instructions archive base) := by
  have hcommand : Surrounds (settings.createCommand archive) := by
    unfold Deployment.createCommand
    refine .concat (.concat (.concat (.concat (.concat (.concat (.concat ?_ _) _) _) _) _) _) _
    exact .concat ⟨_, "", fun inner => String.append_empty.symm⟩ _
  have hlines : ∀ base, String.join (settings.instructions archive base) = _ := fun base => by
    rw [Deployment.instructions, String.join_cons, String.join_cons]
  simp only [hlines]
  exact .cons (.concat (.concat (.cons hcommand _) _) _) _

/-- The base name in the commands does not always belong to the entry of the archive. -/
theorem base_ne_stem_of_link :
    ¬ ∀ (zip : ZipLibrary) (settings : Deployment) (dispatcher : Dispatcher) (executable : Bytes)
        (program : Program) (handlers : List String) (machine : Machine) (archive : Bytes)
        (after : Machine), zip.Faithful → handlers ≠ [] → machine.output.room = none →
        (settings.package zip dispatcher executable program handlers :
          ExceptT BuildError (StateM Machine) (Option Bytes)).run machine =
            (.ok (some archive), after) →
        ∀ found data entry, after.files.entryPlace? archive = some found →
          after.files.get? found = some (.file data) → zip.entries? data = some [entry] →
            ∃ shown, after.output.taken = machine.output.taken ++ (shown ++
              String.join (settings.instructions archive.display
                (Path.stemOf (.ofText entry.name)).display)).toUTF8.toList := by
  intro hclaim
  obtain ⟨after, hrun⟩ := exists_package_aliased
  obtain ⟨last, hlast, hreplace, houtput⟩ := exists_of_package Archive.library {} {}
    (.ofText "app") (.empty ⟨"acme", "shop", "0.0.0"⟩) .aliased (List.cons_ne_nil "place" []) hrun
  obtain ⟨place, name, content, found, data, hplace, hname, -, hfound, hdata, hfinish⟩ :=
    FileSystem.archive_of_replaceArchive hreplace
  obtain rfl : [.ofText "build", .ofText "real.bin"] = place :=
    Except.ok.inj (canonicalize_aliased.symm.trans hplace)
  obtain rfl : "real.bin" = name := Option.some.inj hname
  obtain rfl : .ofText "app" = last := Option.some.inj (fileName?_aliased.symm.trans hlast)
  obtain ⟨shown, hshown⟩ := hclaim Archive.library {} {} (.ofText "app")
    (.empty ⟨"acme", "shop", "0.0.0"⟩) ["place"] .aliased _ after Archive.faithful_library
    (List.cons_ne_nil "place" []) rfl hrun found data _ hfound hdata
    (Archive.faithful_library _ _ _ _ hfinish)
  rw [houtput, Sink.taken_write rfl] at hshown
  replace hshown := List.append_cancel_left hshown
  obtain ⟨before, behind, hcommands⟩ := surrounds_instructions {} Machine.aliasedArchive.display
  dsimp only at hcommands
  have hentry : (executableOptions.entry "real.bin" content).name = "real.bin" := rfl
  rw [hentry, show (Path.stemOf (.ofText "app")).display = "app" by decide,
    show (Path.stemOf (.ofText "real.bin")).display = "real" by decide,
    hcommands, hcommands] at hshown
  simp only [toList_toUTF8_append, ← List.append_assoc] at hshown
  replace hshown := List.append_cancel_right hshown
  -- one ends in the last letter of `app`, the other in that of `real`
  have happ : "app".toUTF8.toList = [97, 112] ++ [112] := by decide +kernel
  have hreal : "real".toUTF8.toList = [114, 101, 97] ++ [108] := by decide +kernel
  have hletters := congrArg List.getLast? hshown
  rw [happ, hreal, ← List.append_assoc, ← List.append_assoc, List.getLast?_concat,
    List.getLast?_concat] at hletters
  exact absurd hletters (by decide)

end LambdaDeploy
