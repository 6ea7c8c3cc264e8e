import LambdaDeploy.Proofs.Archive.ReadBack
import LambdaDeploy.Proofs.Deployment.Failing

/-!
# Packaging that succeeds

An executable that can be read, beside a place where an archive can be created, is packaged: the
archive stands there then, and everything else is as it was.  Packaging again changes nothing.

It takes more than a plain name for the archive and a directory that can be written to.  The
name of the executable has to be a text, since archives name their entries by texts, and the
system has to take the name and the path of the archive, which have limits.

* `Placed` — an executable with room for an archive beside it.
* `Deliverable` — what packaging needs to find.
* `archivePath_eq` — where the archive goes.
* `Deliverable.replaceArchive_eq` — **the one change that packaging makes.**
* `Deliverable.keep`, `Deliverable.put_archive` — packaging finds the same again, where nothing on
  its way has changed, and so after this change.
* `package_delivers` — both together, for the whole of packaging.
* `package_refuses_placed_executables` — where `Placed` alone is not enough.
-/

namespace LambdaDeploy

/-- What a library makes of an entry that it accepts. -/
theorem ZipLibrary.Accepts.archive_eq {zip : ZipLibrary} {name : String} {content : ByteArray}
    (h : zip.Accepts name executableOptions content) :
    ∃ data, zip.finish name executableOptions content = .ok data ∧
      ∀ path, zip.archive path name (.ok content) = .ok data := by
  obtain ⟨data, hdata⟩ := h.finishes
  refine ⟨data, hdata, fun path => ?_⟩
  rw [ZipLibrary.archive, h.starts]
  show ((zip.copy name executableOptions content).mapError (BuildError.packaging path) >>=
    fun _ => (zip.finish name executableOptions content).mapError (BuildError.archive path)) =
      .ok data
  rw [h.copies, hdata]
  rfl

namespace FileSystem

variable {zip : ZipLibrary} {fs cleared : FileSystem} {directory place : List Bytes}
  {executable name path : Bytes} {entry : String} {settings : Deployment}
  {content data : ByteArray}

/-! ## What packaging needs to find -/

/-- The path of an executable leads, through any links, to a file that can be read, and beside
it files of the name of the archive may be written and removed. -/
structure Placed (fs : FileSystem) (settings : Deployment) (executable : Bytes)
    (directory : List Bytes) (name : Bytes) (content : ByteArray) : Prop where
  grounded : fs.Grounded
  /-- The file has this name in this directory. -/
  leads : fs.canonicalize executable = .ok (directory ++ [name])
  readable : fs.openRead (Path.ofNames (directory ++ [name])) = .ok (.ok content)
  /-- The name of the archive is a plain one. -/
  plain : Sound (.ofText settings.archiveName)
  writable : fs.refuses .write (directory ++ [.ofText settings.archiveName]) = none
  removable : fs.refuses .remove (directory ++ [.ofText settings.archiveName]) = none
  /-- The archive does not take the name of the executable. -/
  apart : name ≠ .ofText settings.archiveName
  /-- Nothing stands at the place of the archive, or a file or a link. -/
  free : fs.get? (directory ++ [.ofText settings.archiveName]) ≠ some .directory
  /-- The way to the executable does not go through the place of the archive. -/
  clear : directory ++ [.ofText settings.archiveName] ∉ fs.trail executable

/-- Such an executable, whose name is a text, with an archive whose name and path keep to the
limits of the system. -/
structure Deliverable (fs : FileSystem) (settings : Deployment) (executable : Bytes)
    (directory : List Bytes) (entry : String) (content : ByteArray) : Prop
    extends Placed fs settings executable directory (.ofText entry) content where
  short : (Bytes.ofText settings.archiveName).length ≤ nameLimit
  taken : checkPath (Path.ofNames (directory ++ [.ofText settings.archiveName])) = .ok ()

namespace Placed

theorem standing (h : fs.Placed settings executable directory name content) :
    fs.Standing (directory ++ [name]) :=
  standing_of_canonicalize h.grounded.standing h.leads

theorem solid (h : fs.Placed settings executable directory name content) (target : Bytes) :
    fs.get? (directory ++ [name]) ≠ some (.link target) := by
  obtain ⟨entry, hentry, hsolid⟩ := h.grounded.solid_of_canonicalize h.leads
  rw [hentry]
  exact fun hlink => hsolid target (Option.some.inj hlink)

/-- The executable can still be read where it is the same and the directories are there. -/
theorem openRead_keep {other : FileSystem}
    (h : fs.Placed settings executable directory name content)
    (hkeeps : fs.KeepsDirectories other) (hrefuses : other.refuses = fs.refuses)
    (hsame : other.get? (directory ++ [name]) = fs.get? (directory ++ [name])) :
    other.openRead (Path.ofNames (directory ++ [name])) = .ok (.ok content) := by
  have hread := (openRead_ofNames_iff h.standing (by simp) h.solid).1 h.readable
  rw [← hsame, ← hrefuses] at hread
  exact (openRead_ofNames_iff (h.standing.keep hkeeps) (by simp) (hsame ▸ h.solid)).2 hread

end Placed

/-- The archive can be created beside the executable. -/
theorem Deliverable.creatable
    (h : fs.Deliverable settings executable directory entry content) :
    fs.Creatable directory (.ofText settings.archiveName) where
  standing := by simpa using h.standing.dropLast
  isDirectory := by simpa using h.standing.directory_dropLast
  sound := h.plain
  short := by
    obtain ⟨-, hshort, -⟩ := (openRead_ofNames_iff h.standing (by simp) h.solid).1 h.readable
    intro other hother
    rcases List.mem_append.1 hother with hother | hother
    · exact hshort other (List.mem_append_left _ hother)
    · exact List.mem_singleton.1 hother ▸ h.short
  taken := h.taken
  writable := h.writable
  removable := h.removable

/-! ## The place of the archive -/

/-- A plain name taken relative to a directory is an entry of the directory. -/
theorem join_ofNames (hdirectory : ∀ other ∈ directory, Sound other) (hname : Sound name) :
    Path.join (Path.ofNames directory) name = Path.ofNames (directory ++ [name]) := by
  have hrelative : Path.isAbsolute name = false := by
    rw [Path.isAbsolute, beq_eq_false_iff_ne]
    exact fun hslash => hname.noSlash (List.mem_of_mem_head? hslash)
  rw [Path.join, hrelative]
  simp only [Bool.false_eq_true, if_false]
  by_cases hne : directory = []
  · subst hne
    rw [if_pos (.inr rfl)]
    simp [Path.ofNames]
  · rw [endsInSlash_ofNames hne hdirectory, if_neg (by simp [Path.ofNames]),
      ofNames_concat hne, List.append_assoc, List.singleton_append]

theorem archivePath_eq (hdirectory : ∀ other ∈ directory, Sound other)
    (hname : Sound (.ofText settings.archiveName)) (name : Bytes) :
    settings.archivePath (directory ++ [name]) =
      Path.ofNames (directory ++ [.ofText settings.archiveName]) := by
  rw [Deployment.archivePath, List.dropLast_concat, join_ofNames hdirectory hname]

/-! ## The change -/

/-- What was removed does not matter for what is put in its place. -/
theorem put_erase (fs : FileSystem) (place : List Bytes) (entry : Entry) :
    (fs.erase place).put place entry = fs.put place entry := by
  simp [put, erase, List.filter_filter]

/-- Clearing a place where a file can be created leaves nothing there. -/
theorem Creatable.clear_eq (h : fs.Creatable directory name)
    (hfree : fs.get? (directory ++ [name]) ≠ some .directory) :
    ∃ cleared, fs.clear (Path.ofNames (directory ++ [name])) = .ok cleared ∧
      cleared.get? (directory ++ [name]) = none ∧ cleared.refuses = fs.refuses ∧
      ∀ entry, cleared.put (directory ++ [name]) entry = fs.put (directory ++ [name]) entry := by
  rw [clear, h.unlink_eq hfree]
  by_cases hnone : fs.get? (directory ++ [name]) = none
  · rw [if_pos hnone]
    exact ⟨fs, rfl, hnone, rfl, fun _ => rfl⟩
  · rw [if_neg hnone]
    refine ⟨fs.erase (directory ++ [name]), rfl, ?_, rfl, put_erase fs _⟩
    rw [get?_erase (by simp), if_pos rfl]

/-- An archive is created where nothing stands. -/
theorem Creatable.fill_eq (h : fs.Creatable directory name)
    (hnone : fs.get? (directory ++ [name]) = none)
    (hdata : zip.archive (Path.ofNames (directory ++ [name])) entry (.ok content) = .ok data) :
    fill zip fs (Path.ofNames (directory ++ [name])) entry (.ok content) =
      (.ok (), fs.put (directory ++ [name]) (.file data)) := by
  have hkeeps : fs.KeepsDirectories (fs.put (directory ++ [name]) (.file .empty)) :=
    fun other hother => (within_put (by simp) hnone).keeps other .directory hother
  have hopened : (fs.put (directory ++ [name]) (.file .empty)).get? (directory ++ [name]) =
      some (.file .empty) := by
    rw [get?_put (by simp), if_pos rfl]
  rw [fill, h.write_eq (.inl hnone), hdata]
  dsimp only
  rw [finish, (h.keep hkeeps rfl).write_eq (.inr ⟨_, hopened⟩), put_put]

/-- **The one change that packaging makes**: at the place of the archive there is what the
library makes of the executable. -/
theorem Deliverable.replaceArchive_eq
    (h : fs.Deliverable settings executable directory entry content)
    (hdata : ∀ path, zip.archive path entry (.ok content) = .ok data) :
    fs.replaceArchive zip settings executable =
      (.ok (Path.ofNames (directory ++ [.ofText settings.archiveName])),
        fs.put (directory ++ [.ofText settings.archiveName]) (.file data)) := by
  have hname : entryName? (directory ++ [.ofText entry]) = some entry := by
    rw [entryName?, List.getLast?_concat]
    exact Bytes.text?_ofText entry
  have hpath : settings.archivePath (directory ++ [.ofText entry]) =
      Path.ofNames (directory ++ [.ofText settings.archiveName]) :=
    archivePath_eq h.creatable.standing.sound h.plain _
  obtain ⟨cleared, hclear, hnone, hrefuses, hput⟩ := h.creatable.clear_eq h.free
  have hkeeps := keepsDirectories_of_clear hclear
  have hother : fs.entryPlace? (Path.ofNames (directory ++ [.ofText settings.archiveName])) ≠
      some (directory ++ [.ofText entry]) := by
    rw [h.creatable.entryPlace?_eq]
    simpa [eq_comm] using h.apart
  have hsame : cleared.get? (directory ++ [.ofText entry]) =
      fs.get? (directory ++ [.ofText entry]) :=
    get?_of_clear hclear hother
  rw [replaceArchive, h.leads]
  simp only [hname, hpath, hclear, h.openRead_keep hkeeps hrefuses hsame]
  rw [(h.creatable.keep hkeeps hrefuses).fill_eq hnone (hdata _), hput]

/-- **Packaging finds the same again** where nothing on its way has changed. -/
theorem Deliverable.keep {other : FileSystem} (hkeeps : fs.KeepsDirectories other)
    (hstart : other.workingDirectory = fs.workingDirectory)
    (hrefuses : other.refuses = fs.refuses)
    (htrail : ∀ seen ∈ fs.trail executable, other.get? seen = fs.get? seen)
    (hexecutable : other.get? (directory ++ [.ofText entry]) =
      fs.get? (directory ++ [.ofText entry]))
    (hfree : other.get? (directory ++ [.ofText settings.archiveName]) ≠ some .directory)
    (h : fs.Deliverable settings executable directory entry content) :
    other.Deliverable settings executable directory entry content where
  grounded := ⟨hstart ▸ h.grounded.standing.keep hkeeps, hstart ▸ hkeeps _ h.grounded.directory⟩
  leads := canonicalize_congr hkeeps hstart htrail h.leads
  readable := h.openRead_keep hkeeps hrefuses hexecutable
  plain := h.plain
  writable := hrefuses ▸ h.writable
  removable := hrefuses ▸ h.removable
  apart := h.apart
  free := hfree
  clear := by
    rw [trail_congr hstart htrail]
    exact h.clear
  short := h.short
  taken := h.taken

theorem keepsDirectories_put (hne : place ≠ []) (hfree : fs.get? place ≠ some .directory)
    (entry : Entry) : fs.KeepsDirectories (fs.put place entry) := by
  intro other hother
  rw [get?_put hne, if_neg]
  · exact hother
  · rintro rfl
    exact hfree hother

/-- The way of packaging does not go through the archive, so a file there makes no difference. -/
theorem Deliverable.put_archive
    (h : fs.Deliverable settings executable directory entry content) (data : ByteArray) :
    (fs.put (directory ++ [.ofText settings.archiveName]) (.file data)).Deliverable settings
      executable directory entry content := by
  have hsame : ∀ place, place ≠ directory ++ [.ofText settings.archiveName] →
      (fs.put (directory ++ [.ofText settings.archiveName]) (.file data)).get? place =
        fs.get? place := fun place hplace => by
    rw [get?_put (by simp), if_neg hplace]
  refine h.keep (keepsDirectories_put (by simp) h.free _) rfl rfl (fun seen hseen => ?_) ?_ ?_
  · exact hsame seen (ne_of_mem_of_not_mem hseen h.clear)
  · exact hsame _ (by simpa using h.apart)
  · rw [get?_put (by simp), if_pos rfl]
    simp

end FileSystem

/-! ## The whole of packaging -/

section Outputs

variable [Terminal (StateM Machine)] {zip : ZipLibrary} {settings : Deployment}
  {executable : Bytes} {entry : String} {directory : List Bytes} {content data : ByteArray}
  {handlers : List String} {machine : Machine}

/-- Packaging gives the path of the archive, and the files are those with the archive in its
place. -/
theorem run_package_of_deliverable (hkeeps : OutputKeepsFiles) (dispatcher : Dispatcher)
    (program : Program) (hhandlers : handlers ≠ [])
    (h : machine.files.Deliverable settings executable directory entry content)
    (hdata : ∀ path, zip.archive path entry (.ok content) = .ok data) :
    ∃ after, (settings.package zip dispatcher executable program handlers :
        ExceptT BuildError (StateM Machine) (Option Bytes)).run machine =
          (.ok (some (Path.ofNames (directory ++ [.ofText settings.archiveName]))), after) ∧
      after.files = machine.files.put (directory ++ [.ofText settings.archiveName])
        (.file data) := by
  have hreplace := h.replaceArchive_eq hdata
  obtain ⟨base, hbase⟩ :=
    FileSystem.exists_base_of_replaceArchive h.grounded (congrArg Prod.fst hreplace)
  refine ⟨_, Prod.ext ?_ rfl, ?_⟩
  · rw [fst_run_package zip settings dispatcher executable program machine hkeeps hhandlers,
      hreplace, hbase]
    rfl
  · rw [files_run_package zip settings dispatcher executable program machine hkeeps hhandlers,
      hreplace]

/-- **Packaging that succeeds does this and nothing else.**  For a library that accepts the
executable and is faithful, whatever stood at the place of the archive, a file or a link or
nothing, a file stands there then that is read as an archive with the executable as its only
entry, under its own name, deflated, and with the access rights of an executable.  Nothing else
changes, what a link led to included, and packaging again gives the same archive and leaves the
same files. -/
theorem package_delivers (hkeeps : OutputKeepsFiles) (dispatcher : Dispatcher)
    (program : Program) (hhandlers : handlers ≠ []) (hfaithful : zip.Faithful)
    (haccepts : zip.Accepts entry executableOptions content)
    (h : machine.files.Deliverable settings executable directory entry content) :
    ∃ data after, (settings.package zip dispatcher executable program handlers :
        ExceptT BuildError (StateM Machine) (Option Bytes)).run machine =
          (.ok (some (Path.ofNames (directory ++ [.ofText settings.archiveName]))), after) ∧
      after.files.get? (directory ++ [.ofText settings.archiveName]) = some (.file data) ∧
      zip.entries? data = some [⟨entry, .deflated, 0o100755, content⟩] ∧
      (∀ place, place ≠ directory ++ [.ofText settings.archiveName] →
        after.files.get? place = machine.files.get? place) ∧
      after.files.workingDirectory = machine.files.workingDirectory ∧
      ∀ next : Machine, next.files = after.files →
        ∃ last, (settings.package zip dispatcher executable program handlers :
            ExceptT BuildError (StateM Machine) (Option Bytes)).run next =
              (.ok (some (Path.ofNames (directory ++ [.ofText settings.archiveName]))), last) ∧
          last.files = after.files := by
  obtain ⟨data, hfinish, hdata⟩ := haccepts.archive_eq
  obtain ⟨after, hrun, hfiles⟩ :=
    run_package_of_deliverable hkeeps dispatcher program hhandlers h hdata
  have hput : ∀ place, after.files.get? place =
      if place = directory ++ [.ofText settings.archiveName] then some (.file data)
      else machine.files.get? place := fun place => by
    rw [hfiles, FileSystem.get?_put (by simp)]
  have hother : ∀ place, place ≠ directory ++ [.ofText settings.archiveName] →
      after.files.get? place = machine.files.get? place := fun place hplace => by
    rw [hput, if_neg hplace]
  have hstart : after.files.workingDirectory = machine.files.workingDirectory := by
    rw [hfiles]
    rfl
  refine ⟨data, after, hrun, by rw [hput, if_pos rfl], hfaithful _ _ _ _ hfinish, hother, hstart,
    fun next hnext => ?_⟩
  have hagain : next.files.Deliverable settings executable directory entry content := by
    rw [hnext, hfiles]
    exact h.put_archive data
  obtain ⟨last, hlast, hlastFiles⟩ :=
    run_package_of_deliverable hkeeps dispatcher program hhandlers hagain hdata
  exact ⟨last, hlast, by rw [hlastFiles, hnext, hfiles, FileSystem.put_put]⟩

end Outputs

/-- A machine whose executable is reached through a link, beside an archive that is a link to one
of an earlier build. -/
def Machine.linked : Machine where
  files :=
    { entries :=
        [([.ofText "app"], .link (.ofText "/srv/build")), ([.ofText "srv"], .directory),
          ([.ofText "srv", .ofText "build"], .directory),
          ([.ofText "srv", .ofText "build", .ofText "app.balx"], .file "code".toUTF8),
          ([.ofText "srv", .ofText "build", .ofText "aws-ballerina-lambda-functions.zip"],
            .link (.ofText "../old.zip")),
          ([.ofText "srv", .ofText "old.zip"], .file "earlier".toUTF8)]
      workingDirectory := [] }

/-- The executable of this machine has room beside it for archives of other names. -/
theorem Machine.placed_linked {settings : Deployment}
    (hplain : FileSystem.Sound (.ofText settings.archiveName))
    (hapart : .ofText "app.balx" ≠ Bytes.ofText settings.archiveName)
    (hfree : linked.files.get? [.ofText "srv", .ofText "build", .ofText settings.archiveName] ≠
      some .directory)
    (hclear : [.ofText "srv", .ofText "build", .ofText settings.archiveName] ∉
      linked.files.trail (.ofText "app/./app.balx")) :
    linked.files.Placed settings (.ofText "app/./app.balx") [.ofText "srv", .ofText "build"]
      (.ofText "app.balx") "code".toUTF8 := by
  have hstanding : linked.files.Standing
      ([.ofText "srv", .ofText "build"] ++ [.ofText "app.balx"]) :=
    .entry (.entry (.entry .root rfl (by decide)) rfl (by decide)) rfl
      (by decide)
  have hfile : linked.files.get? ([.ofText "srv", .ofText "build"] ++ [.ofText "app.balx"]) =
      some (.file "code".toUTF8) := rfl
  exact {
    grounded := ⟨.root, rfl⟩
    leads := eq_ok_of_toOption (by decide)
    readable := (FileSystem.openRead_ofNames_iff hstanding (by simp)
      (fun target hlink => nomatch hfile.symm.trans hlink)).2
        ⟨eq_ok_of_toOption (by decide), by decide, rfl, hfile⟩
    plain := hplain
    writable := rfl
    removable := rfl
    apart := hapart
    free := hfree
    clear := hclear }

theorem package_delivers_sample :
    OutputKeepsFiles ∧ Archive.library.Faithful ∧
      Archive.library.Accepts "app.balx" executableOptions "code".toUTF8 ∧
      Machine.linked.files.Deliverable {} (.ofText "app/./app.balx")
        [.ofText "srv", .ofText "build"] "app.balx" "code".toUTF8 ∧
      ∃ data after, (({} : Deployment).package Archive.library {} (.ofText "app/./app.balx")
          (.empty ⟨"acme", "shop", "0.0.0"⟩) ["place"] :
            ExceptT BuildError (StateM Machine) (Option Bytes)).run .linked =
          (.ok (some (Path.ofNames [.ofText "srv", .ofText "build",
            .ofText "aws-ballerina-lambda-functions.zip"])), after) ∧
        after.files.get? [.ofText "srv", .ofText "build",
          .ofText "aws-ballerina-lambda-functions.zip"] = some (.file data) ∧
        Archive.library.entries? data =
          some [⟨"app.balx", .deflated, 0o100755, "code".toUTF8⟩] ∧
        after.files.get? [.ofText "srv", .ofText "old.zip"] = some (.file "earlier".toUTF8) := by
  have hkeeps : OutputKeepsFiles := fun _ _ => rfl
  have haccepts : Archive.library.Accepts "app.balx" executableOptions "code".toUTF8 :=
    Archive.accepts_library (by decide)
  have hstale : Machine.linked.files.get? [.ofText "srv", .ofText "build",
      .ofText ({} : Deployment).archiveName] = some (.link (.ofText "../old.zip")) := rfl
  have h : Machine.linked.files.Deliverable {} (.ofText "app/./app.balx")
      [.ofText "srv", .ofText "build"] "app.balx" "code".toUTF8 := {
    toPlaced := Machine.placed_linked (by decide) (by decide)
      (fun hdirectory => nomatch hstale.symm.trans hdirectory) (by decide)
    short := by decide
    taken := eq_ok_of_toOption (by decide) }
  refine ⟨hkeeps, Archive.faithful_library, haccepts, h, ?_⟩
  obtain ⟨data, after, hrun, hdata, hentries, hother, -, -⟩ := package_delivers hkeeps {}
    (.empty ⟨"acme", "shop", "0.0.0"⟩) (List.cons_ne_nil "place" []) Archive.faithful_library
    haccepts h
  exact ⟨data, after, hrun, hdata, hentries, hother _ (by decide)⟩

/-- A machine whose executable has a name that is no text. -/
def Machine.nameless : Machine where
  files := { entries := [([[0xFF]], .file "code".toUTF8)], workingDirectory := [] }

/-- An archive with a longer name than the system takes. -/
def Deployment.overlong : Deployment where
  archiveName := String.ofList (List.replicate 256 'a')

/-- Packaging fails for executables that are `Placed`, if the name of the archive is too long,
and if the name of the executable is no text.  The library has no part in this. -/
theorem package_refuses_placed_executables :
    (Archive.library.Faithful ∧
      Archive.library.Accepts "app.balx" executableOptions "code".toUTF8) ∧
    (Machine.linked.files.Placed .overlong (.ofText "app/./app.balx")
        [.ofText "srv", .ofText "build"] (.ofText "app.balx") "code".toUTF8 ∧
      ∃ e after, (Deployment.overlong.package Archive.library {} (.ofText "app/./app.balx")
        (.empty ⟨"acme", "shop", "0.0.0"⟩) ["place"] :
          ExceptT BuildError (StateM Machine) (Option Bytes)).run .linked = (.error e, after)) ∧
    Machine.nameless.files.Placed {} [0xFF] [] [0xFF] "code".toUTF8 ∧
      ∃ e after, (({} : Deployment).package Archive.library {} [0xFF]
        (.empty ⟨"acme", "shop", "0.0.0"⟩) ["place"] :
          ExceptT BuildError (StateM Machine) (Option Bytes)).run .nameless =
            (.error e, after) := by
  have habsent : Machine.linked.files.get? [.ofText "srv", .ofText "build",
      .ofText Deployment.overlong.archiveName] = none :=
    Option.isNone_iff_eq_none.1 (by decide +kernel)
  have hlong : Machine.linked.files.Placed .overlong (.ofText "app/./app.balx")
      [.ofText "srv", .ofText "build"] (.ofText "app.balx") "code".toUTF8 :=
    Machine.placed_linked (by decide +kernel) (by decide +kernel)
      (fun hdirectory => nomatch habsent.symm.trans hdirectory) (by decide +kernel)
  have hstanding : Machine.nameless.files.Standing ([] ++ [[0xFF]]) :=
    .entry .root rfl (by decide)
  have hfile : Machine.nameless.files.get? ([] ++ [[0xFF]]) = some (.file "code".toUTF8) := rfl
  have hvacant : Machine.nameless.files.get? ([] ++ [.ofText ({} : Deployment).archiveName]) =
      none := rfl
  have hnameless : Machine.nameless.files.Placed {} [0xFF] [] [0xFF] "code".toUTF8 := {
    grounded := ⟨.root, rfl⟩
    leads := eq_ok_of_toOption (by decide)
    readable := (FileSystem.openRead_ofNames_iff hstanding (by simp)
      (fun target hlink => nomatch hfile.symm.trans hlink)).2
        ⟨eq_ok_of_toOption (by decide), by decide, rfl, hfile⟩
    plain := by decide
    writable := rfl
    removable := rfl
    apart := by decide
    free := fun hdirectory => nomatch hvacant.symm.trans hdirectory
    clear := by decide }
  exact ⟨⟨Archive.faithful_library, Archive.accepts_library (by decide)⟩,
    ⟨hlong, exists_error_of_toBool (by decide +kernel)⟩, hnameless,
    exists_error_of_toBool (by decide)⟩

end LambdaDeploy
