import LambdaDeploy.Proofs.FileSystem.Naming
import LambdaDeploy.Proofs.FileSystem.Standing

/-!
# Direct paths

The path made of the names of a place that stands by itself goes there without a detour.  So what
the system does at such a path is seen from the entry at the place.

* `Walk.along`, `Walk.short` — walking from the root to a standing place.
* `openRead_ofNames_iff` — what can be read at such a path.
* `Creatable` — a directory in which a file of some name can be created.
* `Creatable.entryPlace?_eq`, `Creatable.write_eq` — that name is the entry that is meant, and
  the file is written there.
-/

namespace LambdaDeploy.FileSystem

variable {fs other : FileSystem} {aim : Aim} {links : Nat} {name : Bytes}
  {here place directory names rest : List Bytes} {content : ByteArray}

/-! ## Walking to a standing place -/

/-- What can be walked from a standing directory can be walked from the root, along the names of
the directory first. -/
theorem Walk.along (hhere : fs.Standing here) (hdirectory : fs.get? here = some .directory)
    (hshort : ∀ name ∈ here, name.length ≤ nameLimit)
    (hbare : ¬ (aim = .writing ∧ rest = [[]])) (h : Walk fs aim links here rest place) :
    Walk fs aim links [] (here ++ rest) place := by
  induction hhere generalizing rest with
  | root => exact h
  | @entry front name _ hfront hsound ih =>
    rw [List.append_assoc]
    have hname : name.length ≤ nameLimit := hshort name (by simp)
    have hnamed : ¬ (aim = .writing ∧ [name] ++ rest = [[]]) := by
      simp [hsound.ne_empty]
    exact ih hfront (fun other hother => hshort other (List.mem_append_left _ hother)) hnamed
      (.enter hfront hsound.toPlain hname hbare hdirectory (by simp) h)

/-- Only short names can be walked. -/
theorem Walk.short (hhere : fs.Standing here) (hdirectory : fs.get? here = some .directory)
    (h : Walk fs .existing links [] (here ++ rest) place) :
    ∀ name ∈ here, name.length ≤ nameLimit := by
  induction hhere generalizing rest with
  | root => simp
  | @entry front name hstanding hfront hsound ih =>
    rw [List.append_assoc] at h
    have hname : name.length ≤ nameLimit := by
      cases h.of_standing hstanding hfront with
      | stay _ hstill => exact absurd hstill (by simp [hsound.ne_self, hsound.ne_empty])
      | leave => exact absurd rfl hsound.ne_parent
      | create _ _ hshort => exact hshort
      | follow _ _ hshort => exact hshort
      | enter _ _ hshort => exact hshort
    intro other hother
    rcases List.mem_append.1 hother with hother | hother
    · exact ih hfront h other hother
    · exact List.mem_singleton.1 hother ▸ hname

theorem origin_ofNames (here names : List Bytes) :
    origin here (Path.ofNames names) = [] := by
  simp [origin, Path.isAbsolute, Path.ofNames]

theorem steps_ofNames (hne : place ≠ []) (hsound : ∀ name ∈ place, Sound name) :
    Path.steps (Path.ofNames place) = place := by
  simp [Path.steps, names_ofNames hsound, endsInSlash_ofNames hne hsound]

/-- The path of a standing place walks along its names. -/
theorem walkPath_ofNames_iff {found : List Bytes} (hplace : fs.Standing place) (hne : place ≠ []) :
    fs.walkPath aim (Path.ofNames place) = .ok found ↔
      checkPath (Path.ofNames place) = .ok () ∧ Walk fs aim linkLimit [] place found := by
  rw [← walk_eq_ok_iff]
  constructor
  · intro h
    obtain ⟨⟨⟩, hcheck, hwalk⟩ := exists_of_bind_eq_ok h
    rw [origin_ofNames, steps_ofNames hne hplace.sound] at hwalk
    exact ⟨hcheck, hwalk⟩
  · rintro ⟨hcheck, hwalk⟩
    rw [walkPath, hcheck, origin_ofNames, steps_ofNames hne hplace.sound]
    exact hwalk

/-- If no link stands at a standing place, its path leads to it and to nothing else. -/
theorem Walk.eq_of_standing {found : List Bytes} (hplace : fs.Standing place)
    (hsolid : ∀ target, fs.get? place ≠ some (.link target))
    (h : Walk fs .existing links [] place found) :
    found = place ∧ (∀ name ∈ place, name.length ≤ nameLimit) ∧
      ∃ entry, fs.get? place = some entry := by
  cases hplace with
  | root =>
    cases h
    exact ⟨rfl, by simp, .directory, rfl⟩
  | @entry front name hstanding hfront hsound =>
    have hnames := h.short hstanding hfront
    cases h.of_standing hstanding hfront with
    | stay _ hstill => exact absurd hstill (by simp [hsound.ne_self, hsound.ne_empty])
    | leave => exact absurd rfl hsound.ne_parent
    | create _ _ _ _ hwriting => cases hwriting
    | follow _ _ _ _ hlink => exact absurd hlink (hsolid _)
    | enter _ _ hshort _ hfound _ honward =>
      cases honward
      refine ⟨rfl, fun other hother => ?_, _, hfound⟩
      rcases List.mem_append.1 hother with hother | hother
      · exact hnames other hother
      · exact List.mem_singleton.1 hother ▸ hshort

/-! ## Reading -/

/-- What opening the path of a standing place gives, if no link stands there. -/
theorem openRead_ofNames {input : Except FileError ByteArray} (hplace : fs.Standing place)
    (hne : place ≠ []) (hsolid : ∀ target, fs.get? place ≠ some (.link target))
    (h : fs.openRead (Path.ofNames place) = .ok input) :
    checkPath (Path.ofNames place) = .ok () ∧
      (∀ name ∈ place, name.length ≤ nameLimit) ∧ fs.refuses .read place = none ∧
      (fs.get? place = some .directory ∧ input = .error .isADirectory ∨
        ∃ content, fs.get? place = some (.file content) ∧ input = .ok content) := by
  obtain ⟨found, hresolve, hread⟩ := exists_of_bind_eq_ok h
  obtain ⟨hcheck, hwalk⟩ := (walkPath_ofNames_iff hplace hne).1 hresolve
  obtain ⟨rfl, hshort, entry, hentry⟩ := hwalk.eq_of_standing hplace hsolid
  rw [hentry] at hread
  obtain ⟨⟨⟩, hpermit, hread⟩ := exists_of_bind_eq_ok hread
  refine ⟨hcheck, hshort, permit_eq_ok_iff.1 hpermit, ?_⟩
  cases entry with
  | directory =>
    cases hread
    exact .inl ⟨hentry, rfl⟩
  | file content =>
    cases hread
    exact .inr ⟨content, hentry, rfl⟩
  | link target => exact absurd hentry (hsolid target)

/-- **A file at a standing place can be read at its path** if the system takes the path and its
names and lets it be read. -/
theorem openRead_ofNames_iff (hplace : fs.Standing place) (hne : place ≠ [])
    (hsolid : ∀ target, fs.get? place ≠ some (.link target)) :
    fs.openRead (Path.ofNames place) = .ok (.ok content) ↔
      checkPath (Path.ofNames place) = .ok () ∧
        (∀ name ∈ place, name.length ≤ nameLimit) ∧ fs.refuses .read place = none ∧
        fs.get? place = some (.file content) := by
  constructor
  · intro h
    obtain ⟨hcheck, hshort, hread, ⟨-, hinput⟩ | ⟨_, hfile, hinput⟩⟩ :=
      openRead_ofNames hplace hne hsolid h
    · cases hinput
    · cases hinput
      exact ⟨hcheck, hshort, hread, hfile⟩
  · rintro ⟨hcheck, hshort, hread, hfile⟩
    have hwalk : Walk fs .existing linkLimit [] place place := by
      cases hplace with
      | root => exact absurd rfl hne
      | @entry front name hstanding hfront hsound =>
        refine .along hstanding hfront
          (fun other hother => hshort other (List.mem_append_left _ hother)) (by simp) ?_
        exact .enter hfront hsound.toPlain (hshort name (by simp)) (by simp) hfile (by simp)
          (.stop _ _)
    rw [openRead, resolve, (walkPath_ofNames_iff hplace hne).2 ⟨hcheck, hwalk⟩]
    simp only [bind, Except.bind, hfile, permit_eq_ok_iff.2 hread]
    rfl

/-! ## Creating -/

/-- A file of this name can be created in this directory and be removed again: the system takes
the name and the path, and refuses neither. -/
structure Creatable (fs : FileSystem) (directory : List Bytes) (name : Bytes) : Prop where
  standing : fs.Standing directory
  isDirectory : fs.get? directory = some .directory
  sound : Sound name
  short : ∀ other ∈ directory ++ [name], other.length ≤ nameLimit
  taken : checkPath (Path.ofNames (directory ++ [name])) = .ok ()
  writable : fs.refuses .write (directory ++ [name]) = none
  removable : fs.refuses .remove (directory ++ [name]) = none

namespace Creatable

theorem keep (hkeeps : fs.KeepsDirectories other) (hrefuses : other.refuses = fs.refuses)
    (h : fs.Creatable directory name) : other.Creatable directory name where
  standing := h.standing.keep hkeeps
  isDirectory := hkeeps _ h.isDirectory
  sound := h.sound
  short := h.short
  taken := h.taken
  writable := hrefuses ▸ h.writable
  removable := hrefuses ▸ h.removable

theorem standing_place (h : fs.Creatable directory name) : fs.Standing (directory ++ [name]) :=
  h.standing.entry h.isDirectory h.sound

theorem short_name (h : fs.Creatable directory name) : name.length ≤ nameLimit :=
  h.short name (by simp)

theorem walk (h : fs.Creatable directory name) (hbare : ¬ (aim = .writing ∧ rest = [[]]))
    (hwalk : Walk fs aim links directory rest place) :
    Walk fs aim links [] (directory ++ rest) place :=
  .along h.standing h.isDirectory
    (fun other hother => h.short other (List.mem_append_left _ hother)) hbare hwalk

theorem endsInSlash_eq (h : fs.Creatable directory name) :
    Path.endsInSlash (Path.ofNames (directory ++ [name])) = false :=
  endsInSlash_ofNames (by simp) h.standing_place.sound

/-- The path names the entry of this name in the directory. -/
theorem entryPlace?_eq (h : fs.Creatable directory name) :
    fs.entryPlace? (Path.ofNames (directory ++ [name])) = some (directory ++ [name]) := by
  refine entryPlace?_eq_some_iff.2 ⟨directory, name, ?_, rfl⟩
  refine locate_eq_ok_iff.2 ⟨h.taken, .inr ⟨directory, name, directory, ?_, ?_, ?_⟩⟩
  · exact names_ofNames h.standing_place.sound
  · rw [origin_ofNames]
    exact h.walk (by simp) (.stay h.isDirectory (.inr rfl) (.stop _ _))
  · exact .inr ⟨h.sound.toPlain, h.short_name, rfl⟩

/-- A file is written at this entry if nothing or a file stands there. -/
theorem write_eq (h : fs.Creatable directory name)
    (hfree : fs.get? (directory ++ [name]) = none ∨
      ∃ old, fs.get? (directory ++ [name]) = some (.file old)) (content : ByteArray) :
    fs.write (Path.ofNames (directory ++ [name])) content =
      .ok (fs.put (directory ++ [name]) (.file content)) := by
  have hbare : ¬ (Aim.writing = .writing ∧ [name] = [[]]) := by simp [h.sound.ne_empty]
  have hwalk : Walk fs .writing linkLimit [] (directory ++ [name]) (directory ++ [name]) := by
    refine h.walk hbare ?_
    rcases hfree with hnone | ⟨old, hold⟩
    · exact .create h.isDirectory h.sound.toPlain h.short_name hnone rfl
    · exact .enter h.isDirectory h.sound.toPlain h.short_name (by simp) hold (by simp) (.stop _ _)
  have hplace := (walkPath_ofNames_iff h.standing_place (by simp)).2 ⟨h.taken, hwalk⟩
  rw [write, writePlace, hplace]
  simp only [bind, Except.bind, permit_eq_ok_iff.2 h.writable]
  rcases hfree with hnone | ⟨old, hold⟩
  · rw [hnone]
    rfl
  · rw [hold]
    rfl

/-- Removing takes this entry away if a file or a link stands there, and finds nothing if nothing
does. -/
theorem unlink_eq (h : fs.Creatable directory name)
    (hfree : fs.get? (directory ++ [name]) ≠ some .directory) :
    fs.unlink (Path.ofNames (directory ++ [name])) =
      if fs.get? (directory ++ [name]) = none then .error .notFound
      else .ok (fs.erase (directory ++ [name])) := by
  cases hentry : fs.get? (directory ++ [name]) with
  | none =>
    obtain ⟨_, _, hlocate, heq⟩ := entryPlace?_eq_some_iff.1 h.entryPlace?_eq
    rw [unlink, hlocate]
    simp only [bind, Except.bind, ← heq, hentry]
    rfl
  | some entry =>
    rw [if_neg (by simp)]
    refine unlink_eq_ok_iff.2 ⟨_, entry, h.entryPlace?_eq, hentry, ?_, h.endsInSlash_eq,
      h.removable, rfl⟩
    rintro rfl
    exact hfree hentry

end Creatable

end LambdaDeploy.FileSystem
