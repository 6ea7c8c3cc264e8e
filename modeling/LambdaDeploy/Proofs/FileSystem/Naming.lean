import LambdaDeploy.Proofs.FileSystem.Walking
import LambdaDeploy.Proofs.Steps

/-!
# The entry that a path names

A path names one entry: its last name, in the directory that the names before it lead to.
Removing works on that entry and writing creates it, so no other place changes.

* `entryPlace?` — the place of the entry that a path names.
* `locate_within` — a path that names an entry names it still when more is there.
* `locate_of_writePlace` — a file that can be written has an entry; if that is no link, the
  file is written there.
* `unlink_eq_ok_iff` — removing takes this entry away.
* `exists_of_write` — writing where no link stands changes this entry only.
-/

namespace LambdaDeploy.FileSystem

variable {fs fs' larger : FileSystem} {path name : Bytes} {place directory : List Bytes}

/-! ## Names of a path -/

theorem ne_empty_of_mem_names (h : name ∈ Path.names path) : name ≠ [] := by
  simpa using (List.mem_filter.1 h).2

/-! ## Access -/

theorem permit_eq_ok_iff {access : Access} :
    fs.permit access place = .ok () ↔ fs.refuses access place = none := by
  rw [permit]
  cases fs.refuses access place <;> simp

theorem permit_ne_notFound {access : Access} : fs.permit access place ≠ .error .notFound := by
  rw [permit]
  cases fs.refuses access place <;> simp

/-! ## Locating -/

/-- What a path locates: nothing if it has no last name that could stand for an entry, else
the directory that the names before the last one lead to, and the last one. -/
theorem locate_eq_ok_iff {found : Option (List Bytes × Bytes)} :
    fs.locate path = .ok found ↔
      checkPath path = .ok () ∧
        (Path.names path = [] ∧ found = none ∨
          ∃ front last directory, Path.names path = front ++ [last] ∧
            Walk fs .existing linkLimit (origin fs.workingDirectory path) (front ++ [[]])
              directory ∧
            ((last = Path.self ∨ last = Path.parent) ∧ found = none ∨
              Plain last ∧ last.length ≤ nameLimit ∧ found = some (directory, last))) := by
  constructor
  · intro h
    obtain ⟨⟨⟩, hcheck, h⟩ := exists_of_bind_eq_ok h
    refine ⟨hcheck, ?_⟩
    split at h
    · rename_i hnone
      cases h
      exact .inl ⟨List.getLast?_eq_none_iff.1 hnone, rfl⟩
    · rename_i last hlast
      obtain ⟨front, hnames⟩ := List.getLast?_eq_some_iff.1 hlast
      rw [hnames, List.dropLast_concat] at h
      obtain ⟨directory, hwalk, h⟩ := exists_of_bind_eq_ok h
      refine .inr ⟨front, last, directory, hnames, walk_eq_ok_iff.1 hwalk, ?_⟩
      split at h
      · cases h
        exact .inl ⟨‹_›, rfl⟩
      · rename_i hdots
        rw [not_or] at hdots
        split at h
        · cases h
        · rename_i hshort
          cases h
          have hmem : last ∈ Path.names path := by simp [hnames]
          exact .inr ⟨⟨hdots.1, ne_empty_of_mem_names hmem, hdots.2⟩, Nat.not_lt.1 hshort, rfl⟩
  · rintro ⟨hcheck, ⟨hnil, rfl⟩ | ⟨front, last, directory, hnames, hwalk, hlast⟩⟩
    · rw [locate, hcheck]
      simp only [hnil]
      rfl
    · have hform : fs.locate path =
          if last = Path.self ∨ last = Path.parent then .ok none
          else if nameLimit < last.length then .error .nameTooLong
          else .ok (some (directory, last)) := by
        rw [locate, hcheck]
        simp only [hnames, List.getLast?_concat, List.dropLast_concat]
        rw [hwalk.eq_ok]
        rfl
      rcases hlast with ⟨hdots, rfl⟩ | ⟨hplain, hshort, rfl⟩
      · rw [hform, if_pos hdots]
      · rw [hform, if_neg (by simp [hplain.ne_self, hplain.ne_parent]),
          if_neg (Nat.not_lt.2 hshort)]

/-- The place of the entry that a path names. -/
def entryPlace? (fs : FileSystem) (path : Bytes) : Option (List Bytes) :=
  match fs.locate path with
  | .ok (some (directory, name)) => some (directory ++ [name])
  | _ => none

theorem entryPlace?_eq_some_iff :
    fs.entryPlace? path = some place ↔
      ∃ directory name, fs.locate path = .ok (some (directory, name)) ∧
        place = directory ++ [name] := by
  rw [entryPlace?]
  split
  · rename_i directory name hlocate
    constructor
    · intro h
      cases h
      exact ⟨directory, name, hlocate, rfl⟩
    · rintro ⟨directory', name', hlocate', rfl⟩
      cases hlocate.symm.trans hlocate'
      rfl
  · rename_i hnone
    constructor
    · intro h
      cases h
    · rintro ⟨directory, name, hlocate, -⟩
      exact absurd hlocate (hnone directory name)

theorem ne_nil_of_entryPlace? (h : fs.entryPlace? path = some place) : place ≠ [] := by
  obtain ⟨directory, name, -, rfl⟩ := entryPlace?_eq_some_iff.1 h
  simp

/-- What a path locates, it still locates when more is there. -/
theorem locate_within (hwithin : fs.Within larger) {found : Option (List Bytes × Bytes)}
    (h : fs.locate path = .ok found) : larger.locate path = .ok found := by
  rw [locate_eq_ok_iff] at h ⊢
  obtain ⟨hcheck, hnil | ⟨front, last, directory, hnames, hwalk, hlast⟩⟩ := h
  · exact ⟨hcheck, .inl hnil⟩
  · refine ⟨hcheck, .inr ⟨front, last, directory, hnames, ?_, hlast⟩⟩
    rw [hwithin.sameStart]
    exact hwalk.within hwithin

theorem entryPlace?_within (hwithin : fs.Within larger)
    (h : fs.entryPlace? path = some place) : larger.entryPlace? path = some place := by
  obtain ⟨directory, name, hlocate, rfl⟩ := entryPlace?_eq_some_iff.1 h
  exact entryPlace?_eq_some_iff.2 ⟨directory, name, locate_within hwithin hlocate, rfl⟩

/-! ## Writing -/

/-- A path that a file can be written at locates something.  If it names an entry that is no
link, the file is written there; such a path has no slash at its end. -/
theorem locate_of_writePlace (h : fs.writePlace path = .ok place) :
    fs.locate path = .ok none ∨
      ∃ directory name, fs.locate path = .ok (some (directory, name)) ∧
        Path.endsInSlash path = false ∧
        ((∀ target, fs.get? (directory ++ [name]) ≠ some (.link target)) →
          place = directory ++ [name]) := by
  obtain ⟨⟨⟩, hcheck, hwalk⟩ := exists_of_bind_eq_ok h
  rw [walk_eq_ok_iff] at hwalk
  rcases List.eq_nil_or_concat (Path.names path) with hnil | ⟨front, last, hnames⟩
  · exact .inl (locate_eq_ok_iff.2 ⟨hcheck, .inl ⟨hnil, rfl⟩⟩)
  · rw [List.concat_eq_append] at hnames
    have hmem : last ∈ Path.names path := by simp [hnames]
    have hne : last ≠ [] := ne_empty_of_mem_names hmem
    obtain ⟨tail, hsteps, htail⟩ : ∃ tail, Path.steps path = front ++ last :: tail ∧
        (Path.endsInSlash path = false ∧ tail = [] ∨ tail = [[]]) := by
      rw [Path.steps, hnames]
      cases Path.endsInSlash path with
      | true => exact ⟨[[]], by simp, .inr rfl⟩
      | false => exact ⟨[], by simp, .inl ⟨rfl, rfl⟩⟩
    obtain ⟨directory, links, hfront, hrest⟩ :=
      hwalk.split hsteps ⟨by simp, by simp [hne]⟩
    have hlocate : ∀ found, (last = Path.self ∨ last = Path.parent) ∧ found = none ∨
        Plain last ∧ last.length ≤ nameLimit ∧ found = some (directory, last) →
        fs.locate path = .ok found := fun found hfound =>
      locate_eq_ok_iff.2 ⟨hcheck, .inr ⟨front, last, directory, hnames, hfront, hfound⟩⟩
    cases hrest with
    | stay _ hstill => exact .inl (hlocate none (.inl ⟨.inl (hstill.resolve_right hne), rfl⟩))
    | leave => exact .inl (hlocate none (.inl ⟨.inr rfl, rfl⟩))
    | create _ hplain hshort =>
      obtain ⟨hslash, -⟩ := htail.resolve_right (by simp)
      exact .inr ⟨directory, last, hlocate _ (.inr ⟨hplain, hshort, rfl⟩), hslash, fun _ => rfl⟩
    | follow _ hplain hshort hbare hlink =>
      obtain ⟨hslash, -⟩ := htail.resolve_right fun htail => hbare ⟨rfl, htail⟩
      exact .inr ⟨directory, last, hlocate _ (.inr ⟨hplain, hshort, rfl⟩), hslash,
        fun hnone => absurd hlink (hnone _)⟩
    | enter _ hplain hshort hbare _ _ honward =>
      obtain ⟨hslash, rfl⟩ := htail.resolve_right fun htail => hbare ⟨rfl, htail⟩
      cases honward
      exact .inr ⟨directory, last, hlocate _ (.inr ⟨hplain, hshort, rfl⟩), hslash, fun _ => rfl⟩

/-- A file is written at one place, where that is not refused. -/
theorem exists_writePlace_of_write {content : ByteArray} (h : fs.write path content = .ok fs') :
    ∃ place, fs.writePlace path = .ok place ∧ fs.refuses .write place = none ∧
      fs' = fs.put place (.file content) := by
  obtain ⟨place, hplace, hrest⟩ := exists_of_bind_eq_ok h
  split at hrest
  · cases hrest
  · obtain ⟨⟨⟩, hpermit, hput⟩ := exists_of_bind_eq_ok hrest
    cases hput
    exact ⟨place, hplace, permit_eq_ok_iff.1 hpermit, rfl⟩

/-- Writing at a path whose entry is no link changes that entry only, and the path has no slash
at its end. -/
theorem exists_of_write {content : ByteArray} (h : fs.write path content = .ok fs')
    (hsome : fs.locate path ≠ .ok none)
    (hlink : ∀ place target, fs.entryPlace? path = some place →
      fs.get? place ≠ some (.link target)) :
    ∃ place, fs.entryPlace? path = some place ∧ Path.endsInSlash path = false ∧
      fs.refuses .write place = none ∧ fs' = fs.put place (.file content) := by
  obtain ⟨place, hplace, hput⟩ := exists_writePlace_of_write h
  rcases locate_of_writePlace hplace with hnone | ⟨directory, name, hlocate, hslash, hsame⟩
  · exact absurd hnone hsome
  · have hentry := entryPlace?_eq_some_iff.2 ⟨directory, name, hlocate, rfl⟩
    obtain rfl := hsame fun target => hlink _ target hentry
    exact ⟨_, hentry, hslash, hput⟩

/-! ## Removing -/

/-- Removing an entry without a slash behind its name. -/
theorem unlink_eq_of_locate {entry : Entry}
    (hlocate : fs.locate path = .ok (some (directory, name)))
    (hfound : fs.get? (directory ++ [name]) = some entry)
    (hslash : Path.endsInSlash path = false) :
    fs.unlink path =
      (fs.permit .remove (directory ++ [name])).bind fun _ =>
        match entry with
        | .directory => .error .isADirectory
        | _ => .ok (fs.erase (directory ++ [name])) := by
  rw [unlink, hlocate]
  simp only [bind, Except.bind, hfound, hslash]
  cases fs.permit .remove (directory ++ [name]) <;> cases entry <;> rfl

/-- With a slash behind its name no entry is removed. -/
theorem unlink_of_endsInSlash {entry : Entry}
    (hlocate : fs.locate path = .ok (some (directory, name)))
    (hfound : fs.get? (directory ++ [name]) = some entry)
    (hslash : Path.endsInSlash path = true) :
    fs.unlink path = .error .isADirectory ∨ fs.unlink path = .error .notADirectory := by
  rw [unlink, hlocate]
  simp only [bind, Except.bind, hfound, hslash]
  cases entry with
  | directory => exact .inl rfl
  | file content => exact .inr rfl
  | link target => exact .inr rfl

/-- Removing takes away the entry that the path names, if that is a file or a link, the path
does not ask for a directory, and it is not refused. -/
theorem unlink_eq_ok_iff :
    fs.unlink path = .ok fs' ↔
      ∃ place entry, fs.entryPlace? path = some place ∧ fs.get? place = some entry ∧
        entry ≠ .directory ∧ Path.endsInSlash path = false ∧
        fs.refuses .remove place = none ∧ fs' = fs.erase place := by
  constructor
  · intro h
    obtain ⟨found, hlocate, hrest⟩ := exists_of_bind_eq_ok h
    split at hrest
    · cases hrest
    · rename_i directory name
      split at hrest
      · cases hrest
      · rename_i entry hfound
        have hplace := entryPlace?_eq_some_iff.2 ⟨directory, name, hlocate, rfl⟩
        cases hslash : Path.endsInSlash path with
        | true => rcases unlink_of_endsInSlash hlocate hfound hslash with hnone | hnone <;>
            cases hnone.symm.trans h
        | false =>
          rw [unlink_eq_of_locate hlocate hfound hslash] at h
          obtain ⟨⟨⟩, hpermit, h⟩ := exists_of_bind_eq_ok h
          refine ⟨_, entry, hplace, hfound, ?_, rfl, permit_eq_ok_iff.1 hpermit, ?_⟩
          · rintro rfl
            cases h
          · cases entry <;> cases h <;> rfl
  · rintro ⟨place, entry, hplace, hfound, hentry, hslash, hpermit, rfl⟩
    obtain ⟨directory, name, hlocate, rfl⟩ := entryPlace?_eq_some_iff.1 hplace
    rw [unlink_eq_of_locate hlocate hfound hslash, permit_eq_ok_iff.2 hpermit]
    cases entry with
    | directory => exact absurd rfl hentry
    | file content => rfl
    | link target => rfl

/-- If there is nothing to remove, either no entry is named, or nothing stands there. -/
theorem of_unlink_eq_notFound (h : fs.unlink path = .error .notFound) :
    fs.locate path ≠ .ok none ∧
      ∀ place, fs.entryPlace? path = some place → fs.get? place = none := by
  constructor
  · intro hnone
    rw [unlink, hnone] at h
    cases h
  · intro place hplace
    obtain ⟨directory, name, hlocate, rfl⟩ := entryPlace?_eq_some_iff.1 hplace
    cases hfound : fs.get? (directory ++ [name]) with
    | none => rfl
    | some entry =>
      cases hslash : Path.endsInSlash path with
      | true =>
        rcases unlink_of_endsInSlash hlocate hfound hslash with hother | hother <;>
          cases hother.symm.trans h
      | false =>
        rw [unlink_eq_of_locate hlocate hfound hslash] at h
        rcases eq_error_of_bind_eq_error h with hpermit | ⟨⟨⟩, -, hrest⟩
        · exact absurd hpermit permit_ne_notFound
        · cases entry <;> cases hrest

end LambdaDeploy.FileSystem
