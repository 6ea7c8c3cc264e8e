import LambdaDeploy.FileSystem.Error
import LambdaDeploy.Text.Utf8

/-!
# File systems

A file system is a finite map from places to entries: directories, files and
symbolic links.  A place is the list of names on the way to it from the root, and
the root is always a directory.  Besides, the system may refuse access to some places
for reasons of its own, such as access rights.

* `FileSystem.get?`, `FileSystem.put`, `FileSystem.erase` — what a place holds, and
  changes at one place.
* `FileSystem.permit` — whether access to a place is refused.
* `FileSystem.get?_put`, `FileSystem.get?_erase` — a change at one place leaves
  every other place alone.
-/

namespace LambdaDeploy

/-- What a place of a file system holds. -/
inductive Entry where
  | directory
  | file (content : ByteArray)
  /-- A symbolic link to the path `target`. -/
  | link (target : Bytes)

/-- What can be refused at a place. -/
inductive Access where
  /-- To open what stands there for reading. -/
  | read
  /-- To create a file there, or to write to the one that is there. -/
  | write
  /-- To take away what stands there. -/
  | remove
deriving DecidableEq, Repr

/-- A file system: what its places hold, where relative paths start, and what the system
refuses. -/
structure FileSystem where
  entries : List (List Bytes × Entry) := []
  workingDirectory : List Bytes := []
  refuses : Access → List Bytes → Option Refusal := fun _ _ => none

namespace FileSystem

/-! ## Places -/

/-- What a place holds. -/
def get? (fs : FileSystem) (place : List Bytes) : Option Entry :=
  if place = [] then some .directory else fs.entries.lookup place

/-- The file system with another entry at a place. -/
def put (fs : FileSystem) (place : List Bytes) (entry : Entry) : FileSystem :=
  { fs with entries := (place, entry) :: fs.entries.filter (·.1 ≠ place) }

/-- The file system without the entry at a place. -/
def erase (fs : FileSystem) (place : List Bytes) : FileSystem :=
  { fs with entries := fs.entries.filter (·.1 ≠ place) }

/-- Lets an access to a place pass, unless the system refuses it. -/
def permit (fs : FileSystem) (access : Access) (place : List Bytes) : Except FileError Unit :=
  match fs.refuses access place with
  | none => .ok ()
  | some refusal => .error (.refused refusal)

theorem lookup_filter_ne {α : Type} (entries : List (List Bytes × α))
    (place other : List Bytes) :
    (entries.filter (·.1 ≠ place)).lookup other =
      if other = place then none else entries.lookup other := by
  induction entries with
  | nil => simp
  | cons entry entries ih =>
    obtain ⟨key, found⟩ := entry
    by_cases hk : key = place
    · rw [List.filter_cons_of_neg (by simpa using hk), ih]
      by_cases ho : other = place
      · rw [if_pos ho, if_pos ho]
      · have hb : (other == key) = false := by simpa [hk] using ho
        rw [List.lookup_cons, hb]
    · rw [List.filter_cons_of_pos (by simpa using hk), List.lookup_cons, List.lookup_cons, ih]
      by_cases ho : other = place
      · have hb : (other == key) = false := by simpa [ho] using Ne.symm hk
        simp only [hb, if_pos ho]
      · simp only [if_neg ho]

/-- A place holds what was put there; every other place holds what it held. -/
theorem get?_put {fs : FileSystem} {place other : List Bytes} {entry : Entry}
    (h : place ≠ []) :
    (fs.put place entry).get? other =
      if other = place then some entry else fs.get? other := by
  unfold get? put
  rw [List.lookup_cons, lookup_filter_ne]
  by_cases ho : other = place
  · simp [ho, h]
  · have hb : (other == place) = false := by simpa using ho
    simp [ho, hb]

/-- Nothing is left at an erased place; every other place holds what it held. -/
theorem get?_erase {fs : FileSystem} {place other : List Bytes} (h : place ≠ []) :
    (fs.erase place).get? other = if other = place then none else fs.get? other := by
  unfold get? erase
  rw [lookup_filter_ne]
  by_cases ho : other = place
  · simp [ho, h]
  · simp [ho]

end FileSystem

end LambdaDeploy
