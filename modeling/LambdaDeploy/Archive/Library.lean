import LambdaDeploy.FileSystem.Error

/-!
# Zip libraries

Packaging leaves the format of archives to a library.  Here is what it asks of one: to
start an entry, to take its content, and to finish the archive.  Whatever offers this can
serve a build.

* `ZipLibrary` — these steps, and what readers of the format find in a file.
* `ZipLibrary.Faithful` — an archive that was finished has just the entry that was given.
* `ZipLibrary.Accepts` — the library refuses no step for an entry.
-/

namespace LambdaDeploy

/-- How the content of an entry is packed. -/
inductive Compression where
  | stored
  | deflated
deriving DecidableEq, Repr

/-- How an entry is to be made. -/
structure EntryOptions where
  compression : Compression
  /-- The access rights of the file; there are nine of them. -/
  permissions : Nat
deriving DecidableEq, Repr

/-- The file type of a regular file, as archives and the system have it. -/
def regularFile : Nat := 0o100000

/-- The access rights of an entry with its file type. -/
def EntryOptions.mode (options : EntryOptions) : Nat :=
  regularFile ||| (options.permissions &&& 0o777)

/-- An entry of an archive, as readers find it. -/
structure ArchiveEntry where
  name : String
  compression : Compression
  /-- The access rights with the file type. -/
  mode : Nat
  content : ByteArray

/-- The entry that a name, options and a content make. -/
def EntryOptions.entry (options : EntryOptions) (name : String) (content : ByteArray) :
    ArchiveEntry :=
  ⟨name, options.compression, options.mode, content⟩

/-- A library for zip archives.  Its own complaints are texts; while it takes content it
is an output like any other. -/
structure ZipLibrary where
  /-- Starts the only entry of an archive. -/
  start : String → EntryOptions → Except String Unit
  /-- Takes the content of the entry. -/
  copy : String → EntryOptions → ByteArray → Except FileError Unit
  /-- Finishes the archive: the bytes of its file. -/
  finish : String → EntryOptions → ByteArray → Except String ByteArray
  /-- The bytes of a file whose archive was given up, when this is what was to be its
  content. -/
  abandon : String → EntryOptions → Except FileError ByteArray → ByteArray
  /-- The entries of a file that is an archive. -/
  entries? : ByteArray → Option (List ArchiveEntry)

namespace ZipLibrary

/-- An archive that was finished has just the entry that was given. -/
def Faithful (zip : ZipLibrary) : Prop :=
  ∀ name options content data, zip.finish name options content = .ok data →
    zip.entries? data = some [options.entry name content]

/-- No step is refused for an entry. -/
structure Accepts (zip : ZipLibrary) (name : String) (options : EntryOptions)
    (content : ByteArray) : Prop where
  starts : zip.start name options = .ok ()
  copies : zip.copy name options content = .ok ()
  finishes : ∃ data, zip.finish name options content = .ok data

end ZipLibrary

end LambdaDeploy
