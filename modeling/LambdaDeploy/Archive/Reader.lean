import LambdaDeploy.Archive.Zip

/-!
# Reading zip archives

A zip archive is read from its end: the last record says where the directory is, and the
directory says where the entries are.  Deflate streams are read if their blocks are
stored ones.

* `inflate?` — the bytes of a deflate stream.
* `entries?` — the entries of an archive without a comment.
* `library` — the library that writes and reads such archives.
-/

namespace LambdaDeploy.Archive

/-! ## Numbers -/

/-- The number that some bytes stand for, lowest first. -/
def number (bytes : Bytes) : Nat := bytes.foldr (fun byte n => byte.toNat + 256 * n) 0

/-- The first bytes of some data, and what follows them. -/
def cut? (count : Nat) (data : Bytes) : Option (Bytes × Bytes) :=
  if count ≤ data.length then some (data.take count, data.drop count) else none

/-- The numbers at the beginning of some data, of these sizes, and what follows them. -/
def fields? : List Nat → Bytes → Option (List Nat × Bytes)
  | [], data => some ([], data)
  | size :: sizes, data => do
    let (first, rest) ← cut? size data
    let (numbers, rest) ← fields? sizes rest
    return (number first :: numbers, rest)

/-! ## Packed data -/

/-- The data of the stored blocks of a stream, of which there are at most `limit`. -/
def inflateBlocks? : Nat → Bytes → Option Bytes
  | 0, _ => none
  | limit + 1, data =>
    match fields? [1, 2, 2] data with
    | some ([mark, size, rest], data) =>
      if size + rest = blockLimit ∧ size ≤ data.length then
        match mark with
        | 0 => (inflateBlocks? limit (data.drop size)).map (data.take size ++ ·)
        | 1 => if data.length = size then some data else none
        | _ => none
      else none
    | _ => none

/-- The data of a deflate stream. -/
def inflate? (data : Bytes) : Option Bytes := inflateBlocks? data.length data

/-- The data of an entry, from the number of the way in which it is packed. -/
def unpack? (number : Nat) (data : Bytes) : Option (Compression × Bytes) :=
  match number with
  | 0 => some (.stored, data)
  | 8 => (inflate? data).map (.deflated, ·)
  | _ => none

/-! ## Records -/

/-- The packed data of the entry whose record begins here. -/
def packedData? (size : Nat) (record : Bytes) : Option Bytes :=
  match fields? [4, 2, 2, 2, 2, 2, 4, 4, 4, 2, 2] record with
  | some ([signature, _, _, _, _, _, _, _, _, nameSize, extraSize], data) =>
    if signature = entrySignature then (cut? size (data.drop (nameSize + extraSize))).map (·.1)
    else none
  | _ => none

/-- An entry with this name, if its data is sound. -/
def entryOf? (name : Bytes) (mode crc size : Nat) (unpacked : Compression × Bytes) :
    Option ArchiveEntry := do
  let content : ByteArray := ⟨unpacked.2.toArray⟩
  let name ← name.text?
  if content.size = size ∧ (crc32 content).toNat = crc then
    return ⟨name, unpacked.1, mode, content⟩
  else none

/-- The entries of an archive from here on in its directory, so many of them. -/
def listed? (archive : Bytes) : Nat → Bytes → Option (List ArchiveEntry)
  | 0, _ => some []
  | count + 1, directory =>
    match fields? [4, 2, 2, 2, 2, 2, 2, 4, 4, 4, 2, 2, 2, 2, 2, 4, 4] directory with
    | some ([signature, _, _, _, method, _, _, crc, packedSize, size, nameSize, extraSize,
        commentSize, _, _, attributes, start], rest) =>
      if signature = listingSignature then do
        let (name, rest) ← cut? nameSize rest
        let packed ← packedData? packedSize (archive.drop start)
        let entry ← entryOf? name (attributes / 65536) crc size (← unpack? method packed)
        return entry :: (← listed? archive count (rest.drop (extraSize + commentSize)))
      else none
    | _ => none

/-- The number of bytes of the record at the end of an archive. -/
def endSize : Nat := 22

/-- The entries of an archive without a comment. -/
def entries? (archive : ByteArray) : Option (List ArchiveEntry) :=
  let data := archive.data.toList
  match fields? [4, 2, 2, 2, 2, 4, 4, 2] (data.drop (data.length - endSize)) with
  | some ([signature, _, _, _, count, _, start, _], []) =>
    if signature = endSignature then listed? data count (data.drop start) else none
  | _ => none

/-! ## The library -/

/-- The archive of this entry has numbers that fit into their fields. -/
def Fits (name : ByteArray) (options : EntryOptions) (content : ByteArray) : Prop :=
  name.size < 65536 ∧ content.size < 4294967296 ∧
    (entryRecord name options.compression content).size < 4294967296

instance (name : ByteArray) (options : EntryOptions) (content : ByteArray) :
    Decidable (Fits name options content) := inferInstanceAs (Decidable (_ ∧ _ ∧ _))

/-- A library for archives with one entry. -/
def library : ZipLibrary where
  start name _ := if name.toUTF8.size < 65536 then .ok () else .error "file name too long"
  copy _ _ _ := .ok ()
  finish name options content :=
    if Fits name.toUTF8 options content then .ok (zip name.toUTF8 options content)
    else .error "file too large"
  abandon name options _ := zip name.toUTF8 options .empty
  entries? := entries?

end LambdaDeploy.Archive
