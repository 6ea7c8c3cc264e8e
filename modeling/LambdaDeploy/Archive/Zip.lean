import LambdaDeploy.Archive.Crc32
import LambdaDeploy.Archive.Library
import LambdaDeploy.Text.Utf8

/-!
# Zip archives with one entry

The bytes of a zip archive that holds a single file.  A deflate stream is made of stored
blocks, so that every reader of the format gives its data back unchanged.

* `deflate` — the deflate stream of some bytes.
* `zip` — the archive: the record of the entry, the directory that lists it, and the
  record that says where the directory is.
-/

namespace LambdaDeploy.Archive

/-! ## Numbers -/

/-- A number in `count` bytes, lowest first. -/
def littleEndian : Nat → Nat → Bytes
  | 0, _ => []
  | count + 1, n => UInt8.ofNat n :: littleEndian count (n / 256)

/-- Several numbers in a row, each behind its number of bytes. -/
def fields (numbers : List (Nat × Nat)) : ByteArray :=
  (numbers.flatMap fun field => littleEndian field.1 field.2).toByteArray

/-! ## Packed data -/

/-- The largest number of bytes in a stored block. -/
def blockLimit : Nat := 65535

/-- A stored block; the last one of a stream is marked. -/
def storedBlock (mark : Nat) (chunk : ByteArray) : ByteArray :=
  fields [(1, mark), (2, chunk.size), (2, blockLimit - chunk.size)] ++ chunk

/-- Stored blocks behind those that are done: `more` full ones, and the last one. -/
def storedBlocks (data : ByteArray) : Nat → Nat → ByteArray → ByteArray
  | 0, start, done => done ++ storedBlock 1 (data.extract start data.size)
  | more + 1, start, done =>
    storedBlocks data more (start + blockLimit)
      (done ++ storedBlock 0 (data.extract start (start + blockLimit)))

/-- The deflate stream of some bytes. -/
def deflate (data : ByteArray) : ByteArray :=
  storedBlocks data ((data.size - 1) / blockLimit) 0 .empty

/-- The data of an entry. -/
def pack : Compression → ByteArray → ByteArray
  | .stored, data => data
  | .deflated, data => deflate data

/-- The number of a way of packing. -/
def method : Compression → Nat
  | .stored => 0
  | .deflated => 8

/-! ## Records -/

/-- What the records of an archive begin with: that of an entry, its listing in the
directory, and the record at the end. -/
def entrySignature : Nat := 0x04034b50

def listingSignature : Nat := 0x02014b50

def endSignature : Nat := 0x06054b50

/-- The fields that an entry and its listing in the directory share. -/
def sharedFields (name : ByteArray) (compression : Compression) (content : ByteArray) :
    List (Nat × Nat) :=
  [(2, 20), (2, 0x800), (2, method compression), (2, 0), (2, 0x21),
    (4, (crc32 content).toNat), (4, (pack compression content).size), (4, content.size),
    (2, name.size), (2, 0)]

/-- The record of an entry, with its data. -/
def entryRecord (name : ByteArray) (compression : Compression) (content : ByteArray) :
    ByteArray :=
  fields ((4, entrySignature) :: sharedFields name compression content) ++ name ++
    pack compression content

/-- The fields of the listing of an entry at the beginning of an archive. -/
def listingFields (name : ByteArray) (options : EntryOptions) (content : ByteArray) :
    List (Nat × Nat) :=
  (4, listingSignature) :: (2, 0x314) ::
    (sharedFields name options.compression content ++
      [(2, 0), (2, 0), (2, 0), (4, options.mode * 65536), (4, 0)])

/-- The directory of an archive: the listing of its only entry. -/
def directory (name : ByteArray) (options : EntryOptions) (content : ByteArray) : ByteArray :=
  fields (listingFields name options content) ++ name

/-- The fields at the end of an archive, for the sizes of its entry and of its directory. -/
def endFields (entrySize directorySize : Nat) : List (Nat × Nat) :=
  [(4, endSignature), (2, 0), (2, 0), (2, 1), (2, 1), (4, directorySize), (4, entrySize), (2, 0)]

/-- The archive of one entry. -/
def zip (name : ByteArray) (options : EntryOptions) (content : ByteArray) : ByteArray :=
  let entry := entryRecord name options.compression content
  let listed := directory name options content
  entry ++ listed ++ fields (endFields entry.size listed.size)

end LambdaDeploy.Archive
