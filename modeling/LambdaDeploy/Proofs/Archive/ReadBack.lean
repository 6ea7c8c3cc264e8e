import LambdaDeploy.Archive.Reader
import Mathlib.Algebra.Ring.Nat

/-!
# Archives are read back

What the library writes it reads again: numbers from their bytes, data from its stored blocks, and
from an archive just the entry that it was made of.

* `fields?_fields` — numbers that fit into their fields are read back.
* `inflate?_deflate` — **a deflate stream gives its data back.**
* `entries?_zip` — **an archive gives its entry back.**
* `faithful_library`, `accepts_library` — what packaging may rely on.
-/

namespace LambdaDeploy.Archive

variable {size count limit : Nat} {data rest done : Bytes} {numbers : List (Nat × Nat)}

/-! ## Numbers -/

theorem length_littleEndian (count n : Nat) : (littleEndian count n).length = count := by
  induction count generalizing n with
  | zero => rfl
  | succ count ih => simp [littleEndian, ih]

theorem number_littleEndian {n : Nat} (h : n < 256 ^ count) :
    number (littleEndian count n) = n := by
  induction count generalizing n with
  | zero =>
    have hzero : n = 0 := by simpa using h
    rw [hzero]
    rfl
  | succ count ih =>
    have hquotient : n / 256 < 256 ^ count := by
      rw [Nat.div_lt_iff_lt_mul (by decide), ← Nat.pow_succ]
      exact h
    have hstep : number (littleEndian (count + 1) n) =
        (UInt8.ofNat n).toNat + 256 * number (littleEndian count (n / 256)) := rfl
    rw [hstep, ih hquotient, UInt8.toNat_ofNat']
    exact Nat.mod_add_div n 256

theorem cut?_append (data rest : Bytes) : cut? data.length (data ++ rest) = some (data, rest) := by
  simp [cut?]

theorem cut?_of_length (h : data.length = size) (rest : Bytes) :
    cut? size (data ++ rest) = some (data, rest) := by
  rw [← h, cut?_append]

/-- The bytes of numbers in a row. -/
theorem toList_fields (numbers : List (Nat × Nat)) :
    (fields numbers).data.toList = numbers.flatMap fun field => littleEndian field.1 field.2 := by
  simp [fields]

/-- Numbers that fit into their fields are read back. -/
theorem fields?_fields (h : ∀ field ∈ numbers, field.2 < 256 ^ field.1) (rest : Bytes) :
    fields? (numbers.map (·.1)) ((fields numbers).data.toList ++ rest) =
      some (numbers.map (·.2), rest) := by
  rw [toList_fields]
  induction numbers with
  | nil => rfl
  | cons field numbers ih =>
    rw [List.forall_mem_cons] at h
    have hcut := cut?_of_length (length_littleEndian field.1 field.2)
      ((numbers.flatMap fun field => littleEndian field.1 field.2) ++ rest)
    rw [List.map_cons, List.flatMap_cons, List.append_assoc, fields?, hcut]
    simp only [Option.bind_eq_bind, Option.bind_some, ih h.2, number_littleEndian h.1]
    rfl

theorem size_fields (numbers : List (Nat × Nat)) :
    (fields numbers).size = (numbers.map (·.1)).sum := by
  rw [← ByteArray.size_data, ← Array.length_toList, toList_fields]
  simp [List.length_flatMap, length_littleEndian]

/-! ## Packed data -/

/-- The bytes of a stored block. -/
theorem toList_storedBlock (mark : Nat) (chunk : ByteArray) :
    (storedBlock mark chunk).data.toList =
      (fields [(1, mark), (2, chunk.size), (2, blockLimit - chunk.size)]).data.toList ++
        chunk.data.toList := by
  simp [storedBlock]

/-- The head of a stored block is read back. -/
theorem fields?_storedBlock {mark : Nat} {chunk : ByteArray} (hmark : mark < 256)
    (hsize : chunk.size ≤ blockLimit) (rest : Bytes) :
    fields? [1, 2, 2] ((storedBlock mark chunk).data.toList ++ rest) =
      some ([mark, chunk.size, blockLimit - chunk.size], chunk.data.toList ++ rest) := by
  rw [blockLimit] at hsize
  have hfit : ∀ field ∈ [(1, mark), (2, chunk.size), (2, blockLimit - chunk.size)],
      field.2 < 256 ^ field.1 := by
    simp only [List.mem_cons, List.not_mem_nil, or_false, forall_eq_or_imp, forall_eq, blockLimit]
    omega
  rw [toList_storedBlock, List.append_assoc]
  exact fields?_fields hfit _

/-- A block that is not the last one gives its data, and then those behind it give theirs. -/
theorem inflateBlocks?_next {chunk : ByteArray} (hsize : chunk.size ≤ blockLimit) (limit : Nat)
    (rest : Bytes) :
    inflateBlocks? (limit + 1) ((storedBlock 0 chunk).data.toList ++ rest) =
      (inflateBlocks? limit rest).map (chunk.data.toList ++ ·) := by
  have hlength : chunk.data.toList.length = chunk.size := rfl
  have hfits : chunk.size ≤ (chunk.data.toList ++ rest).length := by
    rw [List.length_append, hlength]
    omega
  rw [inflateBlocks?, fields?_storedBlock (by decide) hsize]
  dsimp only
  rw [if_pos ⟨Nat.add_sub_cancel' hsize, hfits⟩, ← hlength, List.drop_left, List.take_left]
  rfl

/-- The last block gives its data. -/
theorem inflateBlocks?_last {chunk : ByteArray} (hsize : chunk.size ≤ blockLimit) (limit : Nat) :
    inflateBlocks? (limit + 1) (storedBlock 1 chunk).data.toList = some chunk.data.toList := by
  have hlength : chunk.data.toList.length = chunk.size := rfl
  have hread := fields?_storedBlock (by decide : 1 < 256) hsize []
  rw [List.append_nil, List.append_nil] at hread
  rw [inflateBlocks?, hread]
  dsimp only
  rw [if_pos ⟨Nat.add_sub_cancel' hsize, Nat.le_of_eq hlength.symm⟩]
  exact if_pos hlength

theorem toList_extract (data : ByteArray) (start stop : Nat) :
    (data.extract start stop).data.toList = (data.data.toList.drop start).take (stop - start) := by
  rw [ByteArray.data_extract, Array.toList_extract, List.extract_eq_take_drop]

theorem length_storedBlock (mark : Nat) (chunk : ByteArray) :
    (storedBlock mark chunk).data.toList.length = 5 + chunk.size := by
  have hchunk : chunk.data.toList.length = chunk.size := rfl
  rw [toList_storedBlock, List.length_append, hchunk, toList_fields]
  simp [length_littleEndian]

/-- The blocks of the data from a place on stand behind those that are done, and give this data
back. -/
theorem exists_storedBlocks (data : ByteArray) {more start : Nat}
    (hfull : start + more * blockLimit ≤ data.size)
    (hlast : data.size ≤ start + (more + 1) * blockLimit) (done : ByteArray) :
    ∃ stream, (storedBlocks data more start done).data.toList = done.data.toList ++ stream ∧
      5 * more < stream.length ∧
      ∀ limit, more < limit →
        inflateBlocks? limit stream = some (data.data.toList.drop start) := by
  induction more generalizing start done with
  | zero =>
    have hsize : (data.extract start data.size).size ≤ blockLimit := by
      rw [ByteArray.size_extract]
      omega
    refine ⟨(storedBlock 1 (data.extract start data.size)).data.toList,
      ByteArray.toList_data_append, ?_, ?_⟩
    · rw [length_storedBlock]
      omega
    · rintro (_ | limit) hlimit
      · cases hlimit
      · rw [inflateBlocks?_last hsize, toList_extract, List.take_of_length_le]
        exact Nat.le_of_eq List.length_drop
  | succ more ih =>
    have hstart : start + blockLimit ≤ data.size := by
      rw [Nat.succ_mul] at hfull
      omega
    have hsize : (data.extract start (start + blockLimit)).size = blockLimit := by
      rw [ByteArray.size_extract]
      omega
    have hchunk : data.data.toList.drop start =
        (data.extract start (start + blockLimit)).data.toList ++
          data.data.toList.drop (start + blockLimit) := by
      rw [toList_extract, Nat.add_sub_cancel_left, ← List.drop_drop, List.take_append_drop]
    have hnextFull : start + blockLimit + more * blockLimit ≤ data.size := by
      rw [Nat.succ_mul] at hfull
      omega
    have hnextLast : data.size ≤ start + blockLimit + (more + 1) * blockLimit := by
      rw [Nat.succ_mul] at hlast
      omega
    obtain ⟨stream, hstream, hlength, hread⟩ := ih hnextFull hnextLast
      (done ++ storedBlock 0 (data.extract start (start + blockLimit)))
    refine ⟨(storedBlock 0 (data.extract start (start + blockLimit))).data.toList ++ stream, ?_, ?_,
      ?_⟩
    · rw [storedBlocks, hstream, ByteArray.toList_data_append, List.append_assoc]
    · rw [List.length_append, length_storedBlock]
      omega
    · rintro (_ | limit) hlimit
      · cases hlimit
      · rw [inflateBlocks?_next (Nat.le_of_eq hsize), hread limit (by omega), hchunk]
        rfl

/-- **A deflate stream gives its data back.** -/
theorem inflate?_deflate (data : ByteArray) :
    inflate? (deflate data).data.toList = some data.data.toList := by
  have hquotient := Nat.div_add_mod (data.size - 1) blockLimit
  have hmod := Nat.mod_lt (data.size - 1) (by decide : 0 < blockLimit)
  have hfull : 0 + (data.size - 1) / blockLimit * blockLimit ≤ data.size := by
    rw [Nat.mul_comm]
    omega
  have hlast : data.size ≤ 0 + ((data.size - 1) / blockLimit + 1) * blockLimit := by
    rw [Nat.succ_mul, Nat.mul_comm]
    omega
  obtain ⟨stream, hstream, hlength, hread⟩ := exists_storedBlocks data hfull hlast .empty
  rw [inflate?, deflate, hstream]
  refine hread _ ?_
  rw [List.length_append]
  omega

theorem unpack?_pack (compression : Compression) (data : ByteArray) :
    unpack? (method compression) (pack compression data).data.toList =
      some (compression, data.data.toList) := by
  cases compression with
  | stored => rfl
  | deflated =>
    rw [pack]
    exact congrArg (Option.map _) (inflate?_deflate data)

/-! ## Records -/

variable {name content : ByteArray} {options : EntryOptions} {compression : Compression}

theorem size_entryRecord :
    (entryRecord name compression content).size =
      30 + name.size + (pack compression content).size := by
  simp [entryRecord, ByteArray.size_append, size_fields, sharedFields]

theorem size_directory : (directory name options content).size = 46 + name.size := by
  simp [directory, ByteArray.size_append, size_fields, listingFields, sharedFields]

theorem mode_lt (options : EntryOptions) : options.mode < 65536 := by
  have hpermissions : options.permissions &&& 0o777 < 65536 :=
    Nat.lt_of_le_of_lt Nat.and_le_right (by decide)
  exact Nat.or_lt_two_pow (n := 16) (by decide) hpermissions

/-- The numbers that an entry and its listing share fit into their fields. -/
theorem sharedFields_lt (h : Fits name options content) :
    ∀ field ∈ sharedFields name options.compression content, field.2 < 256 ^ field.1 := by
  obtain ⟨hname, hcontent, hrecord⟩ := h
  rw [size_entryRecord] at hrecord
  have hcrc := (crc32 content).toNat_lt
  have hmethod : method options.compression < 256 ^ 2 := by
    cases options.compression <;> decide
  simp only [sharedFields, List.mem_cons, List.not_mem_nil, or_false, forall_eq_or_imp, forall_eq]
  omega

theorem packedData?_entryRecord (h : Fits name options content) (rest : Bytes) :
    packedData? (pack options.compression content).size
        ((entryRecord name options.compression content).data.toList ++ rest) =
      some (pack options.compression content).data.toList := by
  have hfit : ∀ field ∈ (4, entrySignature) :: sharedFields name options.compression content,
      field.2 < 256 ^ field.1 :=
    List.forall_mem_cons.2 ⟨by decide, sharedFields_lt h⟩
  have hread : fields? [4, 2, 2, 2, 2, 2, 4, 4, 4, 2, 2]
        ((fields ((4, entrySignature) :: sharedFields name options.compression content)).data.toList
          ++ (name.data.toList ++ ((pack options.compression content).data.toList ++ rest))) =
      some ([entrySignature, 20, 0x800, method options.compression, 0, 0x21,
          (crc32 content).toNat, (pack options.compression content).size, content.size,
          name.size, 0],
        name.data.toList ++ ((pack options.compression content).data.toList ++ rest)) :=
    fields?_fields hfit _
  have hname : name.data.toList.length = name.size := rfl
  have hcut := cut?_append (pack options.compression content).data.toList rest
  rw [entryRecord, ByteArray.toList_data_append, ByteArray.toList_data_append, List.append_assoc,
    List.append_assoc, packedData?, hread]
  dsimp only
  rw [if_pos rfl, Nat.add_zero, ← hname, List.drop_left]
  exact congrArg (Option.map _) hcut

theorem entryOf?_eq {text : String} (hname : Bytes.text? name.data.toList = some text)
    (mode : Nat) :
    entryOf? name.data.toList mode (crc32 content).toNat content.size
      (compression, content.data.toList) = some ⟨text, compression, mode, content⟩ := by
  have hcontent : (⟨content.data.toList.toArray⟩ : ByteArray) = content := rfl
  rw [entryOf?]
  simp only [hname, hcontent, Option.bind_eq_bind, Option.bind_some, and_self, if_true]
  rfl

/-- The numbers of a listing fit into their fields. -/
theorem listingFields_lt (h : Fits name options content) :
    ∀ field ∈ listingFields name options content, field.2 < 256 ^ field.1 := by
  have hmode := mode_lt options
  have hlast : ∀ field ∈ [(2, 0), (2, 0), (2, 0), (4, options.mode * 65536), (4, 0)],
      field.2 < 256 ^ field.1 := by
    simp only [List.mem_cons, List.not_mem_nil, or_false, forall_eq_or_imp, forall_eq]
    omega
  rw [listingFields, List.forall_mem_cons, List.forall_mem_cons, List.forall_mem_append]
  exact ⟨by decide, by decide, sharedFields_lt h, hlast⟩

/-- The listing of an entry is read, and the entry with it. -/
theorem listed?_directory {text : String} (h : Fits name options content)
    (hname : Bytes.text? name.data.toList = some text) (rest behind : Bytes) :
    listed? ((entryRecord name options.compression content).data.toList ++ rest) 1
        ((directory name options content).data.toList ++ behind) =
      some [options.entry text content] := by
  have hread : fields? [4, 2, 2, 2, 2, 2, 2, 4, 4, 4, 2, 2, 2, 2, 2, 4, 4]
        ((fields (listingFields name options content)).data.toList ++
          (name.data.toList ++ behind)) =
      some ([listingSignature, 0x314, 20, 0x800, method options.compression, 0, 0x21,
          (crc32 content).toNat, (pack options.compression content).size, content.size,
          name.size, 0, 0, 0, 0, options.mode * 65536, 0], name.data.toList ++ behind) :=
    fields?_fields (listingFields_lt h) _
  have hcut : cut? name.size (name.data.toList ++ behind) = some (name.data.toList, behind) :=
    cut?_append name.data.toList behind
  have hattributes : options.mode * 65536 / 65536 = options.mode :=
    Nat.mul_div_cancel _ (by decide)
  rw [directory, ByteArray.toList_data_append, List.append_assoc, listed?, hread]
  dsimp only
  rw [if_pos rfl, hcut, List.drop_zero, hattributes]
  simp only [Option.bind_eq_bind, Option.bind_some, packedData?_entryRecord h rest,
    unpack?_pack options.compression content, entryOf?_eq hname, listed?]
  rfl

/-- The end of an archive, whose sizes fit into their fields, is read. -/
theorem fields?_endFields {entrySize directorySize : Nat} (hentry : entrySize < 4294967296)
    (hdirectory : directorySize < 4294967296) :
    fields? [4, 2, 2, 2, 2, 4, 4, 2] (fields (endFields entrySize directorySize)).data.toList =
      some ([endSignature, 0, 0, 1, 1, directorySize, entrySize, 0], []) := by
  have hfit : ∀ field ∈ endFields entrySize directorySize, field.2 < 256 ^ field.1 := by
    simp only [endFields, List.mem_cons, List.not_mem_nil, or_false, forall_eq_or_imp, forall_eq,
      endSignature]
    omega
  have hread := fields?_fields hfit []
  rw [List.append_nil] at hread
  exact hread

/-- **An archive gives its entry back.** -/
theorem entries?_zip {text : String} (h : Fits name options content)
    (hname : Bytes.text? name.data.toList = some text) :
    entries? (zip name options content) = some [options.entry text content] := by
  have hdirectory : (directory name options content).size < 4294967296 := by
    have hsize := h.1
    rw [size_directory]
    omega
  have hbytes : (zip name options content).data.toList =
      (entryRecord name options.compression content).data.toList ++
        ((directory name options content).data.toList ++
          (fields (endFields (entryRecord name options.compression content).size
            (directory name options content).size)).data.toList) := by
    rw [zip, ByteArray.toList_data_append, ByteArray.toList_data_append, List.append_assoc]
  have hlength : (fields (endFields (entryRecord name options.compression content).size
      (directory name options content).size)).data.toList.length = endSize :=
    size_fields (endFields _ _)
  have hentry : (entryRecord name options.compression content).data.toList.length =
      (entryRecord name options.compression content).size := rfl
  unfold entries?
  dsimp only
  rw [hbytes, ← List.append_assoc, List.length_append, hlength, Nat.add_sub_cancel,
    List.drop_left, fields?_endFields h.2.2 hdirectory]
  dsimp only
  rw [if_pos rfl, List.append_assoc, ← hentry, List.drop_left]
  exact listed?_directory h hname _ _

/-! ## The library -/

/-- The library reads archives with `entries?`.  (As `rfl` this would evaluate the reader.) -/
theorem library_entries? : library.entries? = entries? := by
  simp only [library]

/-- An archive that the library has finished is read as the entry that was given. -/
theorem faithful_library : library.Faithful := by
  intro name options content data hfinish
  have hname : Bytes.text? name.toUTF8.data.toList = some name := Bytes.text?_ofText name
  by_cases hfits : Fits name.toUTF8 options content
  · have hdata : zip name.toUTF8 options content = data :=
      Except.ok.inj ((if_pos hfits).symm.trans hfinish)
    rw [← hdata, library_entries?]
    exact entries?_zip hfits hname
  · have hrefused := (if_neg hfits).symm.trans hfinish
    cases hrefused

/-- The library takes every entry whose numbers fit into their fields. -/
theorem accepts_library {name : String} (h : Fits name.toUTF8 options content) :
    library.Accepts name options content where
  starts := if_pos h.1
  copies := rfl
  finishes := ⟨zip name.toUTF8 options content, if_pos h⟩

example : crc32 "123456789".toUTF8 = 0xCBF43926 := by decide +kernel

end LambdaDeploy.Archive
