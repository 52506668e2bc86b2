import SelfDb.Selfconv.ImageProofs

/-! Round trips through the converters: images that are parsed again, files that
go through a database, and databases that go through a file. -/
namespace SelfDb
open Binary

def InRange (start count : Int) (k : Nat) : Prop := start ≤ k ∧ (k : Int) < start + count

instance (start count : Int) (k : Nat) : Decidable (InRange start count k) :=
  inferInstanceAs (Decidable (_ ∧ _))

/-- PT_LOAD entries carry `filesz` bytes, the others no content. -/
def LoadContents (phdrs : List Phdr) : Prop :=
  ∀ p ∈ phdrs, if p.ptype = ptLoad then ∃ bytes, p.content = some bytes ∧
    (bytes.length : Int) = p.filesz
    else p.content = none

/-- No byte of entry `i` is in the header, in the table or in a later PT_LOAD range. -/
def Undisturbed (ehdr : Ehdr) (phdrs : List Phdr) (i : Nat) (p : Phdr) : Prop :=
  ∀ k, InRange p.offset p.filesz k → ¬ InRange 0 ehdrSize k ∧
    ¬ InRange ehdr.phoff (phdrs.length * phdrSize) k ∧
    ∀ j q, i < j → phdrs[j]? = some q → q.ptype = ptLoad → ¬ InRange q.offset q.filesz k

theorem Phdr.offset_nonneg (p : Phdr) (fields : Representable p.raw.fields) : 0 ≤ p.offset :=
  (fields (8, p.offset) (by simp [RawPhdr.fields, Phdr.raw])).1

theorem LoadContents.sized {phdrs : List Phdr} (contents : LoadContents phdrs)
    (fields : PhdrsFit phdrs) : ∀ p ∈ phdrs, ContentSized p := by
  intro p member content found
  have offset := p.offset_nonneg (fields p member)
  have shape := contents p member
  split at shape
  · obtain ⟨bytes, same, size⟩ := shape
    cases Option.some.inj (found.symm.trans same)
    exact ⟨offset, size⟩
  · cases found.symm.trans shape

/-- A content write covers exactly the file range of its PT_LOAD entry. -/
theorem contentWrite_uncovered {phdrs : List Phdr} (contents : LoadContents phdrs)
    (fields : PhdrsFit phdrs) {p : Phdr} (member : p ∈ phdrs) {k : Nat}
    (outside : p.ptype = ptLoad → ¬ InRange p.offset p.filesz k) :
    (contentWrite p).byteAt k = none := by
  have shape := contents p member
  have low := p.offset_nonneg (fields p member)
  rw [Write.byteAt_eq_none_iff]
  split at shape
  · obtain ⟨bytes, found, size⟩ := shape
    have away := outside ‹_›
    simp only [InRange] at away
    simp only [contentWrite, Write.stop, found, Option.getD_some]
    omega
  · simp only [contentWrite, Write.stop, shape, Option.getD_none, List.length_nil]
    omega

/-- The content of an undisturbed entry is in the image as it was written. -/
theorem IsImage.undisturbed {ehdr : Ehdr} {phdrs : List Phdr} {img : Bytes}
    (image : IsImage ehdr phdrs img) (contents : LoadContents phdrs) (fields : PhdrsFit phdrs)
    (low : 0 ≤ ehdr.phoff) {i : Nat} {p : Phdr} (found : phdrs[i]? = some p) {bytes : Bytes}
    (content : p.content = some bytes) (size : (bytes.length : Int) = p.filesz)
    (undisturbed : Undisturbed ehdr phdrs i p) : slice img p.offset.toNat bytes.length = bytes := by
  have offset := p.offset_nonneg (fields p (List.mem_of_getElem? found))
  rw [slice_eq_iff]
  intro k small
  obtain ⟨past, outside, later⟩ := undisturbed (p.offset.toNat + k) (by
    simp only [InRange]
    omega)
  have cover : lastCover (phdrs.map contentWrite) (p.offset.toNat + k) = some (i, bytes[k]) := by
    rw [lastCover_eq_some_iff]
    refine ⟨⟨contentWrite p, by rw [List.getElem?_map, found]; rfl, ?_⟩, ?_⟩
    · show (⟨p.offset.toNat, p.content.getD []⟩ : Write UInt8).byteAt _ = _
      rw [content, Option.getD_some, Write.byteAt_add ⟨p.offset.toNat, bytes⟩ k]
      exact List.getElem?_eq_getElem small
    · intro j w above atJ
      rw [List.getElem?_map, Option.map_eq_some_iff] at atJ
      obtain ⟨q, atJ, rfl⟩ := atJ
      exact contentWrite_uncovered contents fields (List.mem_of_getElem? atJ) (later j q above atJ)
  simp only [InRange] at past outside
  rw [image.content (by omega) (by omega), ← lastCover_value, cover, List.getElem?_eq_getElem small]
  rfl

/-- `parse_image` undoes `serialize_image`, up to the contents that the header,
the table or a later content has overwritten. -/
theorem parseImage_serializeImage {memory : Nat → Bool} {ehdr : Ehdr} {phdrs : List Phdr}
    (nonempty : phdrs ≠ []) (fits : EhdrFits ehdr phdrs.length) (fields : PhdrsFit phdrs)
    (phentsize : ehdr.phentsize = .integer phdrSize) (phnum : ehdr.phnum = .integer phdrs.length)
    (above : ehdrSize ≤ ehdr.phoff) (contents : LoadContents phdrs)
    (allocated : memory (imageSize ehdr.phoff phdrs).toNat = true) :
    ∃ img parsed, serializeImage memory ehdr phdrs = .ok img ∧ parseImage img = .ok (ehdr, parsed) ∧
      parsed.length = phdrs.length ∧ ∀ i p q, phdrs[i]? = some p → parsed[i]? = some q →
        q = { p with content := q.content } ∧
          (p.ptype = ptLoad → Undisturbed ehdr phdrs i p → q.content = p.content) := by
  have sized := contents.sized fields
  obtain ⟨_, serialized⟩ := serializeImage_sized nonempty allocated fits fields sized
  have image := serializeImage_isImage sized serialized
  obtain ⟨elf, head, entries⟩ := image.parse above fits fields
  refine ⟨_, _, serialized, (parseImage_eq_ok_iff _ ehdr _).mpr ⟨elf, ?_, rfl⟩, ?_, ?_⟩
  · rw [head, ← phentsize, ← phnum]
  · rw [entries, List.length_map]
  · intro i p q atI parsed
    rw [entries, List.getElem?_map, atI, Option.map_some] at parsed
    cases parsed
    refine ⟨rfl, ?_⟩
    intro isLoad undisturbed
    have shape := contents p (List.mem_of_getElem? atI)
    rw [if_pos isLoad] at shape
    obtain ⟨bytes, content, size⟩ := shape
    have held := image.undisturbed contents fields (by omega) atI content size undisturbed
    rw [content]
    show (if p.ptype = ptLoad then some (slice _ p.offset.toNat p.filesz.toNat) else none) =
      some bytes
    rw [if_pos isLoad, ← size, Int.toNat_natCast, held]

def overlappingEhdr : Ehdr := ⟨2, emX86_64, 0x400000, ehdrSize, 0, .integer phdrSize, .integer 3, 0⟩

/-- The second content covers the end of the first. -/
def overlappingPhdrs : List Phdr :=
  [⟨ptLoad, 5, 232, 0x400000, 4, 4, 1, some [1, 2, 3, 4]⟩,
    ⟨ptLoad, 6, 234, 0x401002, 4, 8, 1, some [5, 6, 7, 8]⟩, ⟨4, 4, 236, 0x401004, 2, 2, 1, none⟩]

theorem parseImage_serializeImage_overlapping :
    ∃ img parsed, serializeImage (fun _ => true) overlappingEhdr overlappingPhdrs = .ok img ∧
      parseImage img = .ok (overlappingEhdr, parsed) ∧
      parsed.length = overlappingPhdrs.length ∧
      ∀ i p q, overlappingPhdrs[i]? = some p → parsed[i]? = some q →
        q = { p with content := q.content } ∧
          (p.ptype = ptLoad → Undisturbed overlappingEhdr overlappingPhdrs i p →
            q.content = p.content) :=
  parseImage_serializeImage (by decide) (by decide) (by decide) rfl rfl (by decide)
    (by simp [LoadContents, overlappingPhdrs, ptLoad]) rfl

/-! From a file to its rows and back to an image. -/

def LoadsInside (data : Bytes) : Prop :=
  ∀ i < entryCount data, (entryAt data i).type = ptLoad →
    (entryAt data i).offset + (entryAt data i).filesz ≤ data.length

instance (data : Bytes) : Decidable (LoadsInside data) :=
  inferInstanceAs (Decidable (∀ _ < _, _ → _))

/-- The files the round trips are about. That the fields are below 2^63 is
checked by the conversion itself. -/
structure WellFormed (data : Bytes) : Prop where
  nonempty : 0 < entryCount data
  above : ehdrSize ≤ (RawEhdr.read data).phoff
  loads : LoadsInside data

/-- File positions that some PT_LOAD range covers. -/
def Covered (data : Bytes) (k : Nat) : Prop :=
  ∃ i < entryCount data, (entryAt data i).type = ptLoad ∧
    InRange (entryAt data i).offset (entryAt data i).filesz k

theorem Covered.lt (covered : Covered data k) (loads : LoadsInside data) : k < data.length := by
  obtain ⟨i, hi, isLoad, range⟩ := covered
  have inside := loads i hi isLoad
  simp only [InRange] at range
  omega

/-- The content writes of the rows of a file. -/
def fileWrites (data : Bytes) : List (Write UInt8) := (imagePhdrs data).map contentWrite

theorem map_loaded_contentWrite (data : Bytes) :
    ((imagePhdrs data).map loaded).map contentWrite = fileWrites data := by
  rw [List.map_map]
  rfl

theorem mem_fileWrites (data : Bytes) (w : Write UInt8) :
    w ∈ fileWrites data ↔
      ∃ i < entryCount data, w = contentWrite (imagePhdr data (entryAt data i)) := by
  simp [fileWrites, imagePhdrs, eq_comm]

theorem imagePhdr_byteAt (data : Bytes) (i k : Nat) :
    (contentWrite (imagePhdr data (entryAt data i))).byteAt k =
      if (entryAt data i).type = ptLoad ∧ InRange (entryAt data i).offset (entryAt data i).filesz k
        then data[k]? else none := by
  have offset : 0 ≤ (entryAt data i).offset := readField_nonneg _ _ _
  have filesz : 0 ≤ (entryAt data i).filesz := readField_nonneg _ _ _
  by_cases isLoad : (entryAt data i).type = ptLoad
  · have content : contentWrite (imagePhdr data (entryAt data i)) =
        ⟨(entryAt data i).offset.toNat,
          slice data (entryAt data i).offset.toNat (entryAt data i).filesz.toNat⟩ := by
      simp [contentWrite, imagePhdr, isLoad]
    simp only [content, Write.byteAt, slice_get, isLoad, true_and, InRange]
    by_cases start : (entryAt data i).offset.toNat ≤ k
    · rw [if_pos start, show (entryAt data i).offset.toNat + (k - (entryAt data i).offset.toNat) =
        k by
        omega]
      exact if_congr (by omega) rfl rfl
    · rw [if_neg start, if_neg (by omega)]
  · simp [contentWrite, imagePhdr, Write.byteAt, isLoad]

/-- All contents are slices of one file, so they agree wherever they overlap. -/
theorem fileWrites_covered {data : Bytes} {k : Nat} (covered : Covered data k)
    (inside : k < data.length) : lastByte (fileWrites data) k = data[k]? := by
  have value := List.getElem?_eq_getElem inside
  rw [value]
  apply lastByte_agree
  · intro w member c found
    obtain ⟨i, _, rfl⟩ := (mem_fileWrites data w).mp member
    rw [imagePhdr_byteAt] at found
    split at found
    · exact (Option.some.inj (value.symm.trans found)).symm
    · cases found
  · obtain ⟨i, hi, load⟩ := covered
    refine ⟨_, (mem_fileWrites data _).mpr ⟨i, hi, rfl⟩, ?_⟩
    rw [imagePhdr_byteAt, if_pos load, value]
    exact Option.some_ne_none _

theorem fileWrites_uncovered {data : Bytes} {k : Nat} (uncovered : ¬ Covered data k) :
    lastByte (fileWrites data) k = none := by
  rw [lastByte_eq_none_iff]
  intro w member
  obtain ⟨i, hi, rfl⟩ := (mem_fileWrites data w).mp member
  rw [imagePhdr_byteAt, if_neg fun load => uncovered ⟨i, hi, load⟩]

theorem imageEhdr_fits {data : Bytes} (elf : Elf64 data) :
    EhdrFits (loadedEhdr data) (entryCount data) := by
  have fields := RawEhdr.read_representable elf.header
  have count : (entryCount data : Int) = (RawEhdr.read data).phnum :=
    Int.toNat_of_nonneg (readField_nonneg _ _ _)
  constructor
  · have small := (data[7]?.getD 0).toNat_lt
    show 0 ≤ ((data[7]?.getD 0).toNat : Int) ∧ ((data[7]?.getD 0).toNat : Int) < 256
    omega
  · simp only [Representable, RawEhdr.fields, List.forall_mem_cons, List.not_mem_nil,
      false_implies, implies_true, and_true] at fields ⊢
    simp only [Ehdr.raw, loadedEhdr, imageEhdr, count, fields, true_and]
    decide

theorem loaded_fits {data : Bytes} (elf : Elf64 data) :
    PhdrsFit ((imagePhdrs data).map loaded) := by
  intro p member
  obtain ⟨q, listed, rfl⟩ := List.mem_map.mp member
  obtain ⟨i, hi, rfl⟩ := List.mem_map.mp listed
  have fields := RawPhdr.read_representable (elf.table i (List.mem_range.mp hi))
  have flags : 0 ≤ (entryAt data i).flags % 8 ∧ (entryAt data i).flags % 8 < 256 ^ 4 := by omega
  simp only [Representable, RawPhdr.fields, List.forall_mem_cons, List.not_mem_nil,
    false_implies, implies_true, and_true] at fields ⊢
  exact ⟨fields.1, flags, fields.2.2.1, fields.2.2.2.1, fields.2.2.2.1, fields.2.2.2.2.2⟩

theorem loaded_contents {data : Bytes} (file : WellFormed data) :
    LoadContents ((imagePhdrs data).map loaded) := by
  intro p member
  obtain ⟨q, listed, rfl⟩ := List.mem_map.mp member
  obtain ⟨i, hi, rfl⟩ := List.mem_map.mp listed
  show if (entryAt data i).type = ptLoad then _ else _
  have offset : 0 ≤ (entryAt data i).offset := readField_nonneg _ _ _
  have filesz : 0 ≤ (entryAt data i).filesz := readField_nonneg _ _ _
  by_cases isLoad : (entryAt data i).type = ptLoad
  · have inside := file.loads i (List.mem_range.mp hi) isLoad
    rw [if_pos isLoad]
    refine ⟨slice data (entryAt data i).offset.toNat (entryAt data i).filesz.toNat, ?_, ?_⟩
    · simp [loaded, imagePhdr, isLoad]
    · rw [slice_length]
      show _ = (entryAt data i).filesz
      omega
  · rw [if_neg isLoad]
    simp [loaded, imagePhdr, isLoad]

/-- The header and the table, which self2elf generates anew. -/
def Regenerated (data : Bytes) (k : Nat) : Prop :=
  InRange 0 ehdrSize k ∨ InRange (RawEhdr.read data).phoff (entryCount data * phdrSize) k

/-- `max(64, phoff + 56 * phnum, max(offset + filesz))` over the entries. -/
def rebuiltSize (data : Bytes) : Int :=
  ((List.range (entryCount data)).map fun i =>
    (entryAt data i).offset + (entryAt data i).filesz).foldl
    max (max ehdrSize ((RawEhdr.read data).phoff + entryCount data * phdrSize))

/-- What self2elf makes of the rows of a file. -/
structure Rebuilt (data img : Bytes) : Prop where
  length : (img.length : Int) = rebuiltSize data
  covered : ∀ k, Covered data k → ¬ Regenerated data k → img[k]? = data[k]?
  uncovered : ∀ k < img.length, ¬ Covered data k → ¬ Regenerated data k → img[k]? = some 0
  ehdr : RawEhdr.read img = { RawEhdr.read data with
    ident := elfMagic ++ [2, 1, 1, data[7]?.getD 0] ++ List.replicate 8 0
    version := 1
    shoff := 0
    ehsize := ehdrSize
    phentsize := phdrSize
    shentsize := 0
    shnum := 0
    shstrndx := 0 }
  entries : ∀ i < entryCount data, RawPhdr.read img (entryStart data i) =
    { entryAt data i with paddr := (entryAt data i).vaddr, flags := (entryAt data i).flags % 8 }

theorem self2elf_converted (memory : Nat → Bool) (converted : Converted data db) :
    self2elf memory db = serializeImage memory (loadedEhdr data)
      ((imagePhdrs data).map loaded) := by
  rw [self2elf, loadImage_converted converted]
  rfl

theorem imageSize_loaded (data : Bytes) :
    imageSize (loadedEhdr data).phoff ((imagePhdrs data).map loaded) = rebuiltSize data := by
  simp only [imageSize, rebuiltSize, imagePhdrs, List.map_map, List.length_map, List.length_range]
  rfl

/-- The image of a converted file; the conversion has checked all of its fields. -/
theorem rebuilt_isImage {memory : Nat → Bool} (file : WellFormed data)
    (converted : Converted data db) (result : self2elf memory db = .ok img) :
    IsImage (loadedEhdr data) ((imagePhdrs data).map loaded) img := by
  rw [self2elf_converted memory converted] at result
  exact serializeImage_isImage
    ((loaded_contents file).sized (loaded_fits converted.elf)) result

theorem rebuilt_exists {memory : Nat → Bool} (file : WellFormed data)
    (converted : Converted data db)
    (allocated : memory (rebuiltSize data).toNat = true) : ∃ img, self2elf memory db = .ok img := by
  have count := loaded_length data
  have fields := loaded_fits converted.elf
  rw [self2elf_converted memory converted]
  refine ⟨_, (serializeImage_sized ?_ ?_ ?_ fields ((loaded_contents file).sized fields)).2⟩
  · exact List.ne_nil_of_length_pos (count ▸ file.nonempty)
  · rw [imageSize_loaded, allocated]
  · rw [count]
    exact imageEhdr_fits converted.elf

theorem rebuilt_fields (file : WellFormed data) (elf : Elf64 data)
    (image : IsImage (loadedEhdr data) ((imagePhdrs data).map loaded) img) : Rebuilt data img := by
  have count := loaded_length data
  have above : (ehdrSize : Int) ≤ (loadedEhdr data).phoff := file.above
  have away : ∀ k, ¬ Regenerated data k → ehdrSize ≤ k ∧
      (k < (loadedEhdr data).phoff.toNat ∨
        (loadedEhdr data).phoff.toNat + ((imagePhdrs data).map loaded).length * phdrSize ≤ k) := by
    intro k outside
    rw [count]
    simp only [Regenerated, InRange] at outside
    simp only [loadedEhdr, imageEhdr] at above ⊢
    omega
  have size := image.length
  rw [imageSize_loaded] at size
  refine ⟨size, ?_, ?_, ?_, ?_⟩
  · intro k covered outside
    obtain ⟨past, table⟩ := away k outside
    have inside := covered.lt file.loads
    rw [image.content past table, map_loaded_contentWrite, fileWrites_covered covered inside,
      List.getElem?_eq_getElem inside]
    rfl
  · intro k inside uncovered outside
    obtain ⟨past, table⟩ := away k outside
    rw [image.content past table, map_loaded_contentWrite, fileWrites_uncovered uncovered,
      if_pos inside]
    rfl
  · have phnum : ((entryCount data : Nat) : Int) = (RawEhdr.read data).phnum :=
      Int.toNat_of_nonneg (readField_nonneg _ _ _)
    rw [image.read_header above (count ▸ imageEhdr_fits elf), count]
    simp only [Ehdr.raw, loadedEhdr, imageEhdr, phnum, Int.toNat_natCast, UInt8.ofNat_toNat]
  · intro i hi
    have found : ((imagePhdrs data).map loaded)[i]? =
        some (loaded (imagePhdr data (entryAt data i))) := by
      rw [List.getElem?_map, imagePhdrs_get, if_pos hi]
      rfl
    exact image.read_entry (loaded_fits elf) found

/-- Every conversion that completes can be undone, up to the bytes that
self2elf generates and those that no PT_LOAD range covers. -/
theorem self2elf_convert {memory : Nat → Bool} {lief : Except PyError LinkTables} {data : Bytes}
    {db : Database} (file : WellFormed data) (converted : convert lief data = .ok db)
    (allocated : memory (rebuiltSize data).toNat = true) :
    ∃ img, self2elf memory db = .ok img ∧ Rebuilt data img := by
  have sound := convert_sound converted
  obtain ⟨img, result⟩ := rebuilt_exists file sound allocated
  exact ⟨img, result, rebuilt_fields file sound.elf (rebuilt_isImage file sound result)⟩

/-- A file with one program header and nothing else. -/
def oneEntryFile (shoff : Int) (entry : RawPhdr) : Bytes :=
  let ehdr : RawEhdr := {
    ident := elfMagic ++ [2, 1, 1, 0] ++ List.replicate 8 0
    type := etDyn
    machine := emX86_64
    version := 1
    entry := 0
    phoff := ehdrSize
    shoff := shoff
    flags := 0
    ehsize := ehdrSize
    phentsize := phdrSize
    phnum := 1
    shentsize := 0
    shnum := 0
    shstrndx := 0 }
  ehdr.bytes ++ entry.bytes

/-- A PT_LOAD entry maps the whole file, with its section header offset. -/
def mappedFile : Bytes := oneEntryFile 0x1000 ⟨ptLoad, 5, 0, 0, 0, 120, 120, 0x1000⟩

theorem mappedFile_wellFormed : WellFormed mappedFile :=
  ⟨by decide +kernel, by decide +kernel, by decide +kernel⟩

theorem mappedFile_converted : ∃ x, convert (.ok .none) mappedFile = .ok x :=
  convert_complete .none
    ⟨by decide +kernel, by decide +kernel, by decide +kernel, by decide +kernel, by decide +kernel⟩
    (by decide +kernel) (by decide +kernel)

theorem self2elf_convert_mappedFile :
    ∃ x, convert (.ok .none) mappedFile = .ok x ∧
      ∃ img, self2elf (fun _ => true) x = .ok img ∧ Rebuilt mappedFile img := by
  obtain ⟨x, converted⟩ := mappedFile_converted
  exact ⟨x, converted, self2elf_convert mappedFile_wellFormed converted rfl⟩

end SelfDb
