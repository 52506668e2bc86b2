import SelfDb.Loader.Authority

/-! The image rebuilt from the rows of a converted file, against that file. -/
namespace SelfDb
open Binary

/-- The `self_meta` values of a converted file. -/
def fileMeta (data : Bytes) : ImageMeta :=
  let h := imageEhdr data
  ⟨h.et, h.em, h.entry, h.phoff, h.eflags, entryCount data, h.osabi⟩

/-- An integer of `self_meta`, as the loaders read it. -/
theorem selfGetInt_converted (converted : Converted data db) (key : MetaKey) (named : key ≠ .interp)
    (same : metaTable (imageEhdr data) (entryCount data) none key = .integer v) :
    selfGetInt db.connect key = some v := by
  simp only [selfGetInt, Database.connect, converted.meta_ key named, same]
  rfl

theorem readMeta_converted (converted : Converted data db) :
    readMeta db.connect = some (fileMeta data) := by
  have value : ∀ key v, key ≠ .interp →
      metaTable (imageEhdr data) (entryCount data) none key = .integer v →
        selfGetInt db.connect key = some v :=
    fun key _ => selfGetInt_converted converted key
  simp only [readMeta, value .et _ (by decide) rfl, value .em _ (by decide) rfl,
    value .entry _ (by decide) rfl, value .phoff _ (by decide) rfl, value .eflags _ (by decide) rfl,
    value .phnum _ (by decide) rfl, value .osabi _ (by decide) rfl]
  rfl

theorem map_loadPhdr_converted (converted : Converted data db) :
    db.segments.rows.map loadPhdr = (imagePhdrs data).map loaded := by
  rw [converted.rows, map_loadPhdr_segmentRows 0 _ (imagePhdrs_flags_nonneg data)]

theorem rowPhdr_segmentRow (i : Nat) (p : Phdr) (low : 0 ≤ p.flags) :
    rowPhdr (segmentRow i p) = (loaded p).raw := by
  rw [rowPhdr, rowFlags, rwxFlags_segmentRow (fun _ => Iff.rfl) i p low]
  rfl

theorem entryWrites_converted (converted : Converted data db) (phoff : Int) :
    entryWrites phoff 0 db.segments.rows = tableWrites phoff 0 ((imagePhdrs data).map loaded) := by
  rw [entryWrites, tableWrites, converted.rows]
  congr 1
  apply List.ext_getElem?
  intro i
  simp only [List.getElem?_map, segmentRows_get, Option.map_map]
  cases found : (imagePhdrs data)[i]? with
  | none => rfl
  | some p =>
    have low := imagePhdrs_flags_nonneg data p (List.mem_of_getElem? found)
    simp only [Option.map_some, Function.comp_apply, rowPhdr_segmentRow i p low]

theorem contentWrites_converted (converted : Converted data db) :
    contentWrites db.segments.rows = fileWrites data := by
  rw [contentWrites, map_loadPhdr_converted converted, map_loaded_contentWrite]

theorem rows_length_converted (converted : Converted data db) :
    db.segments.rows.length = entryCount data := by
  have lengths := congrArg List.length (map_loadPhdr_converted converted)
  rwa [List.length_map, List.length_map, imagePhdrs_length] at lengths

theorem sizeT_of_lt {value : Int} (low : 0 ≤ value) (high : value < 2 ^ 64) :
    (sizeT value : Int) = value := by
  simp only [sizeT]
  omega

theorem sizeT_extent {R : SegmentRow} (stored : R.Stored) (offset : 0 ≤ R.offset)
    (filesz : 0 ≤ R.filesz) :
    (sizeT (R.offset + R.filesz) : Int) = R.offset + R.filesz := by
  have columns := stored.columns
  simp only [List.forall_mem_cons, Storable] at columns
  exact sizeT_of_lt (by omega) (by omega)

theorem natCast_foldl_max (values : List Nat) (start : Nat) :
    ((values.foldl max start : Nat) : Int) = (values.map Int.ofNat).foldl max (start : Int) := by
  induction values generalizing start with
  | nil => rfl
  | cons v rest ih =>
    rw [List.foldl_cons, ih, List.map_cons, List.foldl_cons]
    congr 1
    exact Nat.cast_max start v

/-- Without wrap-around both serializers arrive at one size. -/
theorem buildSize_eq_imageSize {m : ImageMeta} {rows : List SegmentRow}
    (stored : ∀ R ∈ rows, R.Stored) (ranges : ∀ R ∈ rows, 0 ≤ R.offset ∧ 0 ≤ R.filesz)
    (low : 0 ≤ m.phoff) (high : m.phoff < 2 ^ 63) (count : m.phnum = rows.length)
    (small : m.phnum < 2 ^ 16) :
    (buildSize m rows : Int) = imageSize m.phoff (rows.map loadPhdr) := by
  have table : (sizeT (m.phoff + m.phnum * phdrSize) : Int) = m.phoff + m.phnum * phdrSize := by
    apply sizeT_of_lt <;> simp only [phdrSize] <;> omega
  have extents : (rows.map fun R => sizeT (R.offset + R.filesz)).map Int.ofNat =
      (rows.map loadPhdr).map fun p => p.offset + p.filesz := by
    simp only [List.map_map]
    apply List.map_congr_left
    intro R member
    exact sizeT_extent (stored R member) (ranges R member).1 (ranges R member).2
  rw [buildSize, natCast_foldl_max, extents, Nat.cast_max, table, imageSize, List.length_map, count]

theorem entryCount_lt (elf : Elf64 data) : entryCount data < 2 ^ 16 := by
  have bound := readField_lt (show 56 + 2 ≤ data.length from le_trans (by decide) elf.header)
  simp only [entryCount, RawEhdr.read]
  omega

theorem ranges_converted (converted : Converted data db) :
    ∀ R ∈ db.segments.rows, 0 ≤ R.offset ∧ 0 ≤ R.filesz := by
  intro R member
  have listed := List.mem_map_of_mem (f := loadPhdr) member
  rw [map_loadPhdr_converted converted, List.mem_map] at listed
  obtain ⟨p, inner, same⟩ := listed
  obtain ⟨i, _, rfl⟩ := List.mem_map.mp inner
  have offset : R.offset = (entryAt data i).offset := congrArg Phdr.offset same.symm
  have filesz : R.filesz = (entryAt data i).filesz := congrArg Phdr.filesz same.symm
  rw [offset, filesz]
  exact ⟨readField_nonneg _ _ _, readField_nonneg _ _ _⟩

theorem buildSize_converted (converted : Converted data db) :
    (buildSize (fileMeta data) db.segments.rows : Int) = rebuiltSize data := by
  have stored := converted.stored
  simp only [MetaStorable, List.forall_mem_cons, Storable] at stored
  have bound := entryCount_lt converted.elf
  rw [buildSize_eq_imageSize db.segmentsStored (ranges_converted converted)
    (readField_nonneg _ _ _) stored.2.2.2.2.2.1.2 (by rw [rows_length_converted converted]; rfl)
    (by show (entryCount data : Int) < _; omega), map_loadPhdr_converted converted]
  exact imageSize_loaded data

/-- A file whose entries pass through the rows without a change. -/
structure Plain (data : Bytes) : Prop where
  loads : LoadsInside data
  paddr : ∀ i < entryCount data, (entryAt data i).paddr = (entryAt data i).vaddr
  flags : ∀ i < entryCount data, (entryAt data i).flags ≤ 7

/-- Entry `i` is packed into the bytes it was read from. -/
theorem Plain.entry_bytes (plain : Plain data) (elf : Elf64 data) (hi : i < entryCount data) :
    (loaded (imagePhdr data (entryAt data i))).raw.bytes = slice data
    (entryStart data i) phdrSize := by
  have low : 0 ≤ (entryAt data i).flags := readField_nonneg _ _ _
  have flags : (entryAt data i).flags % 8 = (entryAt data i).flags := by
    have := plain.flags i hi
    omega
  have paddr := plain.paddr i hi
  have raw : (loaded (imagePhdr data (entryAt data i))).raw = entryAt data i := by
    apply RawPhdr.ext_fields
    simp only [loaded, imagePhdr, Phdr.raw, RawPhdr.fields, flags, paddr]
  rw [raw]
  exact RawPhdr.bytes_read (elf.table i hi)

/-- Every table byte that is written is the byte of the file. -/
theorem Plain.table_byte (plain : Plain data) (elf : Elf64 data)
    (cover : lastCover (tableWrites (RawEhdr.read data).phoff 0 ((imagePhdrs data).map loaded)) p =
      some (i, b)) : data[p]? = some b := by
  obtain ⟨⟨w, atI, byte⟩, _⟩ := (lastCover_eq_some_iff _ _ _ _).mp cover
  rw [tableWrites, strided_get, Option.map_eq_some_iff] at atI
  obtain ⟨bytes, found, rfl⟩ := atI
  rw [List.getElem?_map, List.getElem?_map, imagePhdrs_get] at found
  split at found
  · simp only [Option.map_some, Option.some.injEq] at found
    obtain ⟨k, rfl, value⟩ := (Write.byteAt_eq_some_iff _ _ _).mp byte
    simp only [← found, plain.entry_bytes elf ‹_›, slice_get] at value
    split at value
    · rwa [Nat.zero_add, ← entryStart]
    · cases value
  · cases found

theorem laterOf_agree {first second : Option (Nat × α)} {b : α}
    (left : ∀ i c, first = some (i, c) → c = b) (right : ∃ j, second = some (j, b)) :
    laterOf first second = some b := by
  obtain ⟨j, rfl⟩ := right
  rcases first with _ | ⟨i, c⟩
  · rfl
  · cases left i c rfl
    simp [laterOf]

theorem Plain.covered {heap : Heap} (plain : Plain data) (converted : Converted data db)
    (built : selfBuildElf heap db.connect = .image img) (covered : Covered data k) :
    img[k]? = data[k]? := by
  have image := selfBuildElf_isBuilt (readMeta_converted converted) rfl built
  have inside := covered.lt plain.loads
  have value := List.getElem?_eq_getElem inside
  have content : ∃ j, lastCover (contentWrites db.segments.rows) k = some (j, data[k]) := by
    have byte := lastCover_value (fileWrites data) k
    rw [fileWrites_covered covered inside, value, Option.map_eq_some_iff] at byte
    obtain ⟨⟨j, b⟩, cover, rfl⟩ := byte
    rw [contentWrites_converted converted]
    exact ⟨j, cover⟩
  have table : ∀ i c, lastCover (entryWrites (fileMeta data).phoff 0 db.segments.rows) k =
      some (i, c) → c = data[k] := by
    intro i c cover
    rw [entryWrites_converted converted] at cover
    exact Option.some.inj ((plain.table_byte converted.elf cover).symm.trans value)
  rw [image.get, laterOf_agree table content, value]
  rfl

/-- The allocations of `self_build_elf` for the rows of a file. -/
structure Allocates (heap : Heap) (data : Bytes) : Prop where
  rows : heap.rows (max (entryCount data) 1 * rowSize) = true
  contents : ∀ i < entryCount data, heap.content i (entryAt data i).filesz.toNat = true
  image : heap.image (rebuiltSize data).toNat = true

theorem rowSlots_eq {heap : Heap} {count : Nat} (small : count < 2 ^ 32)
    (allocated : heap.rows (max count 1 * rowSize) = true) : rowSlots heap count = max count 1 := by
  have used : (if (count : Int) ≠ 0 then sizeT count else 1) = max count 1 := by
    split
    · have := sizeT_of_lt (show 0 ≤ (count : Int) by omega) (by omega)
      omega
    · omega
  have total : max count 1 * rowSize < 2 ^ 64 := by
    simp only [rowSize]
    omega
  show (if _ * rowSize < 2 ^ 64 ∧ heap.rows (_ * rowSize) then _ else 0) = _
  rw [used, if_pos ⟨total, allocated⟩]

/-- Row `i` of a converted file is made of entry `i`. -/
theorem row_converted (converted : Converted data db) (found : db.segments.rows[i]? = some R) :
    i < entryCount data ∧ R = segmentRow i (imagePhdr data (entryAt data i)) := by
  rw [converted.rows, segmentRows_get, imagePhdrs_get] at found
  split at found
  · exact ⟨‹_›, (Option.some.inj found).symm⟩
  · cases found

theorem content_converted (loads : LoadsInside data) (hi : i < entryCount data) {blob : Bytes}
    (found : (segmentRow i (imagePhdr data (entryAt data i))).content = some blob) :
    (blob.length : Int) = (entryAt data i).filesz := by
  have offset : 0 ≤ (entryAt data i).offset := readField_nonneg _ _ _
  have filesz : 0 ≤ (entryAt data i).filesz := readField_nonneg _ _ _
  simp only [segmentRow, imagePhdr] at found
  split at found
  · have inside := loads i hi ‹_›
    cases found
    rw [slice_length]
    omega
  · cases found

theorem selfBuildElf_exists {heap : Heap} (loads : LoadsInside data) (converted : Converted data db)
    (allocates : Allocates heap data) : ∃ img, selfBuildElf heap db.connect = .image img := by
  have count := entryCount_lt converted.elf
  have size := buildSize_converted converted
  have phoff : 0 ≤ (RawEhdr.read data).phoff := readField_nonneg _ _ _
  refine ⟨_, (selfBuildElf_eq_image_iff heap (readMeta_converted converted) rfl _).mpr
    ⟨?_, ?_, ?_, rfl⟩⟩
  · intro i R found
    obtain ⟨hi, rfl⟩ := row_converted converted found
    rw [fileMeta, rowSlots_eq (by omega) allocates.rows]
    refine ⟨by omega, ?_⟩
    intro blob held _
    have length := content_converted loads hi held
    rw [← allocates.contents i hi, ← length, Int.toNat_natCast]
  · rw [← allocates.image, ← size, Int.toNat_natCast]
  · intro i R found
    obtain ⟨hi, rfl⟩ := row_converted converted found
    have offset : 0 ≤ (entryAt data i).offset := readField_nonneg _ _ _
    have table : (RawEhdr.read data).phoff + entryCount data * phdrSize ≤ rebuiltSize data :=
      (le_max_right _ _).trans (le_foldl_max _ _).1
    have extent : (entryAt data i).offset + (entryAt data i).filesz ≤ rebuiltSize data :=
      (le_foldl_max _ _).2 _ (List.mem_map.mpr ⟨i, List.mem_range.mpr hi, rfl⟩)
    constructor
    · rw [EntryInside, size]
      show 0 ≤ (RawEhdr.read data).phoff + _ ∧ (RawEhdr.read data).phoff + _ + _ ≤ _
      simp only [phdrSize] at table ⊢
      omega
    · intro full
      rw [size]
      cases held : (segmentRow i (imagePhdr data (entryAt data i))).content with
      | none => simp [held] at full
      | some blob =>
        have length := content_converted loads hi held
        show 0 ≤ (entryAt data i).offset ∧ (entryAt data i).offset + (blob.length : Int) ≤ _
        omega

/-- Every byte that the kernel maps from the rebuilt image is the byte of the
file, and only an allocation can keep the image from being rebuilt. -/
theorem selfBuildElf_convert {lief : Except PyError LinkTables} {data : Bytes} {db : Database}
    (plain : Plain data) (converted : convert lief data = .ok db) (heap : Heap) :
    (∀ img, selfBuildElf heap db.connect = .image img → ∀ k, Covered data k → img[k]? = data[k]?) ∧
      (Allocates heap data → ∃ img, selfBuildElf heap db.connect = .image img) := by
  have sound := convert_sound converted
  exact ⟨fun img built k covered => plain.covered sound built covered,
    selfBuildElf_exists plain.loads sound⟩

theorem mappedFile_plain : Plain mappedFile :=
  ⟨mappedFile_wellFormed.loads, by decide +kernel, by decide +kernel⟩

theorem selfBuildElf_convert_mappedFile :
    ∃ x, convert (.ok .none) mappedFile = .ok x ∧
      (∀ img, selfBuildElf .ample x.connect = .image img →
        ∀ k, Covered mappedFile k → img[k]? = mappedFile[k]?) ∧
      (Allocates .ample mappedFile → ∃ img, selfBuildElf .ample x.connect = .image img) := by
  obtain ⟨x, converted⟩ := mappedFile_converted
  exact ⟨x, converted, selfBuildElf_convert mappedFile_plain converted .ample⟩

end SelfDb
