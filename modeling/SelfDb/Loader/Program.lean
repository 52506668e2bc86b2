import SelfDb.Loader.AtPhdr

/-! The program that a file describes, and what each of the three ways to run its database makes
of it: the rebuilt image, `map_program` and `map_object`. -/
namespace SelfDb
open Paging Binary

/-- The program headers put the byte `b` at `u`: from the file, or zero behind its content. -/
def Puts (data : Bytes) (u : Nat) (b : UInt8) : Prop :=
  ∃ i < entryCount data, (entryAt data i).type = ptLoad ∧
    ∃ k < (entryAt data i).memsz.toNat, u = (entryAt data i).vaddr.toNat + k ∧
      if k < (entryAt data i).filesz.toNat then data[(entryAt data i).offset.toNat + k]? = some b
      else b = 0

/-- What `execve` reads of a file is the same in both. -/
structure SameProgram (data img : Bytes) : Prop where
  type : (RawEhdr.read img).type = (RawEhdr.read data).type
  machine : (RawEhdr.read img).machine = (RawEhdr.read data).machine
  entry : (RawEhdr.read img).entry = (RawEhdr.read data).entry
  count : entryCount img = entryCount data
  entries : ∀ i < entryCount data, entryAt img i = entryAt data i
  bytes : ∀ u b, Puts img u b ↔ Puts data u b

/-- The program of the file is in memory, moved by `bias`, and begins at `entry`. -/
structure LoadedAt (data : Bytes) (bias entry : Nat) (mem : Memory) : Prop where
  bytes : ∀ u b, Puts data u b → mem.byte (wrap (bias + u)) = b
  entry : entry = wrap (bias + (RawEhdr.read data).entry.toNat)

/-! The rebuilt image. -/

/-- Position and width of e_type, e_machine, e_entry, e_phoff and e_phnum. -/
def programSpans : List (Nat × Nat) := [(16, 2), (18, 2), (24, 8), (32, 8), (56, 2)]

theorem fileMeta_fits (elf : Elf64 data) : Representable (fileMeta data).header.fields := by
  have fields := (imageEhdr_fits elf).2
  simp only [Representable, RawEhdr.fields, List.forall_mem_cons, List.not_mem_nil,
    false_implies, implies_true, and_true] at fields ⊢
  exact fields

/-- The header of a run has these fields of the file. -/
theorem header_fields (elf : Elf64 data) : ∀ span ∈ programSpans,
    readField data (0 + span.1) span.2 = readField (fileMeta data).header.bytes span.1 span.2 := by
  have read : RawEhdr.read (fileMeta data).header.bytes = (fileMeta data).header :=
    RawEhdr.read_of_slice rfl (fileMeta_fits elf) (by
      rw [← (fileMeta data).header_bytes_length]
      simp [slice])
  have count : (entryCount data : Int) = (RawEhdr.read data).phnum :=
    Int.toNat_of_nonneg (readField_nonneg _ _ _)
  have type := congrArg RawEhdr.type read
  have machine := congrArg RawEhdr.machine read
  have entry := congrArg RawEhdr.entry read
  have phoff := congrArg RawEhdr.phoff read
  have phnum := congrArg RawEhdr.phnum read
  simp only [programSpans, List.forall_mem_cons, List.not_mem_nil, false_implies, implies_true,
    and_true, Nat.zero_add]
  exact ⟨type.symm, machine.symm, entry.symm, phoff.symm, (phnum.trans count).symm⟩

/-- A content that covers a byte of the image brings the byte of the file. -/
theorem survives_converted (plain : Plain data) (converted : Converted data db) {b : UInt8}
    (here : data[p]? = some b) (i : Nat) : Survives db.segments.rows i p b := by
  intro j c cover _
  rw [contentWrites_converted converted] at cover
  have value := lastCover_value (fileWrites data) p
  rw [cover] at value
  by_cases covered : Covered data p
  · rw [fileWrites_covered covered (covered.lt plain.loads), here] at value
    exact Option.some.inj value
  · rw [fileWrites_uncovered covered] at value
    cases value

/-- The image keeps what `execve` reads of the header. -/
theorem header_rebuilt {heap : Heap} (plain : Plain data)
    (above : ehdrSize ≤ (RawEhdr.read data).phoff)
    (converted : Converted data db) (built : selfBuildElf heap db.connect = .image img) :
    ∀ span ∈ programSpans, readField img (0 + span.1) span.2 =
      readField data (0 + span.1) span.2 := by
  have elf := converted.elf
  have image := selfBuildElf_isBuilt (readMeta_converted converted) rfl built
  have length := (fileMeta data).header_bytes_length
  have inside : ∀ span ∈ programSpans, span.1 + span.2 ≤ (fileMeta data).header.bytes.length := by
    rw [length]
    decide
  have agree := (fields_eq_iff inside (by rw [length, Nat.zero_add]; exact elf.header)).mp
    (header_fields elf)
  intro span member
  rw [header_fields elf span member]
  refine (fields_eq_iff inside (by rw [length, Nat.zero_add]; exact image.header_inside)).mpr
    (fun span member k small b value => ?_) span member
  have here := agree span member k small b value
  rw [Nat.zero_add] at here ⊢
  exact (image.header_get_iff above value).mpr (survives_converted plain converted here 0)

/-- And the whole table. -/
theorem entry_rebuilt {heap : Heap} (plain : Plain data) (converted : Converted data db)
    (built : selfBuildElf heap db.connect = .image img) (inside : i < entryCount data) :
    RawPhdr.read img (entryStart data i) = entryAt data i := by
  have elf := converted.elf
  have image := selfBuildElf_isBuilt (readMeta_converted converted) rfl built
  have phoff : 0 ≤ (RawEhdr.read data).phoff := readField_nonneg ..
  have flags : 0 ≤ (entryAt data i).flags := readField_nonneg ..
  have found : db.segments.rows[i]? = some (segmentRow i (imagePhdr data (entryAt data i))) := by
    rw [converted.rows, segmentRows_get, imagePhdrs_get, if_pos inside]
    rfl
  have bytes : (rowPhdr (segmentRow i (imagePhdr data (entryAt data i)))).bytes =
      slice data (entryStart data i) phdrSize := by
    rw [← plain.entry_bytes elf inside, ← loadPhdr_segmentRow i _ flags]
    rfl
  have room := elf.table i inside
  have room' := image.entry_inside (List.getElem?_eq_some_iff.mp found).1 phoff
  have length : (slice data (entryStart data i) phdrSize).length = phdrSize := by
    rw [slice_length]
    omega
  have kept : ∀ k < (slice data (entryStart data i) phdrSize).length,
      img[entryStart data i + k]? = (slice data (entryStart data i) phdrSize)[k]? := by
    intro k small
    have value := List.getElem?_eq_getElem small
    have here := value
    rw [slice_get, if_pos (small.trans_eq length)] at here
    rw [value]
    exact (image.entry_get_iff found ((congrArg (·[k]?) bytes).trans value)).mpr
      (survives_converted plain converted here i)
  have same := (slice_eq_iff _ _ _).mpr kept
  rw [length] at same
  have reads : ∀ file : Bytes, entryStart data i + phdrSize ≤ file.length →
      RawPhdr.read (slice file (entryStart data i) phdrSize) 0 =
        RawPhdr.read file (entryStart data i) :=
    fun file room => read_slice (Nat.zero_add phdrSize).le room
  rw [entryAt, ← reads img room', same, reads data room]

/-- `execve` finds the program of the file in the image that is rebuilt from its rows. -/
theorem selfBuildElf_program {heap : Heap} (plain : Plain data)
    (above : ehdrSize ≤ (RawEhdr.read data).phoff) (converted : Converted data db)
    (built : selfBuildElf heap db.connect = .image img) : SameProgram data img := by
  have header := header_rebuilt plain above converted built
  simp only [programSpans, List.forall_mem_cons, List.not_mem_nil, false_implies, implies_true,
    and_true, Nat.zero_add] at header
  obtain ⟨type, machine, entry, phoff, phnum⟩ := header
  have count : entryCount img = entryCount data := congrArg Int.toNat phnum
  have entries : ∀ i < entryCount data, entryAt img i = entryAt data i := by
    intro i inside
    rw [entryAt, entryStart]
    have start : (RawEhdr.read img).phoff = (RawEhdr.read data).phoff := phoff
    rw [start]
    exact entry_rebuilt plain converted built inside
  refine ⟨type, machine, entry, count, entries, fun u b => ?_⟩
  rw [Puts, Puts, count]
  refine exists_congr fun i => and_congr_right fun inside => ?_
  rw [entries i inside]
  refine and_congr_right fun load => exists_congr fun k => and_congr_right fun _ =>
    and_congr_right fun _ => ?_
  split
  · next within =>
    have offset : 0 ≤ (entryAt data i).offset := readField_nonneg ..
    have covered : Covered data ((entryAt data i).offset.toNat + k) := by
      refine ⟨i, inside, load, ?_⟩
      rw [InRange]
      omega
    rw [plain.covered converted built covered]
  · rfl

/-! The two mapping loops. -/

/-- What one row puts at an address no other row does. -/
theorem imageByte_of_byteIn {rows : List SegmentRow} (loadable : ∀ R ∈ rows, R.Loadable)
    (apart : rows.Pairwise fun R Q => ∀ u, ¬ (OnPages R.start R.size u ∧ OnPages Q.start Q.size u))
    (member : R ∈ rows) (found : R.byteIn u = some b) : imageByte rows u = some b := by
  have exclusive : (rows.map SegmentRow.byteIn).Pairwise Exclusive := by
    rw [List.pairwise_map]
    refine List.Pairwise.imp_of_mem (fun {R Q} first second distinct u => ?_) apart
    by_contra both
    rw [not_or] at both
    exact distinct (wrap u) ⟨onPages_of_byteIn (loadable R first) both.1,
      onPages_of_byteIn (loadable Q second) both.2⟩
  rw [imageByte, lastAt_of_exclusive exclusive]
  exact ⟨R.byteIn, List.mem_map_of_mem member, found⟩

/-- Behind its content a row is zero. -/
theorem byteIn_zero {R : SegmentRow} (loadable : R.Loadable) (past : R.bytes.length ≤ k)
    (inside : k < R.size) : R.byteIn (R.start + k) = some 0 := by
  obtain ⟨vaddr, filesz, memsz⟩ := loadable.words
  obtain ⟨start, size, fits⟩ := loadable.bounds
  have down := alignDown_le R.start
  have up := le_pageCeil (R.start + R.size)
  have index : sub64 (wrap (R.start + k)) R.start = k := by
    simp only [sub64, wrap]
    omega
  have within : sub64 (wrap (R.start + k)) (alignDown R.start) <
      pageCeil (R.start + R.size) - alignDown R.start := by
    simp only [sub64, wrap]
    omega
  rw [SegmentRow.byteIn, vaddr, filesz, memsz, List.take_length, index,
    List.getElem?_eq_none_iff.mpr past, Option.none_or, segment_pages size, if_pos within]

/-- The rows put what the program headers of the file do. -/
theorem imageByte_of_puts (converted : convert lief data = .ok db) (sound : LoadsApart data)
    (puts : Puts data u b) : imageByte db.loadRows u = some b := by
  obtain ⟨i, inside, load, k, small, rfl, value⟩ := puts
  have member := loadRows_converted_mem converted inside load
  have loadable := loadable_converted converted sound
  refine imageByte_of_byteIn loadable (rowsApart_converted converted sound) member ?_
  have content := bytes_segmentRow data load i
  have fits := sound.inside i inside load
  have offset : 0 ≤ (entryAt data i).offset := readField_nonneg ..
  have filesz : 0 ≤ (entryAt data i).filesz := readField_nonneg ..
  have length : (segmentRow i (imagePhdr data (entryAt data i))).bytes.length =
      (entryAt data i).filesz.toNat := by
    rw [content, slice_length]
    omega
  change (segmentRow i (imagePhdr data (entryAt data i))).byteIn
    ((segmentRow i (imagePhdr data (entryAt data i))).start + k) = some b
  split at value
  · next within =>
    rw [byteIn_content (loadable _ member) (within.trans_eq length.symm), content, slice_get,
      if_pos within, value]
  · next past =>
    rw [byteIn_zero (loadable _ member) (length.trans_le (not_lt.mp past)) small, value]

theorem entry_word (elf : Elf64 data) :
    sizeT (RawEhdr.read data).entry = (RawEhdr.read data).entry.toNat := by
  have low : 0 ≤ (RawEhdr.read data).entry := readField_nonneg ..
  have high : (RawEhdr.read data).entry < 256 ^ 8 :=
    readField_lt (le_trans (by decide) elf.header)
  have same := sizeT_of_lt low high
  omega

/-- The entry point of the rows is the one of the file. -/
theorem entry_converted (converted : Converted data db) :
    ∃ entry, selfGetInt db.connect .entry = some entry ∧
      sizeT entry = (RawEhdr.read data).entry.toNat :=
  ⟨_, selfGetInt_converted converted .entry (by decide) rfl, entry_word converted.elf⟩

theorem mapProgram_entry {os : Os} (converted : Converted data db)
    (mapped : mapProgram os db.connect mem = .ok (exe, after)) :
    exe.entry = wrap (exe.loadBias + (RawEhdr.read data).entry.toNat) := by
  obtain ⟨_, entry, _, _, _, found, _, _, _, here, _⟩ := mapProgram_steps mapped
  obtain ⟨entry', found', same⟩ := entry_converted converted
  cases found.symm.trans found'
  rw [here, same]

/-- `map_program` loads the program of the file, and one of fixed addresses where it is linked. -/
theorem mapProgram_program {os : Os} (paged : os.Paged) (converted : convert lief data = .ok db)
    (sound : LoadsApart data) (mapped : mapProgram os db.connect mem = .ok (exe, after)) :
    LoadedAt data exe.loadBias exe.entry after ∧
      ((RawEhdr.read data).type = etExec → exe.loadBias = 0) := by
  have conv := convert_sound converted
  refine ⟨⟨fun u b puts => ?_, mapProgram_entry conv mapped⟩, fun fixed => ?_⟩
  · exact mapProgram_image paged mapped (imageByte_of_puts converted sound puts)
  · have et := selfGetInt_converted conv .et (by decide) rfl
    exact (mapProgram_biasRule mapped).2 (et.trans (congrArg some fixed))

/-- `map_object` loads it too. -/
theorem mapObject_program {world : World} (paged : world.os.Paged)
    (converted : convert lief data = .ok db) (sound : LoadsApart data)
    (opened : world.files path = some db.connect)
    (mapped : mapObject world path slot state = .ok (obj, after)) :
    LoadedAt data obj.loadBias obj.entry after.memory := by
  refine ⟨fun u b puts => ?_, ?_⟩
  · exact mapObject_image paged opened mapped (imageByte_of_puts converted sound puts)
  · obtain ⟨_, conn, _⟩ := mapObject_steps opened mapped
    obtain ⟨entry, found, same⟩ := entry_converted (convert_sound converted)
    rw [(mapObject_mapped mapped).entry, conn, found, Option.map_some, Option.getD_some, same]

/-- Whichever way the rows of a file are run, it is the program of the file that runs. -/
theorem modes_agree (plain : Plain data) (above : ehdrSize ≤ (RawEhdr.read data).phoff)
    (apart : LoadsApart data) (converted : convert lief data = .ok db) :
    (∀ heap img, selfBuildElf heap db.connect = .image img → SameProgram data img) ∧
    (∀ (os : Os) mem exe after, os.Paged → mapProgram os db.connect mem = .ok (exe, after) →
      LoadedAt data exe.loadBias exe.entry after ∧
        ((RawEhdr.read data).type = etExec → exe.loadBias = 0)) ∧
    ∀ (world : World) path slot state obj after, world.os.Paged →
      world.files path = some db.connect →
      mapObject world path slot state = .ok (obj, after) →
        LoadedAt data obj.loadBias obj.entry after.memory :=
  ⟨fun _ _ built => selfBuildElf_program plain above (convert_sound converted) built,
    fun _ _ _ _ paged mapped => mapProgram_program paged converted apart mapped,
    fun _ _ _ _ _ _ paged opened mapped => mapObject_program paged converted apart opened mapped⟩

theorem modes_agree_mappedFile :
    ∃ db img exe after obj final, convert (.ok .none) mappedFile = .ok db ∧
      selfBuildElf .ample db.connect = .image img ∧ SameProgram mappedFile img ∧
      mapProgram .bounded db.connect unmappedSpace = .ok (exe, after) ∧
      LoadedAt mappedFile exe.loadBias exe.entry after ∧
      mapObject (boundedWorld db) "/main.self" (.ok ()) ⟨unmappedSpace, []⟩ = .ok (obj, final) ∧
      LoadedAt mappedFile obj.loadBias obj.entry final.memory := by
  have ran : ∃ db, convert (.ok .none) mappedFile = .ok db ∧
      ((mapProgram .bounded db.connect unmappedSpace).isOk = true ∧
        (mapObject (boundedWorld db) "/main.self" (.ok ()) ⟨unmappedSpace, []⟩).isOk = true) :=
    exists_of_map_decide (by decide +kernel)
  obtain ⟨db, converted, native, selfld⟩ := ran
  have allocates : Allocates .ample mappedFile := ⟨rfl, fun _ _ => rfl, rfl⟩
  obtain ⟨img, built⟩ := selfBuildElf_exists mappedFile_plain.loads (convert_sound converted)
    allocates
  cases mapped : mapProgram .bounded db.connect unmappedSpace with
  | error stop => simp [mapped, Except.isOk, Except.toBool] at native
  | ok run =>
    cases mapped' : mapObject (boundedWorld db) "/main.self" (.ok ()) ⟨unmappedSpace, []⟩ with
    | error stop => simp [mapped', Except.isOk, Except.toBool] at selfld
    | ok run' =>
      have paged : (boundedWorld db).os.Paged := Os.bounded_paged
      obtain ⟨memfd, program, object⟩ := modes_agree mappedFile_plain mappedFile_wellFormed.above
        mappedFile_table.1 converted
      exact ⟨db, img, run.1, run.2, run'.1, run'.2, converted, built, memfd _ _ built, mapped,
        (program _ _ _ _ Os.bounded_paged mapped).1, mapped',
        object _ _ _ _ _ _ paged rfl mapped'⟩

end SelfDb
