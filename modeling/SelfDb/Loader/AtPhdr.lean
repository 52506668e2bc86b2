import SelfDb.Loader.Agreement
import SelfDb.Loader.Blobs
import SelfDb.Loader.Fidelity

/-! AT_PHDR in native mode: the program header table, as it lies in memory
inside the segment that holds it, against the rows it was converted to. -/
namespace SelfDb
open Paging Binary

/-- The load ranges of a file and the segment with its header table. -/
structure TableLoaded (data : Bytes) (i : Nat) : Prop where
  entry : i < entryCount data
  load : (entryAt data i).type = ptLoad
  holds : InRange (entryAt data i).offset (entryAt data i).filesz (RawEhdr.read data).phoff.toNat
  table : (RawEhdr.read data).phoff + phdrSize * entryCount data ≤
    (entryAt data i).offset + (entryAt data i).filesz
  only : ∀ j < entryCount data, (entryAt data j).type = ptLoad →
    InRange (entryAt data j).offset (entryAt data j).filesz (RawEhdr.read data).phoff.toNat → j = i

/-- The pages that an entry is mapped to. -/
def EntryOnPages (h : RawPhdr) (u : Nat) : Prop := OnPages h.vaddr.toNat h.memsz.toNat u

structure LoadsApart (data : Bytes) : Prop where
  inside : LoadsInside data
  sizes : ∀ i < entryCount data, (entryAt data i).type = ptLoad →
    (entryAt data i).filesz ≤ (entryAt data i).memsz
  pages : ∀ i < entryCount data, ∀ j < i, (entryAt data i).type = ptLoad →
    (entryAt data j).type = ptLoad →
    ∀ u, ¬ (EntryOnPages (entryAt data i) u ∧ EntryOnPages (entryAt data j) u)

/-! The load rows of a converted file. -/

theorem mem_loadRows_converted (converted : convert lief data = .ok db) (member : R ∈ db.loadRows) :
    ∃ i < entryCount data, (entryAt data i).type = ptLoad ∧
      R = segmentRow i (imagePhdr data (entryAt data i)) := by
  obtain ⟨count, rowAt⟩ := convert_rows converted
  obtain ⟨listed, load⟩ := List.mem_filter.mp member
  obtain ⟨i, bound, rfl⟩ := List.getElem_of_mem listed
  have here := rowAt i (count ▸ bound)
  rw [List.getElem?_eq_getElem bound, Option.some.injEq] at here
  refine ⟨i, count ▸ bound, ?_, here⟩
  rw [here] at load
  exact (typeName_eq_load_iff _).mp (of_decide_eq_true load)

theorem loadRows_converted_mem (converted : convert lief data = .ok db)
    (inside : i < entryCount data) (load : (entryAt data i).type = ptLoad) :
    segmentRow i (imagePhdr data (entryAt data i)) ∈ db.loadRows := by
  obtain ⟨_, rowAt⟩ := convert_rows converted
  refine List.mem_filter.mpr ⟨List.mem_of_getElem? (rowAt i inside), decide_eq_true ?_⟩
  exact (typeName_eq_load_iff _).mpr load

theorem bytes_segmentRow (data : Bytes) (load : (entryAt data i).type = ptLoad) (j : Nat) :
    (segmentRow j (imagePhdr data (entryAt data i))).bytes =
      slice data (entryAt data i).offset.toNat (entryAt data i).filesz.toNat := by
  simp only [SegmentRow.bytes, segmentRow, imagePhdr, load, if_true, Option.getD_some]

/-- The load rows are what `Loadable` asks for. -/
theorem loadable_converted (converted : convert lief data = .ok db) (sound : LoadsApart data) :
    ∀ R ∈ db.loadRows, R.Loadable := by
  intro R member
  have stored := db.segmentsStored R (List.mem_filter.mp member).1
  obtain ⟨i, bound, load, rfl⟩ := mem_loadRows_converted converted member
  have inside := sound.inside i bound load
  have offset : 0 ≤ (entryAt data i).offset := readField_nonneg ..
  have filesz : 0 ≤ (entryAt data i).filesz := readField_nonneg ..
  refine ⟨readField_nonneg .., ?_, sound.sizes i bound load, stored⟩
  rw [bytes_segmentRow data load, slice_length]
  change _ = (entryAt data i).filesz
  omega

theorem rowsApart_converted (converted : convert lief data = .ok db) (sound : LoadsApart data) :
    db.loadRows.Pairwise fun R Q => ∀ u, ¬
      (OnPages R.start R.size u ∧ OnPages Q.start Q.size u) := by
  obtain ⟨count, rowAt⟩ := convert_rows converted
  rw [Database.loadRows, List.pairwise_filter, List.pairwise_iff_getElem]
  intro j i boundJ boundI before loadJ loadI u both
  have rowJ := rowAt j (count ▸ boundJ)
  have rowI := rowAt i (count ▸ boundI)
  rw [List.getElem?_eq_getElem boundJ, Option.some.injEq] at rowJ
  rw [List.getElem?_eq_getElem boundI, Option.some.injEq] at rowI
  rw [rowJ, decide_eq_true_eq] at loadJ
  rw [rowI, decide_eq_true_eq] at loadI
  rw [rowI, rowJ] at both
  exact sound.pages i (count ▸ boundI) j before ((typeName_eq_load_iff _).mp loadI)
    ((typeName_eq_load_iff _).mp loadJ)
    u both.symm

/-! The image of rows on distinct pages. -/

theorem byteIn_content {R : SegmentRow} (loadable : R.Loadable) (bound : k < R.bytes.length) :
    R.byteIn (R.start + k) = R.bytes[k]? := by
  obtain ⟨vaddr, filesz, _⟩ := loadable.words
  obtain ⟨start, _, fits⟩ := loadable.bounds
  have index : sub64 (wrap (R.start + k)) R.start = k := by
    simp only [sub64, wrap]
    omega
  rw [SegmentRow.byteIn, vaddr, filesz, List.take_length, index, List.getElem?_eq_getElem bound]
  rfl

/-- A row has nothing outside its pages. -/
theorem onPages_of_byteIn {R : SegmentRow} (loadable : R.Loadable) (some : R.byteIn u ≠ none) :
    OnPages R.start R.size (wrap u) := by
  obtain ⟨vaddr, filesz, memsz⟩ := loadable.words
  obtain ⟨start, size, fits⟩ := loadable.bounds
  have down := alignDown_le R.start
  have up := le_pageCeil (R.start + R.size)
  have small := wrap_lt u
  rw [SegmentRow.byteIn, vaddr, filesz, memsz, List.take_length, Ne, Option.or_eq_none_iff,
    not_and_or] at some
  rcases some with content | page
  · rw [List.getElem?_eq_none_iff, not_le] at content
    simp only [sub64, OnPages] at content ⊢
    simp only [wrap] at content small ⊢
    omega
  · have within : sub64 (wrap u) (alignDown R.start) <
      wrap (pageCeil (R.start + R.size) - alignDown R.start) := by
      by_contra outside
      exact page (if_neg outside)
    have top : pageCeil (R.start + R.size) ≤ 2 ^ 64 := by
      simp only [pageCeil, alignDown, pageSize]
      omega
    rw [segment_pages size] at within
    simp only [sub64, OnPages] at within ⊢
    simp only [wrap] at within small ⊢
    omega

theorem imageByte_eq_content {rows : List SegmentRow} (loadable : ∀ R ∈ rows, R.Loadable)
    (apart : rows.Pairwise fun R Q => ∀ u, ¬ (OnPages R.start R.size u ∧ OnPages Q.start Q.size u))
    (member : R ∈ rows) (bound : k < R.bytes.length) :
    imageByte rows (R.start + k) = R.bytes[k]? := by
  have exclusive : (rows.map SegmentRow.byteIn).Pairwise Exclusive := by
    rw [List.pairwise_map]
    refine List.Pairwise.imp_of_mem (fun {R Q} first second distinct u => ?_) apart
    by_contra both
    rw [not_or] at both
    exact distinct (wrap u) ⟨onPages_of_byteIn (loadable R first) both.1,
      onPages_of_byteIn (loadable Q second) both.2⟩
  rw [List.getElem?_eq_getElem bound, imageByte, lastAt_of_exclusive exclusive]
  refine ⟨R.byteIn, List.mem_map_of_mem member, ?_⟩
  rw [byteIn_content (loadable R member) bound, List.getElem?_eq_getElem bound]

/-! Where the mapping loop finds the table. -/

/-- The file range of the row holds `phoff`, as the loop computes it. -/
def HoldsPhoff (phoff : Int) (R : SegmentRow) : Prop :=
  sizeT R.offset ≤ sizeT phoff ∧ sizeT phoff < wrap (sizeT R.offset + sizeT R.filesz)

instance (phoff : Int) (R : SegmentRow) : Decidable (HoldsPhoff phoff R) :=
  inferInstanceAs (Decidable (_ ∧ _))

theorem mapLoop_phdr {rows : List SegmentRow}
    (looped : mapLoop os bias phoff rows phdr mem = .ok (last, after)) :
    last = rows.foldl (fun phdr R => phdrIn bias phoff R phdr) phdr := by
  induction rows generalizing phdr mem with
  | nil =>
    cases looped
    rfl
  | cons R rest ih =>
    simp only [mapLoop, bind_eq_ok_iff] at looped
    obtain ⟨_, _, _, _, later⟩ := looped
    exact ih later

theorem phdrIn_of_holds (holds : HoldsPhoff phoff R) (bias phdr : Nat) :
    phdrIn bias phoff R phdr = wrap (bias + sizeT R.vaddr + sub64 (sizeT phoff) (sizeT R.offset)) :=
      if_pos holds

theorem phdrIn_of_not_holds (elsewhere : ¬ HoldsPhoff phoff R) (bias phdr : Nat) :
    phdrIn bias phoff R phdr = phdr := if_neg elsewhere

/-- The rows that hold the table agree on its address, so any of them decides. -/
theorem foldl_phdrIn {rows : List SegmentRow} {address : Nat}
    (same : ∀ R ∈ rows, HoldsPhoff phoff R → phdrIn bias phoff R 0 = address) (phdr : Nat) :
    rows.foldl (fun phdr R => phdrIn bias phoff R phdr) phdr =
      if ∃ R ∈ rows, HoldsPhoff phoff R then address else phdr := by
  induction rows generalizing phdr with
  | nil => simp
  | cons R rest ih =>
    rw [List.forall_mem_cons] at same
    rw [List.foldl_cons, ih same.2]
    simp only [List.mem_cons, exists_eq_or_imp]
    by_cases here : HoldsPhoff phoff R
    · rw [phdrIn_of_holds here, ← phdrIn_of_holds here bias 0, same.1 here]
      simp only [here, true_or, if_true, ite_self]
    · rw [phdrIn_of_not_holds here]
      simp only [here, false_or]

theorem holdsPhoff_segmentRow (stored : (segmentRow i (imagePhdr data (entryAt data j))).Stored)
    (small : (RawEhdr.read data).phoff < 2 ^ 63) :
    HoldsPhoff (RawEhdr.read data).phoff (segmentRow i (imagePhdr data (entryAt data j))) ↔
      InRange (entryAt data j).offset (entryAt data j).filesz (RawEhdr.read data).phoff.toNat := by
  have offset : 0 ≤ (entryAt data j).offset := readField_nonneg ..
  have filesz : 0 ≤ (entryAt data j).filesz := readField_nonneg ..
  have phoff : 0 ≤ (RawEhdr.read data).phoff := readField_nonneg ..
  have columns := stored.columns
  simp only [segmentRow, imagePhdr, List.forall_mem_cons, Storable] at columns
  simp only [HoldsPhoff, InRange, segmentRow, imagePhdr, sizeT, wrap]
  omega

/-- What a header in memory says about a row. -/
def Describes (h : RawPhdr) (row : SegmentRow) : Prop :=
  (h.type, .integer (flag h.flags pfR), .integer (flag h.flags pfW), .integer (flag h.flags pfX)) =
    (row.ptype, row.r, row.w, row.x) ∧
    (h.offset, h.vaddr, h.filesz, h.memsz, h.align) =
      (row.offset, row.vaddr, row.filesz, row.memsz, row.align)

theorem read_slice {data : Bytes} {start at_ : Nat} (inside : at_ + phdrSize ≤ count)
    (within : start + at_ + phdrSize ≤ data.length) :
    RawPhdr.read (slice data start count) at_ = RawPhdr.read data (start + at_) := by
  apply RawPhdr.read_of_slice (RawPhdr.read_representable within)
  rw [slice_slice data start phdrSize inside, RawPhdr.bytes_read within]

theorem phoff_lt (converted : Converted data db) : (RawEhdr.read data).phoff < 2 ^ 63 := by
  have stored := converted.stored
  simp only [MetaStorable, List.forall_mem_cons, Storable] at stored
  exact stored.2.2.2.2.2.1.2

/-- The distance of the table from the begin of its segment. -/
def tableGap (data : Bytes) (i : Nat) : Nat :=
  ((RawEhdr.read data).phoff - (entryAt data i).offset).toNat

/-- The loop takes the address from the one segment that holds the table. -/
theorem foldl_phdrIn_converted (converted : convert lief data = .ok db)
    (loaded : TableLoaded data i) (bias : Nat) :
    db.loadRows.foldl (fun phdr R => phdrIn bias (RawEhdr.read data).phoff R phdr) 0 =
      wrap (bias + ((entryAt data i).vaddr.toNat + tableGap data i)) := by
  have small := phoff_lt (convert_sound converted)
  have phoff : 0 ≤ (RawEhdr.read data).phoff := readField_nonneg ..
  have holds : ∀ j, segmentRow j (imagePhdr data (entryAt data j)) ∈ db.loadRows →
      (HoldsPhoff (RawEhdr.read data).phoff (segmentRow j (imagePhdr data (entryAt data j))) ↔
        InRange (entryAt data j).offset (entryAt data j).filesz (RawEhdr.read data).phoff.toNat) :=
    fun j listed => holdsPhoff_segmentRow (db.segmentsStored _ (List.mem_filter.mp listed).1) small
  have member := loadRows_converted_mem converted loaded.entry loaded.load
  rw [foldl_phdrIn, if_pos ⟨_, member, (holds i member).mpr loaded.holds⟩]
  intro R listed here
  obtain ⟨j, bound, load, rfl⟩ := mem_loadRows_converted converted listed
  obtain rfl := loaded.only j bound load ((holds j listed).mp here)
  have columns := (db.segmentsStored _ (List.mem_filter.mp listed).1).columns
  simp only [segmentRow, imagePhdr, List.forall_mem_cons, Storable] at columns
  have offset : 0 ≤ (entryAt data j).offset := readField_nonneg ..
  have vaddr : 0 ≤ (entryAt data j).vaddr := readField_nonneg ..
  have range := loaded.holds
  rw [phdrIn_of_holds here]
  simp only [InRange] at range
  simp only [segmentRow, imagePhdr, tableGap, sizeT, sub64, wrap]
  omega

/-- Where the table is, and that it is there. -/
theorem mapProgram_table {os : Os} (paged : os.Paged) (converted : convert lief data = .ok db)
    (sound : LoadsApart data) (loaded : TableLoaded data i)
    (mapped : mapProgram os db.connect mem = .ok (exe, after)) :
    exe.phdr = wrap (exe.loadBias + ((entryAt data i).vaddr.toNat + tableGap data i)) ∧
      exe.phnum = entryCount data ∧
      after.load exe.phdr (phdrSize * entryCount data) =
        slice data (RawEhdr.read data).phoff.toNat (phdrSize * entryCount data) := by
  have conv := convert_sound converted
  obtain ⟨_, _, phoff, _, _, _, hPhoff, _, looped, _, hPhnum⟩ := mapProgram_steps mapped
  have key := (selfGetInt_converted conv .phoff (by decide) rfl).symm.trans hPhoff
  obtain rfl : phoff = (RawEhdr.read data).phoff := (Option.some.inj key).symm
  have address := (mapLoop_phdr looped).trans (foldl_phdrIn_converted converted loaded exe.loadBias)
  have phnum := (selfGetInt_converted conv .phnum (by decide) rfl).symm.trans hPhnum
  refine ⟨address, (Option.some.inj phnum).symm, ?_⟩
  have member := loadRows_converted_mem converted loaded.entry loaded.load
  have loadable := loadable_converted converted sound
  have inside := sound.inside i loaded.entry loaded.load
  have offset : 0 ≤ (entryAt data i).offset := readField_nonneg ..
  have phoff : 0 ≤ (RawEhdr.read data).phoff := readField_nonneg ..
  have table := loaded.table
  have range := loaded.holds
  simp only [InRange] at range
  have length : (slice data (RawEhdr.read data).phoff.toNat (phdrSize * entryCount data)).length =
      phdrSize * entryCount data := by
    rw [slice_length]
    omega
  have bytes := (Memory.load_eq_iff after exe.phdr
    (slice data (RawEhdr.read data).phoff.toNat (phdrSize * entryCount data))).mpr ?_
  · rwa [length] at bytes
  intro k b found
  have bound := (List.getElem?_eq_some_iff.mp found).1
  rw [length] at bound
  rw [slice_get, if_pos bound] at found
  have within : tableGap data i + k < (entryAt data i).filesz.toNat ∧
      (entryAt data i).offset.toNat + (tableGap data i + k) =
        (RawEhdr.read data).phoff.toNat + k := by
    rw [tableGap]
    omega
  have content : (segmentRow i (imagePhdr data (entryAt data i))).bytes[tableGap data i + k]? =
      some b := by
    rw [bytes_segmentRow data loaded.load, slice_get, if_pos within.1, within.2, found]
  have image := imageByte_eq_content loadable (rowsApart_converted converted sound) member
    (List.getElem?_eq_some_iff.mp content).1
  rw [address, wrap_wrap_add, Nat.add_assoc, Nat.add_assoc]
  exact mapProgram_image paged mapped (image.trans content)

/-- AT_PHDR and AT_PHNUM of native mode lead to the program headers of the rows. -/
theorem mapProgram_atPhdr {os : Os} (paged : os.Paged) (converted : convert lief data = .ok db)
    (sound : LoadsApart data) (loaded : TableLoaded data i)
    (mapped : mapProgram os db.connect mem = .ok (exe, after)) :
    exe.phdr = wrap (exe.loadBias + ((entryAt data i).vaddr.toNat +
        ((RawEhdr.read data).phoff - (entryAt data i).offset).toNat)) ∧
      exe.phnum = db.segments.rows.length ∧
      ∀ (j : Nat) row, db.segments.rows[j]? = some row → row.id = j ∧
        Describes
          (RawPhdr.read (after.load exe.phdr (phdrSize * exe.phnum.toNat)) (phdrSize * j)) row := by
  obtain ⟨address, count, table⟩ := mapProgram_table paged converted sound loaded mapped
  obtain ⟨length, rowAt⟩ := convert_rows converted
  refine ⟨address, by rw [count, length], fun j row found => ?_⟩
  have bound : j < entryCount data := length ▸ (List.getElem?_eq_some_iff.mp found).1
  obtain rfl := Option.some.inj ((rowAt j bound).symm.trans found)
  have inFile := (convert_sound converted).elf.table j bound
  have inTable : phdrSize * j + phdrSize ≤ phdrSize * entryCount data := by
    rw [← Nat.mul_succ]
    exact Nat.mul_le_mul_left _ bound
  rw [entryStart, Nat.mul_comm] at inFile
  rw [count, Int.toNat_natCast, table, read_slice inTable inFile, Nat.mul_comm phdrSize j]
  exact ⟨rfl, rfl, rfl⟩

/-- The one segment of `mappedFile` holds its header table. -/
theorem mappedFile_table : LoadsApart mappedFile ∧ TableLoaded mappedFile 0 := by
  have one : entryCount mappedFile = 1 := by decide +kernel
  refine ⟨⟨by decide +kernel, by decide +kernel, fun i bound j before => ?_⟩,
    by decide +kernel, by decide +kernel, by decide +kernel, by decide +kernel,
    fun j bound _ _ => ?_⟩
  · rw [one, Nat.lt_one_iff] at bound
    exact absurd (bound ▸ before) (Nat.not_lt_zero j)
  · rwa [one, Nat.lt_one_iff] at bound

/-- The header table is in the first of two segments, which are on different pages. -/
def splitFile : Bytes :=
  RawEhdr.bytes { RawEhdr.read mappedFile with shoff := 0, phnum := 2 } ++
    RawPhdr.bytes ⟨ptLoad, 5, 0, 0x1000, 0x1000, 176, 176, 0x1000⟩ ++
    RawPhdr.bytes ⟨ptLoad, 6, 176, 0x20b0, 0x20b0, 3, 300, 0x1000⟩ ++ [7, 8, 9]

theorem splitFile_table : LoadsApart splitFile ∧ TableLoaded splitFile 0 := by
  have count : entryCount splitFile = 2 := by decide +kernel
  have first : entryAt splitFile 0 = ⟨ptLoad, 5, 0, 0x1000, 0x1000, 176, 176, 0x1000⟩ := by
    decide +kernel
  have second : entryAt splitFile 1 = ⟨ptLoad, 6, 176, 0x20b0, 0x20b0, 3, 300, 0x1000⟩ := by
    decide +kernel
  refine ⟨⟨by decide +kernel, by decide +kernel, ?_⟩,
    by decide +kernel, by decide +kernel, by decide +kernel, by decide +kernel, by decide +kernel⟩
  intro i bound j before _ _ u
  obtain ⟨rfl, rfl⟩ : i = 1 ∧ j = 0 := by omega
  rw [first, second]
  rintro ⟨⟨above, _⟩, _, below⟩
  have apart : pageCeil (0x1000 + 176) ≤ alignDown 0x20b0 := by decide
  exact absurd (below.trans_le apart) (Nat.not_lt.mpr above)

theorem mapProgram_atPhdr_splitFile :
    ∃ db exe after, convert (.ok .none) splitFile = .ok db ∧
      mapProgram .bounded db.connect unmappedSpace = .ok (exe, after) ∧
        exe.phnum = db.segments.rows.length ∧
      ∀ (j : Nat) row, db.segments.rows[j]? = some row → row.id = j ∧
        Describes
          (RawPhdr.read (after.load exe.phdr (phdrSize * exe.phnum.toNat)) (phdrSize * j)) row := by
  have ran : ∃ db, convert (.ok .none) splitFile = .ok db ∧
      (mapProgram .bounded db.connect unmappedSpace).toOption.isSome :=
    exists_of_map_decide (by decide +kernel)
  obtain ⟨db, converted, complete⟩ := ran
  obtain ⟨⟨exe, after⟩, mapped⟩ := exists_of_isSome complete
  obtain ⟨sound, loaded⟩ := splitFile_table
  exact ⟨db, exe, after, converted, mapped,
    (mapProgram_atPhdr Os.bounded_paged converted sound loaded mapped).2⟩

end SelfDb
