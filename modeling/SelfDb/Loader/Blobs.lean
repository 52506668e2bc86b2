import SelfDb.Loader.SelfLd
import SelfDb.Selfconv.RoundTrip

/-! What the loaders expect of the `segments` table: its row count, its ids, and
blobs of `filesz` bytes, which `map_segment` and `map_object` copy unchecked. -/
namespace SelfDb
open Binary

/-- The source of the copy is as long as its count. -/
def CopiesInside (R : SegmentRow) : Prop :=
  ∀ os buf, copyBlob os R.content = .ok (some buf) → sizeT R.filesz ≤ buf.length

/-- The table holds the program headers of the file, with their contents. -/
structure LoaderReady (data : Bytes) (db : Database) : Prop where
  phnum : db.selfMeta .phnum = some (.integer db.segments.rows.length)
  headers : db.segments.rows.length = entryCount data ∧ ∀ i < entryCount data, ∃ row,
    db.segments.rows[i]? = some row ∧ row.id = i ∧
      (row.ptype, row.offset, row.vaddr, row.filesz, row.memsz, row.align) =
        ((entryAt data i).type, (entryAt data i).offset, (entryAt data i).vaddr,
          (entryAt data i).filesz, (entryAt data i).memsz, (entryAt data i).align)
  contents : ∀ row ∈ db.segments.rows, if row.type = .load
    then ∃ bytes, row.content = some bytes ∧
      (bytes.length : Int) = row.filesz else row.content = none
  copies : ∀ row ∈ db.loadRows, CopiesInside row

/-- Every load range with bytes is in the file. -/
def LoadsPresent (data : Bytes) : Prop :=
  ∀ i < entryCount data, (entryAt data i).type = ptLoad → (entryAt data i).filesz ≠ 0 →
    (entryAt data i).offset + (entryAt data i).filesz ≤ data.length

theorem typeName_eq_load_iff (ptype : Int) : typeName ptype = .load ↔ ptype = ptLoad := by
  rw [typeName, ptLoad]
  constructor
  · intro load
    by_contra other
    rw [if_neg other] at load
    -- no other number has the name of a load segment
    repeat
      split at load
      · cases load
    cases load
  · rintro rfl
    rfl

theorem slice_length_eq_iff (data : Bytes) {start count : Int} (low : 0 ≤ start)
    (positive : 0 ≤ count) :
    ((slice data start.toNat count.toNat).length : Int) = count ↔
      (count ≠ 0 → start + count ≤ data.length) := by
  rw [slice_length]
  omega

/-- A blob of `filesz` bytes is copied inside. -/
theorem copiesInside_of_length {R : SegmentRow} (present : R.content = some bytes)
    (sized : (bytes.length : Int) = R.filesz) (stored : Storable R.filesz) : CopiesInside R := by
  intro os buf copied
  have source : buf = bytes := by
    rw [present, copyBlob] at copied
    split at copied
    · cases copied
    · split at copied
      · exact (Option.some.inj (Except.ok.inj copied)).symm
      · cases copied
  subst source
  simp only [sizeT, Storable] at stored ⊢
  omega

/-- The row of a program header, and whether its content is as long as it says. -/
theorem segmentRow_contents (data : Bytes) (i j : Nat) :
    (if (segmentRow j (imagePhdr data (entryAt data i))).type = .load
      then ∃ bytes, (segmentRow j (imagePhdr data (entryAt data i))).content = some bytes ∧
        (bytes.length : Int) = (segmentRow j (imagePhdr data (entryAt data i))).filesz
      else (segmentRow j (imagePhdr data (entryAt data i))).content = none) ↔
    ((entryAt data i).type = ptLoad → (entryAt data i).filesz ≠ 0 →
      (entryAt data i).offset + (entryAt data i).filesz ≤ data.length) := by
  simp only [segmentRow, imagePhdr, typeName_eq_load_iff]
  by_cases load : (entryAt data i).type = ptLoad
  · simp only [load, if_true, Option.some.injEq, exists_eq_left', true_implies]
    exact slice_length_eq_iff data (readField_nonneg ..) (readField_nonneg ..)
  · simp only [load, if_false, false_implies]

/-- A completed conversion has one row for each program header. -/
theorem convert_rows (converted : convert lief data = .ok db) :
    db.segments.rows.length = entryCount data ∧ ∀ i < entryCount data,
      db.segments.rows[i]? = some (segmentRow i (imagePhdr data (entryAt data i))) := by
  have sound := convert_sound converted
  constructor
  · rw [sound.rows, segmentRows, List.length_map, List.length_zipIdx, imagePhdrs_length]
  · intro i inside
    rw [sound.rows, segmentRows_get, imagePhdrs_get, if_pos inside]
    rfl

/-- A completed conversion is what the loaders expect exactly when the file holds
all of its load ranges. -/
theorem convert_ready_iff (converted : convert lief data = .ok db) : LoaderReady data db ↔
    LoadsPresent data := by
  obtain ⟨count, rowAt⟩ := convert_rows converted
  constructor
  · intro ready i inside
    have member := List.mem_of_getElem? (rowAt i inside)
    exact (segmentRow_contents data i i).mp (ready.contents _ member)
  · intro present
    have contents : ∀ row ∈ db.segments.rows, if row.type = .load
        then ∃ bytes, row.content = some bytes ∧
          (bytes.length : Int) = row.filesz else row.content = none := by
      intro row member
      obtain ⟨i, bound, rfl⟩ := List.getElem_of_mem member
      have here := rowAt i (count ▸ bound)
      rw [List.getElem?_eq_getElem bound, Option.some.injEq] at here
      rw [here]
      exact (segmentRow_contents data i i).mpr (present i (count ▸ bound))
    refine ⟨?_, ⟨count, fun i inside => ⟨_, rowAt i inside, rfl, rfl⟩⟩, contents,
      fun row member => ?_⟩
    · rw [(convert_sound converted).meta_ .phnum (by decide), count]
      rfl
    · obtain ⟨listed, load⟩ := List.mem_filter.mp member
      have sized := contents row listed
      rw [if_pos (of_decide_eq_true load)] at sized
      obtain ⟨bytes, here, length⟩ := sized
      refine copiesInside_of_length here length ((db.segmentsStored row listed).columns _ ?_)
      simp

/-- The load range of a file that was cut off. -/
def truncatedFile : Bytes := oneEntryFile 0 ⟨ptLoad, 5, 0, 0, 0, 200, 200, 0x1000⟩

theorem convert_ready_iff_mappedFile :
    ∃ db, convert (.ok .none) mappedFile = .ok db ∧
      (LoaderReady mappedFile db ↔ LoadsPresent mappedFile) := by
  obtain ⟨db, converted⟩ := mappedFile_converted
  exact ⟨db, converted, convert_ready_iff converted⟩

/-- The blob has 120 bytes, and the loaders copy 200. -/
theorem convert_truncatedFile :
    ∃ db, convert (.ok .none) truncatedFile = .ok db ∧
      (db.segments.rows.map fun row => (row.content.map List.length, row.filesz)) =
      [(some 120, 200)] ∧
      ¬ LoaderReady truncatedFile db := by
  have ran : ∃ db, convert (.ok .none) truncatedFile = .ok db ∧
      (db.segments.rows.map fun row => (row.content.map List.length, row.filesz)) =
        [(some 120, 200)] :=
    exists_of_map_decide (by decide +kernel)
  obtain ⟨db, converted, sizes⟩ := ran
  refine ⟨db, converted, sizes, fun ready => ?_⟩
  exact absurd ((convert_ready_iff converted).mp ready 0 (by decide +kernel)) (by decide +kernel)

end SelfDb
