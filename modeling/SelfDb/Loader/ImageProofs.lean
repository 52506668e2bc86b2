import SelfDb.Loader.Image
import SelfDb.Selfconv.ImageProofs

/-! What `self_build_elf` stores where, and which store wins at each position. -/
namespace SelfDb
open Binary

/-- The size that the row loop arrives at. -/
def buildSize (m : ImageMeta) (rows : List SegmentRow) : Nat :=
  (rows.map fun R => sizeT (R.offset + R.filesz)).foldl max
    (max ehdrSize (sizeT (m.phoff + m.phnum * phdrSize)))

/-- The header of a run: its count is the one of `self_meta`. -/
def ImageMeta.header (m : ImageMeta) : RawEhdr where
  ident := elfMagic ++ [2, 1, 1] ++ leBytes 1 m.osabi ++ List.replicate 8 0
  type := m.et
  machine := m.em
  version := 1
  entry := m.entry
  phoff := m.phoff
  shoff := 0
  flags := m.eflags
  ehsize := ehdrSize
  phentsize := phdrSize
  phnum := m.phnum
  shentsize := 0
  shnum := 0
  shstrndx := 0

def EntryInside (size : Nat) (phoff : Int) (i : Nat) : Prop :=
  0 ≤ phoff + i * phdrSize ∧ phoff + i * phdrSize + phdrSize ≤ size

def ContentInside (size : Nat) (R : SegmentRow) : Prop :=
  R.content.getD [] ≠ [] → 0 ≤ R.offset ∧ R.offset + (R.content.getD []).length ≤ size

/-- The two stores of each row. -/
def rowPairs (phoff : Int) : Nat → List SegmentRow → List (Write UInt8 × Write UInt8)
  | _, [] => []
  | i, R :: rest =>
    (⟨(phoff + i * phdrSize).toNat, (rowPhdr R).bytes⟩, contentWrite (loadPhdr R)) ::
      rowPairs phoff (i + 1) rest

theorem grow_eq_max (a size : Nat) : (if a > size then a else size) = max size a := by
  split <;> omega

theorem rowLoop_eq_ok_iff (heap : Heap) (slots n : Nat) (rows : List SegmentRow) (size out : Nat) :
    rowLoop heap slots n rows size = .ok out ↔
      (∀ i R, rows[i]? = some R → (n + i < slots ∧ n + i + 1 < 2 ^ 31) ∧ heap.Holds (n + i) R) ∧
        out = (rows.map fun R => sizeT (R.offset + R.filesz)).foldl max size := by
  induction rows generalizing n size with
  | nil => simp [rowLoop, eq_comm]
  | cons R rest ih =>
    rw [forall_getElem?_cons (P := fun i Q => (i < slots ∧ i + 1 < 2 ^ 31) ∧ heap.Holds i Q),
      List.map_cons, List.foldl_cons, rowLoop, grow_eq_max]
    by_cases slot : n < slots ∧ n + 1 < 2 ^ 31
    · by_cases holds : heap.Holds n R
      · rw [if_pos slot, if_pos holds, ih]
        simp only [slot, holds, and_self, true_and]
      · rw [if_pos slot, if_neg holds]
        simp only [reduceCtorEq, holds, and_false, false_and]
    · rw [if_neg slot]
      simp only [reduceCtorEq, slot, false_and]

/-- A row misses its slot when all contents before it could be copied. -/
theorem rowLoop_ne_row_iff (heap : Heap) (slots n : Nat) (rows : List SegmentRow) (size : Nat) :
    rowLoop heap slots n rows size ≠ .error .row ↔
      ∀ i < rows.length, (∀ j R, j < i → rows[j]? = some R → heap.Holds (n + j) R) →
        n + i < slots ∧ n + i + 1 < 2 ^ 31 := by
  induction rows generalizing n size with
  | nil => simp [rowLoop]
  | cons R rest ih =>
    rw [rowLoop]
    by_cases slot : n < slots ∧ n + 1 < 2 ^ 31
    · by_cases holds : heap.Holds n R
      · rw [if_pos slot, if_pos holds, ih, List.length_cons, Nat.forall_lt_succ_left]
        simp only [forall_before_cons, holds, true_and, Nat.not_lt_zero, false_implies,
          implies_true, Nat.add_zero, slot, and_self, Nat.add_right_comm n 1, ← Nat.add_assoc]
      · rw [if_pos slot, if_neg holds]
        simp only [ne_eq, Except.error.injEq, reduceCtorEq, not_false_eq_true, true_iff]
        intro i _ before
        cases i with
        | zero => exact slot
        | succ i => exact absurd (before 0 R (by omega) rfl) holds
    · rw [if_neg slot]
      simp only [ne_eq, not_true_eq_false, false_iff]
      intro all
      exact slot (all 0 (by simp) (by omega))

theorem rowLoop_not_image (failed : rowLoop heap slots n rows size = .error kind) :
    kind ≠ .image := by
  induction rows generalizing n size with
  | nil => cases failed
  | cons R rest ih =>
    rw [rowLoop] at failed
    split at failed
    · split at failed
      · exact ih failed
      · cases failed
        decide
    · cases failed
      decide

theorem store_eq_ok_iff (img : Bytes) (offset : Int) (content out : Bytes) :
    store img offset content = .ok out ↔
      (0 ≤ offset ∧ offset + content.length ≤ img.length) ∧
      out = overwrite img ⟨offset.toNat, content⟩ := by
  simp only [store]
  by_cases inside : 0 ≤ offset ∧ offset + content.length ≤ img.length <;> simp [inside, eq_comm]

/-- The stores of the entries on their own. -/
def entryWrites (phoff : Int) (i : Nat) (rows : List SegmentRow) : List (Write UInt8) :=
  strided phoff.toNat phdrSize i (rows.map fun R => (rowPhdr R).bytes)

theorem rowPairs_fst {phoff : Int} (low : 0 ≤ phoff) (i : Nat) (rows : List SegmentRow) :
    (rowPairs phoff i rows).map Prod.fst = entryWrites phoff i rows := by
  induction rows generalizing i with
  | nil => rfl
  | cons R rest ih =>
    have offset : (phoff + i * phdrSize).toNat = phoff.toNat + i * phdrSize := by omega
    rw [rowPairs, List.map_cons, ih, offset]
    rfl

theorem rowPairs_snd (phoff : Int) (i : Nat) (rows : List SegmentRow) :
    (rowPairs phoff i rows).map Prod.snd = (rows.map loadPhdr).map contentWrite := by
  induction rows generalizing i with
  | nil => rfl
  | cons R rest ih => rw [rowPairs, List.map_cons, ih, List.map_cons, List.map_cons]

theorem storeContent_eq_ok_iff (img : Bytes) (R : SegmentRow) (out : Bytes) :
    storeContent img R = .ok out ↔
      ContentInside img.length R ∧ out = overwrite img (contentWrite (loadPhdr R)) := by
  by_cases empty : R.content.getD [] = []
  · have same : overwrite img (contentWrite (loadPhdr R)) = img := overwrite_empty empty
    simp [storeContent, ContentInside, empty, same, eq_comm]
  · rw [storeContent, if_pos empty, store_eq_ok_iff]
    exact and_congr_left fun _ => ⟨fun inside _ => inside, fun inside => inside empty⟩

theorem contentWrite_fitsIn {size : Nat} (inside : ContentInside size R) :
    (contentWrite (loadPhdr R)).FitsIn size := by
  by_cases empty : R.content.getD [] = []
  · exact Or.inl empty
  · refine Or.inr ?_
    obtain ⟨low, high⟩ := inside empty
    simp only [contentWrite, Write.stop_mk, loadPhdr]
    omega

theorem entryWrite_fitsIn {size : Nat} (inside : EntryInside size phoff n) (R : SegmentRow) :
    (⟨(phoff + n * phdrSize).toNat, (rowPhdr R).bytes⟩ : Write UInt8).FitsIn size := by
  rw [fitsIn_iff (rowPhdr R).bytes_length (by decide)]
  simp only [EntryInside] at inside ⊢
  omega

theorem phdrLoop_eq_ok_iff (phoff : Int) (n : Nat) (rows : List SegmentRow) (img out : Bytes) :
    phdrLoop phoff n rows img = .ok out ↔
      (∀ i R, rows[i]? = some R →
        EntryInside img.length phoff (n + i) ∧ ContentInside img.length R) ∧
        out = overwriteAll img (alternate (rowPairs phoff n rows)) := by
  induction rows generalizing n img with
  | nil => simp [phdrLoop, rowPairs, alternate, overwriteAll, eq_comm]
  | cons R rest ih =>
    have size : (rowPhdr R).bytes.length = phdrSize := (rowPhdr R).bytes_length
    have length : EntryInside img.length phoff n → ContentInside img.length R →
        (overwrite (overwrite img ⟨(phoff + n * phdrSize).toNat, (rowPhdr R).bytes⟩)
          (contentWrite (loadPhdr R))).length = img.length := by
      intro entry content
      have first := overwrite_length (entryWrite_fitsIn entry R)
      rw [overwrite_length (first.symm ▸ contentWrite_fitsIn content), first]
    rw [forall_getElem?_cons
      (P := fun i Q => EntryInside img.length phoff i ∧ ContentInside img.length Q)]
    simp only [phdrLoop, bind_eq_ok_iff, store_eq_ok_iff, storeContent_eq_ok_iff, size, ih]
    constructor
    · rintro ⟨_, ⟨entry, rfl⟩, _, ⟨content, rfl⟩, rest, rfl⟩
      rw [overwrite_length (entryWrite_fitsIn entry R)] at content
      rw [length entry content] at rest
      exact ⟨⟨⟨entry, content⟩, rest⟩, rfl⟩
    · rintro ⟨⟨⟨entry, content⟩, rest⟩, rfl⟩
      refine ⟨_, ⟨entry, rfl⟩, _, ⟨?_, rfl⟩, ?_, rfl⟩
      · rwa [overwrite_length (entryWrite_fitsIn entry R)]
      · rwa [length entry content]

/-! The header stores, and the whole run. -/

theorem ehdrStores_zeros (m : ImageMeta) :
    overwriteAll (List.replicate ehdrSize 0) (ehdrStores m) = m.header.bytes := by
  simp [overwriteAll, overwrite, Write.stop, ehdrStores, leBytes, ident0, ehdrSize, phdrSize,
    RawEhdr.bytes, RawEhdr.fields, ImageMeta.header, record, elfMagic]

theorem ImageMeta.header_bytes_length (m : ImageMeta) : m.header.bytes.length = ehdrSize :=
  RawEhdr.bytes_length rfl

theorem foldlM_store {ws : List (Write UInt8)} {img : Bytes}
    (inside : ∀ w ∈ ws, w.stop ≤ img.length) :
    ws.foldlM (fun img w => store img w.offset w.content) img = .ok (overwriteAll img ws) := by
  induction ws generalizing img with
  | nil => rfl
  | cons w ws ih =>
    have head : (overwrite img w).length = img.length :=
      overwrite_length (Or.inr (inside w List.mem_cons_self))
    rw [List.foldlM_cons, bind_eq_ok_iff]
    refine ⟨overwrite img w, (store_eq_ok_iff _ _ _ _).mpr ⟨?_, rfl⟩, ih ?_⟩
    · have := inside w List.mem_cons_self
      simp only [Write.stop] at this
      omega
    · intro u member
      rw [head]
      exact inside u (List.mem_cons_of_mem _ member)

theorem ehdrStores_inside (m : ImageMeta) : ∀ w ∈ ehdrStores m, w.stop ≤ ehdrSize := by
  simp [ehdrStores, Write.stop, ident0, ehdrSize]

/-- The field stores together write the header record. -/
theorem foldlM_ehdrStores (m : ImageMeta) {size : Nat} (room : ehdrSize ≤ size) :
    (ehdrStores m).foldlM (fun img w => store img w.offset w.content) (List.replicate size 0) =
      .ok (overwrite (List.replicate size 0) ⟨0, m.header.bytes⟩) := by
  have inside := ehdrStores_inside m
  have zeros : List.replicate size (0 : UInt8) =
      List.replicate ehdrSize 0 ++ List.replicate (size - ehdrSize) 0 := by
    rw [List.replicate_append_replicate, Nat.add_sub_cancel' room]
  rw [foldlM_store (by simpa only [List.length_replicate] using fun w member =>
    (inside w member).trans room), zeros, overwriteAll_append (by
      rw [List.length_replicate]
      exact fun w member => Or.inr (inside w member)), ehdrStores_zeros]
  simp [overwrite, Write.stop, m.header_bytes_length]

theorem ehdrSize_le_buildSize (m : ImageMeta) (rows : List SegmentRow) :
    ehdrSize ≤ buildSize m rows :=
  (le_max_left _ _).trans (le_foldl_max _ _).1

/-- The rows whose slots and contents the row loop can fill. -/
def Kept (heap : Heap) (slots : Nat) (rows : List SegmentRow) : Prop :=
  ∀ i R, rows[i]? = some R → (i < slots ∧ i + 1 < 2 ^ 31) ∧ heap.Holds i R

def Inside (m : ImageMeta) (rows : List SegmentRow) : Prop :=
  ∀ i R, rows[i]? = some R →
    EntryInside (buildSize m rows) m.phoff i ∧ ContentInside (buildSize m rows) R

def buildWrites (m : ImageMeta) (rows : List SegmentRow) : List (Write UInt8) :=
  ⟨0, m.header.bytes⟩ :: alternate (rowPairs m.phoff 0 rows)

/-- What the run makes of the result of its row loop. -/
def afterRows (heap : Heap) (m : ImageMeta) (rows : List SegmentRow) : Except Fault Nat → Build
  | .error kind => .fault kind
  | .ok size => if heap.image size then
      match (ehdrStores m).foldlM (fun img w => store img w.offset w.content)
        (List.replicate size 0)
          >>= phdrLoop m.phoff 0 rows with
      | .error kind => .fault kind
      | .ok img => .image img
    else .null

theorem selfBuildElf_eq (heap : Heap) (found : readMeta conn = some m)
    (stmt : conn.segments = .cursor rows ending) :
    selfBuildElf heap conn = afterRows heap m rows (rowLoop heap (rowSlots heap m.phnum) 0 rows
      (max ehdrSize (sizeT (m.phoff + m.phnum * phdrSize)))) := by
  rw [selfBuildElf, found, ← grow_eq_max]
  dsimp only
  rw [stmt]
  rfl

theorem rowLoop_kept (heap : Heap) (m : ImageMeta) (rows : List SegmentRow) (size : Nat) :
    rowLoop heap (rowSlots heap m.phnum) 0 rows
        (max ehdrSize (sizeT (m.phoff + m.phnum * phdrSize))) = .ok size ↔
      Kept heap (rowSlots heap m.phnum) rows ∧ size = buildSize m rows := by
  rw [rowLoop_eq_ok_iff]
  simp only [Nat.zero_add]
  exact Iff.rfl

/-- A run whose row loop completes goes on to the stores. -/
theorem selfBuildElf_kept {heap : Heap} (found : readMeta conn = some m)
    (stmt : conn.segments = .cursor rows ending) (kept : Kept heap (rowSlots heap m.phnum) rows) :
    selfBuildElf heap conn = if heap.image (buildSize m rows) then
        match phdrLoop m.phoff 0 rows
          (overwrite (List.replicate (buildSize m rows) 0) ⟨0, m.header.bytes⟩) with
        | .error kind => .fault kind
        | .ok img => .image img
      else .null := by
  rw [selfBuildElf_eq heap found stmt, (rowLoop_kept heap m rows _).mpr ⟨kept, rfl⟩, afterRows]
  simp only [foldlM_ehdrStores m (ehdrSize_le_buildSize m rows)]
  rfl

theorem header_fitsIn (m : ImageMeta) (rows : List SegmentRow) :
    (⟨0, m.header.bytes⟩ : Write UInt8).FitsIn
    (List.replicate (buildSize m rows) (0 : UInt8)).length := by
  rw [fitsIn_iff m.header_bytes_length (by decide), List.length_replicate]
  rw [Nat.zero_add]
  exact ehdrSize_le_buildSize m rows

theorem phdrLoop_inside (m : ImageMeta) (rows : List SegmentRow) (img : Bytes) :
    phdrLoop m.phoff 0 rows
        (overwrite (List.replicate (buildSize m rows) 0) ⟨0, m.header.bytes⟩) = .ok img ↔
      Inside m rows ∧
        img = overwriteAll (List.replicate (buildSize m rows) 0) (buildWrites m rows) := by
  rw [phdrLoop_eq_ok_iff, overwrite_length (header_fitsIn m rows), List.length_replicate]
  simp only [Nat.zero_add]
  exact Iff.rfl

theorem selfBuildElf_eq_image_iff (heap : Heap) (found : readMeta conn = some m)
    (stmt : conn.segments = .cursor rows ending) (img : Bytes) :
    selfBuildElf heap conn = .image img ↔
      Kept heap (rowSlots heap m.phnum) rows ∧ heap.image (buildSize m rows) = true ∧
        Inside m rows ∧
        img = overwriteAll (List.replicate (buildSize m rows) 0) (buildWrites m rows) := by
  by_cases kept : Kept heap (rowSlots heap m.phnum) rows
  · rw [selfBuildElf_kept found stmt kept, ← phdrLoop_inside]
    simp only [kept, true_and]
    by_cases allocated : heap.image (buildSize m rows) = true
    · rw [if_pos allocated]
      simp only [allocated, true_and]
      split <;> simp_all
    · rw [if_neg allocated]
      simp only [allocated, reduceCtorEq, false_and]
  · rw [selfBuildElf_eq heap found stmt]
    simp only [kept, false_and, iff_false]
    cases looped : rowLoop heap (rowSlots heap m.phnum) 0 rows
        (max ehdrSize (sizeT (m.phoff + m.phnum * phdrSize))) with
    | error kind => exact nofun
    | ok size => exact absurd ((rowLoop_kept heap m rows _).mp looped).1 kept

/-! Which databases make every store hit its object. -/

/-- `stop` is within one of the sizes that the image is the maximum of. -/
def RoomFor (m : ImageMeta) (rows : List SegmentRow) (stop : Int) : Prop :=
  stop ≤ ehdrSize ∨ stop ≤ sizeT (m.phoff + m.phnum * phdrSize) ∨
    ∃ R ∈ rows, stop ≤ sizeT (R.offset + R.filesz)

structure SafeRows (heap : Heap) (m : ImageMeta) (rows : List SegmentRow) : Prop where
  /-- Up to the first content that `malloc` refuses, every row has its slot. -/
  slots : ∀ i < rows.length, (∀ j R, j < i → rows[j]? = some R → heap.Holds j R) →
    i < rowSlots heap m.phnum ∧ i + 1 < 2 ^ 31
  entries : (∀ j R, rows[j]? = some R → heap.Holds j R) → ∀ i < rows.length,
    0 ≤ m.phoff + i * phdrSize ∧ RoomFor m rows (m.phoff + i * phdrSize + phdrSize)
  contents : (∀ j R, rows[j]? = some R → heap.Holds j R) → ∀ R ∈ rows,
    R.content.getD [] ≠ [] → 0 ≤ R.offset ∧ RoomFor m rows (R.offset + (R.content.getD []).length)

theorem roomFor_iff (m : ImageMeta) (rows : List SegmentRow) (stop : Int) :
    RoomFor m rows stop ↔ stop ≤ buildSize m rows := by
  have nat : ∀ n : Nat, stop ≤ n ↔ stop.toNat ≤ n := fun n => by omega
  simp only [RoomFor, nat, buildSize, le_foldl_max_iff, le_max_iff, List.mem_map,
    exists_exists_and_eq_and, or_assoc]

theorem inside_iff (m : ImageMeta) (rows : List SegmentRow) :
    Inside m rows ↔
      (∀ i < rows.length, 0 ≤ m.phoff + i * phdrSize ∧
        RoomFor m rows (m.phoff + i * phdrSize + phdrSize)) ∧
      ∀ R ∈ rows, R.content.getD [] ≠ [] →
        0 ≤ R.offset ∧ RoomFor m rows (R.offset + (R.content.getD []).length) := by
  simp only [roomFor_iff]
  constructor
  · intro inside
    constructor
    · intro i small
      exact (inside i _ (List.getElem?_eq_getElem small)).1
    · intro R member
      obtain ⟨i, found⟩ := List.mem_iff_getElem?.mp member
      exact (inside i R found).2
  · rintro ⟨entries, contents⟩ i R found
    exact ⟨entries i (List.getElem?_eq_some_iff.mp found).1,
      contents R (List.mem_of_getElem? found)⟩

theorem phdrLoop_error (failed : phdrLoop phoff n rows img = .error kind) : kind = .image := by
  have stored : ∀ {buf : Bytes} {offset content e}, store buf offset content = .error e →
      e = .image := by
    intro buf offset content e refused
    simp only [store] at refused
    split at refused <;> cases refused
    rfl
  induction rows generalizing n img with
  | nil => cases failed
  | cons R rest ih =>
    rw [phdrLoop] at failed
    cases entry : store img (phoff + n * phdrSize) (rowPhdr R).bytes with
    | error e =>
      rw [entry] at failed
      cases failed
      exact stored entry
    | ok filled =>
      rw [entry] at failed
      change (storeContent filled R >>= phdrLoop phoff (n + 1) rest) = _ at failed
      cases content : storeContent filled R with
      | error e =>
        rw [content] at failed
        cases failed
        rw [storeContent] at content
        split at content
        · exact stored content
        · cases content
      | ok full =>
        rw [content] at failed
        exact ih failed

theorem kept_of_slots {heap : Heap} {slots : Nat} {rows : List SegmentRow}
    (room : ∀ i < rows.length, (∀ j R, j < i → rows[j]? = some R → heap.Holds j R) →
      i < slots ∧ i + 1 < 2 ^ 31)
    (holds : ∀ j R, rows[j]? = some R → heap.Holds j R) : Kept heap slots rows := by
  intro i R atI
  exact ⟨room i (List.getElem?_eq_some_iff.mp atI).1 fun j Q _ => holds j Q, holds i R atI⟩

/-- A run that does not return NULL stays inside its array and its image
exactly for these rows. -/
theorem selfBuildElf_safe_iff {heap : Heap} {conn : Connection} {m : ImageMeta}
    {rows : List SegmentRow} {ending : Ending} (found : readMeta conn = some m)
    (stmt : conn.segments = .cursor rows ending) (returned : selfBuildElf heap conn ≠ .null) :
    (selfBuildElf heap conn ≠ .fault .row ∧ selfBuildElf heap conn ≠ .fault .image) ↔
      SafeRows heap m rows := by
  have slotted := rowLoop_ne_row_iff heap (rowSlots heap m.phnum) 0 rows
    (max ehdrSize (sizeT (m.phoff + m.phnum * phdrSize)))
  simp only [Nat.zero_add] at slotted
  constructor
  · rintro ⟨row, image⟩
    have slots := slotted.mp fun failed => row
      (by rw [selfBuildElf_eq heap found stmt, failed, afterRows])
    have inside : (∀ j R, rows[j]? = some R → heap.Holds j R) → Inside m rows := by
      intro holds
      rw [selfBuildElf_kept found stmt (kept_of_slots slots holds)] at returned image
      split at returned
      · cases looped : phdrLoop m.phoff 0 rows
            (overwrite (List.replicate (buildSize m rows) 0) ⟨0, m.header.bytes⟩) with
        | error kind =>
          cases phdrLoop_error looped
          rw [if_pos ‹_›, looped] at image
          exact absurd rfl image
        | ok img => exact ((phdrLoop_inside m rows img).mp looped).1
      · exact absurd rfl returned
    exact ⟨slots, fun holds => ((inside_iff m rows).mp (inside holds)).1,
      fun holds => ((inside_iff m rows).mp (inside holds)).2⟩
  · intro safe
    by_cases holds : ∀ j R, rows[j]? = some R → heap.Holds j R
    · have inside := (inside_iff m rows).mpr ⟨safe.entries holds, safe.contents holds⟩
      rw [selfBuildElf_kept found stmt (kept_of_slots safe.slots holds),
        (phdrLoop_inside m rows _).mpr ⟨inside, rfl⟩]
      split <;> simp
    · rw [selfBuildElf_eq heap found stmt]
      cases looped : rowLoop heap (rowSlots heap m.phnum) 0 rows
          (max ehdrSize (sizeT (m.phoff + m.phnum * phdrSize))) with
      | error kind =>
        have notRow : kind ≠ .row := fun same => slotted.mpr safe.slots (same ▸ looped)
        have notImage := rowLoop_not_image looped
        simp [afterRows, notRow, notImage]
      | ok size =>
        have kept := ((rowLoop_kept heap m rows size).mp looped).1
        exact absurd (fun j R atJ => (kept j R atJ).2) holds

/-- Every allocation succeeds. -/
def Heap.ample : Heap := ⟨fun _ => true, fun _ _ => true, fun _ => true⟩

def noteRow (id : Int) : SegmentRow :=
  ⟨id, .note, 4, 0, 0, 0, 0, .integer 1, .integer 0, .integer 0, 4, none⟩

/-- A second row was inserted, and `phnum` still counts one. -/
def insertedRow : Database where
  selfMeta key := some
    (metaTable ⟨etDyn, emX86_64, 0, ehdrSize, 0, .integer phdrSize, .integer 1, 0⟩ 1 none key)
  segments := ⟨[noteRow 0, noteRow 1], by decide⟩
  needed := .empty
  symbols := .empty
  relocations := .empty
  metaStored := insertMeta_stored (if_pos (by decide))
  segmentsStored := by decide

theorem selfBuildElf_safe_iff_insertedRow :
    (selfBuildElf .ample insertedRow.connect ≠ .fault .row ∧
      selfBuildElf .ample insertedRow.connect ≠ .fault .image) ↔
      SafeRows .ample ⟨etDyn, emX86_64, 0, ehdrSize, 0, 1, 0⟩ [noteRow 0, noteRow 1] :=
  selfBuildElf_safe_iff rfl rfl (by decide +kernel)

theorem selfBuildElf_insertedRow : selfBuildElf .ample insertedRow.connect = .fault .row := by
  decide +kernel

end SelfDb
