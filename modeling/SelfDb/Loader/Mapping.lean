import SelfDb.Loader.Kernel
import SelfDb.Loader.Native
import SelfDb.Selfconv.Convert

/-! What `map_segment` does to the bytes of the address space, and what a whole
mapping pass leaves at each address. -/
namespace SelfDb
open Paging Binary

/-- The pages that the mapping of `size` bytes at `start` replaces. -/
def OnPages (start size u : Nat) : Prop := alignDown start ≤ u ∧ u < pageCeil (start + size)

instance (start size u : Nat) : Decidable (OnPages start size u) :=
  inferInstanceAs (Decidable (_ ∧ _))

def segmentMemory (bias start size : Nat) (bytes : Bytes) (prot : Prot) (mem : Memory) : Memory :=
  let pages := wrap (bias + alignDown start)
  let length := pageCeil (start + size) - alignDown start
  ((mem.mapAnonymous pages length .readWrite).copy (wrap (bias + start)) bytes).protect
    pages length prot

/-- The kernel grants the pages of a segment, and their protection when the content is copied. -/
structure SegmentGranted (os : Os) (bias start size : Nat) (bytes : Bytes) (mem : Memory) :
    Prop where
  pages : os.grants mem (wrap (bias + alignDown start))
    (pageCeil (start + size) - alignDown start) = true
  prot : os.protects ((mem.mapAnonymous (wrap (bias + alignDown start))
    (pageCeil (start + size) - alignDown start) .readWrite).copy (wrap (bias + start)) bytes)
    (wrap (bias + alignDown start)) (pageCeil (start + size) - alignDown start) = true

theorem orDie_eq_ok_iff (why : Die) (answer : Option α) (a : α) :
    orDie why answer = .ok a ↔ answer = some a := by
  cases answer <;> simp [orDie]

/-- Without pages there is nothing to map, and the run dies. -/
theorem mapSegment_pages {os : Os} (page : bias % pageSize = 0)
    (mapped : mapSegment os bias start filesz size src prot mem = .ok after) :
    wrap (pageCeil (start + size) - alignDown start) ≠ 0 := by
  intro none
  simp only [mapSegment, bind_eq_ok_iff, orDie_eq_ok_iff] at mapped
  obtain ⟨_, fixed, _⟩ := mapped
  rw [span_length page, none, mmapFixed, if_pos rfl] at fixed
  cases fixed

/-- The pages of one segment, without wrap-around. -/
theorem segment_pages (small : size < 2 ^ 63) (start : Nat) :
    wrap (pageCeil (start + size) - alignDown start) = pageCeil
      (start + size) - alignDown start := by
  simp only [wrap, pageCeil, alignDown, pageSize]
  omega

theorem copySegment_eq {mem : Memory} (src : Option Bytes)
    (writable : ∀ k < (src.getD []).length, mem.Writable (wrap (d + k))) :
    copySegment mem d src (src.getD []).length = .ok (mem.copy d (src.getD [])) := by
  cases src with
  | none => rfl
  | some content =>
    simp only [copySegment, Option.getD_some] at writable ⊢
    split
    · rw [memcpy, if_pos ⟨le_rfl, writable⟩, List.take_length]
    · have empty : content = [] := List.eq_nil_of_length_eq_zero (not_not.mp ‹_›)
      rw [empty, Memory.copy_nil]

/-- Where the pages of a segment begin, and that they end below 2^64. -/
theorem segment_placed (placed : Placed bias lo hi) (low : lo ≤ alignDown start)
    (high : pageCeil (start + size) ≤ hi) (pages : alignDown start < pageCeil (start + size)) :
    alignDown (wrap (bias + start)) = wrap (bias + alignDown start) ∧
      wrap (bias + alignDown start) + (pageCeil (start + size) - alignDown start) ≤ 2 ^ 64 := by
  refine ⟨by rw [alignDown_wrap, alignDown_add placed.page], ?_⟩
  have room := placed.room
  rw [placed.address low (pages.trans_le high)]
  omega

theorem segment_inSpan (placed : Placed bias lo hi) (low : lo ≤ alignDown start)
    (high : pageCeil (start + size) ≤ hi) (pages : alignDown start < pageCeil (start + size))
    (bound : k < size) :
    InSpan (wrap (bias + alignDown start)) (pageCeil (start + size) - alignDown start)
      (wrap (wrap (bias + start) + k)) := by
  have before := alignDown_le start
  have after := le_pageCeil (start + size)
  rw [wrap_wrap_add, Nat.add_assoc]
  apply (placed.inSpan_iff (by omega) (by omega) low (by omega) (by omega)).mpr
  simp only [InSpan]
  omega

theorem mapSegment_eq_ok_iff {os : Os} (placed : Placed bias lo hi)
    (low : lo ≤ alignDown start) (high : pageCeil (start + size) ≤ hi) (small : size < 2 ^ 63)
    (pages : alignDown start < pageCeil (start + size)) {bytes : Bytes} (fits : bytes.length ≤ size)
    (src : Option Bytes) (buffer : src.getD [] = bytes) (prot : Prot) (mem after : Memory) :
    mapSegment os bias start bytes.length size src prot mem = .ok after ↔
      SegmentGranted os bias start size bytes mem ∧
        after = segmentMemory bias start size bytes prot mem := by
  subst buffer
  obtain ⟨first, _⟩ := segment_placed placed low high pages
  have positive : 0 < pageCeil (start + size) - alignDown start := Nat.sub_pos_of_lt pages
  have length := span_length placed.page start size
  rw [segment_pages small, first] at length
  have aligned : wrap (bias + alignDown start) % pageSize = 0 := first ▸ alignDown_mod _
  have copied := copySegment_eq src (d := wrap (bias + start)) fun k bound =>
    Memory.mapAnonymous_writable aligned (segment_inSpan placed low high pages
      (bound.trans_le fits)) mem
  simp only [mapSegment, bind_eq_ok_iff, orDie_eq_ok_iff, first, length, mmapFixed,
    if_neg positive.ne', mprotect, Option.ite_none_right_eq_some, Option.some.injEq]
  constructor
  · rintro ⟨_, ⟨granted, rfl⟩, _, copying, protectable, rfl⟩
    cases copying.symm.trans copied
    exact ⟨⟨granted, protectable⟩, rfl⟩
  · rintro ⟨granted, rfl⟩
    exact ⟨_, ⟨granted.pages, rfl⟩, _, copied, granted.prot, rfl⟩

/-- The byte at `u` after the mapping of one row. -/
def segmentByte (start size : Nat) (bytes : Bytes) (u : Nat) (old : UInt8) : UInt8 :=
  ((⟨start, bytes⟩ : Write UInt8).byteAt u).getD (if OnPages start size u then 0 else old)

theorem segmentMemory_byte (placed : Placed bias lo hi) (low : lo ≤ alignDown start)
    (high : pageCeil (start + size) ≤ hi) (pages : alignDown start < pageCeil (start + size))
    {bytes : Bytes} (fits : bytes.length ≤ size) (prot : Prot) (mem : Memory) (lowU : lo ≤ u)
    (highU : u < hi) :
    (segmentMemory bias start size bytes prot mem).byte (wrap (bias + u)) =
      segmentByte start size bytes u (mem.byte (wrap (bias + u))) := by
  have before := alignDown_le start
  have after := le_pageCeil (start + size)
  have zeroed : (mem.mapAnonymous (wrap (bias + alignDown start))
      (pageCeil (start + size) - alignDown start) .readWrite).byte (wrap (bias + u)) =
        if OnPages start size u then 0 else mem.byte (wrap (bias + u)) := by
    refine if_congr ?_ rfl rfl
    rw [placed.inSpan_iff lowU highU low (by omega) (by omega), InSpan, OnPages]
    omega
  rw [segmentMemory, Memory.protect_byte, placed.copy_byte lowU highU (by omega) (by omega), zeroed,
    segmentByte, Write.byteAt]
  split <;> rfl

/-! The load rows of a program. -/

namespace SegmentRow

def start (R : SegmentRow) : Nat := R.vaddr.toNat
def size (R : SegmentRow) : Nat := R.memsz.toNat
def bytes (R : SegmentRow) : Bytes := R.content.getD []
def prot (R : SegmentRow) : Prot := protOf R.r.columnInt64 R.w.columnInt64 R.x.columnInt64

/-- A load row as a converter writes it: `filesz` bytes that fit into `memsz`. -/
structure Loadable (R : SegmentRow) : Prop where
  vaddr : 0 ≤ R.vaddr
  content : (R.bytes.length : Int) = R.filesz
  sizes : R.filesz ≤ R.memsz
  stored : R.Stored

instance (R : SegmentRow) : Decidable R.Loadable :=
  decidable_of_iff (0 ≤ R.vaddr ∧ (R.bytes.length : Int) = R.filesz ∧ R.filesz ≤ R.memsz ∧ R.Stored)
    ⟨fun fits => ⟨fits.1, fits.2.1, fits.2.2.1, fits.2.2.2⟩,
      fun fits => ⟨fits.vaddr, fits.content, fits.sizes, fits.stored⟩⟩

def HasPages (R : SegmentRow) : Prop := alignDown R.start < pageCeil (R.start + R.size)

def Within (R : SegmentRow) (lo hi : Nat) : Prop :=
  lo ≤ alignDown R.start ∧ pageCeil (R.start + R.size) ≤ hi

theorem hasPages_iff (R : SegmentRow) : R.HasPages ↔ ¬ (R.size = 0 ∧ R.start % pageSize = 0) := by
  simp only [HasPages, pageCeil, alignDown, pageSize]
  omega

namespace Loadable

theorem bounds (loadable : Loadable R) : R.start < 2 ^ 63 ∧ R.size < 2 ^ 63 ∧
    R.bytes.length ≤ R.size := by
  have columns := loadable.stored.columns
  simp only [List.forall_mem_cons, Storable] at columns
  have vaddr := loadable.vaddr
  have content := loadable.content
  have sizes := loadable.sizes
  simp only [start, size]
  omega

theorem words (loadable : Loadable R) :
    sizeT R.vaddr = R.start ∧ sizeT R.filesz = R.bytes.length ∧ sizeT R.memsz = R.size := by
  have bounds := loadable.bounds
  have vaddr := loadable.vaddr
  have content := loadable.content
  have sizes := loadable.sizes
  simp only [start, size, sizeT] at bounds ⊢
  omega

end Loadable

end SegmentRow

/-- The buffers for the contents of the rows can be allocated. -/
def BlobsHeld (os : Os) (rows : List SegmentRow) : Prop :=
  ∀ R ∈ rows, R.bytes ≠ [] → os.malloc R.bytes.length = true

instance (os : Os) (rows : List SegmentRow) : Decidable (BlobsHeld os rows) :=
  inferInstanceAs (Decidable (∀ _ ∈ _, _))

theorem copyBlob_inv (copied : copyBlob os content = .ok buf) : buf.getD [] = content.getD [] := by
  rw [copyBlob] at copied
  split at copied
  · cases copied
    exact ‹content.getD [] = []›.symm
  · split at copied
    · cases copied
      rfl
    · cases copied

theorem copyBlob_ok_iff {os : Os} {content : Option Bytes} :
    (∃ buf, copyBlob os content = .ok buf ∧ buf.getD [] = content.getD []) ↔
      (content.getD [] ≠ [] → os.malloc (content.getD []).length = true) := by
  rw [copyBlob]
  by_cases empty : content.getD [] = []
  · rw [if_pos empty]
    exact iff_of_true ⟨none, rfl, empty.symm⟩ (absurd empty)
  · rw [if_neg empty]
    by_cases held : os.malloc (content.getD []).length = true
    · rw [if_pos held]
      exact iff_of_true ⟨content, rfl, rfl⟩ fun _ => held
    · rw [if_neg held]
      exact iff_of_false (by rintro ⟨_, refused, _⟩; cases refused) fun all => held (all empty)

def mapRow (bias : Nat) (mem : Memory) (R : SegmentRow) : Memory :=
  segmentMemory bias R.start R.size R.bytes R.prot mem

/-- The kernel grants the segments of the rows, each over what the rows before it have left. -/
def RowsGranted (os : Os) (bias : Nat) : List SegmentRow → Memory → Prop
  | [], _ => True
  | R :: rest, mem =>
    SegmentGranted os bias R.start R.size R.bytes mem ∧ RowsGranted os bias rest (mapRow bias mem R)

/-- The mapping pass over rows that fit completes, row after row, when all of it is granted. -/
theorem mapLoop_eq_ok_iff {os : Os} (placed : Placed bias lo hi) (phoff : Int)
    {rows : List SegmentRow} (fit : ∀ R ∈ rows, R.Loadable ∧ R.Within lo hi ∧ R.HasPages)
    (phdr : Nat) (mem : Memory) (out : Nat × Memory) :
    mapLoop os bias phoff rows phdr mem = .ok out ↔
      BlobsHeld os rows ∧ RowsGranted os bias rows mem ∧
        out = (rows.foldl (fun phdr R => phdrIn bias phoff R phdr) phdr,
          rows.foldl (mapRow bias) mem) := by
  induction rows generalizing phdr mem with
  | nil =>
    constructor
    · intro looped
      exact ⟨List.forall_mem_nil _, trivial, (Except.ok.inj looped).symm⟩
    · rintro ⟨_, _, rfl⟩
      rfl
  | cons R rest ih =>
    rw [List.forall_mem_cons] at fit
    obtain ⟨⟨loadable, within, pages⟩, later⟩ := fit
    obtain ⟨vaddr, filesz, memsz⟩ := loadable.words
    obtain ⟨_, small, fits⟩ := loadable.bounds
    have segment : ∀ buf after, buf.getD [] = R.bytes →
        (mapSegment os bias R.start R.bytes.length R.size buf R.prot mem = .ok after ↔
          SegmentGranted os bias R.start R.size R.bytes mem ∧ after = mapRow bias mem R) :=
      fun buf after buffer =>
        mapSegment_eq_ok_iff placed within.1 within.2 small pages fits buf buffer R.prot mem after
    rw [BlobsHeld, List.forall_mem_cons, RowsGranted]
    simp only [mapLoop, bind_eq_ok_iff, vaddr, filesz, memsz]
    constructor
    · rintro ⟨buf, copied, next, mapped, looped⟩
      have buffer := copyBlob_inv copied
      obtain ⟨granted, rfl⟩ := (segment buf next buffer).mp mapped
      obtain ⟨held, others, result⟩ := (ih later _ _).mp looped
      exact ⟨⟨copyBlob_ok_iff.mp ⟨buf, copied, buffer⟩, held⟩, ⟨granted, others⟩, result⟩
    · rintro ⟨⟨held, others⟩, ⟨granted, more⟩, result⟩
      obtain ⟨buf, copied, buffer⟩ := copyBlob_ok_iff.mpr held
      exact ⟨buf, copied, _, (segment buf _ buffer).mpr ⟨granted, rfl⟩,
        (ih later _ _).mpr ⟨others, more, result⟩⟩

/-- Every row of a pass that completes had pages to map. -/
theorem mapLoop_pages {os : Os} (page : bias % pageSize = 0) {rows : List SegmentRow}
    (loadable : ∀ R ∈ rows, R.Loadable)
    (mapped : mapLoop os bias phoff rows phdr mem = .ok out) : ∀ R ∈ rows, R.HasPages := by
  induction rows generalizing phdr mem with
  | nil => simp
  | cons R rest ih =>
    simp only [mapLoop, bind_eq_ok_iff] at mapped
    obtain ⟨_, _, _, segment, later⟩ := mapped
    rw [List.forall_mem_cons] at loadable ⊢
    obtain ⟨vaddr, _, memsz⟩ := loadable.1.words
    have pages := mapSegment_pages page segment
    rw [vaddr, memsz, segment_pages loadable.1.bounds.2.1] at pages
    refine ⟨?_, ih loadable.2 later⟩
    simp only [SegmentRow.HasPages]
    omega

theorem foldl_mapRow_byte (placed : Placed bias lo hi) {rows : List SegmentRow}
    (fit : ∀ R ∈ rows, R.Loadable ∧ R.Within lo hi ∧ R.HasPages) (mem : Memory) (lowU : lo ≤ u)
    (highU : u < hi) :
    (rows.foldl (mapRow bias) mem).byte (wrap (bias + u)) =
      rows.foldl (fun old R => segmentByte R.start R.size R.bytes u old)
        (mem.byte (wrap (bias + u))) := by
  induction rows generalizing mem with
  | nil => rfl
  | cons R rest ih =>
    rw [List.forall_mem_cons] at fit
    obtain ⟨⟨loadable, within, pages⟩, later⟩ := fit
    rw [List.foldl_cons, List.foldl_cons, ih later,
      mapRow, segmentMemory_byte placed within.1 within.2 pages loadable.bounds.2.2 _ _ lowU highU]

end SelfDb
