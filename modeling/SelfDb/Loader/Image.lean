import SelfDb.Database

/-! `self_build_elf` of `loader/image.c`. Its stores go through pointers that it
computes from the rows, so a run can end in a store outside the object. -/
namespace SelfDb
open Binary

/-- The conversion of an `int64_t` to `size_t`; signed overflow wraps. -/
def sizeT (value : Int) : Nat := (value % 2 ^ 64).toNat

/-- The allocations that succeed: the `rows` array and the image by their size,
the contents by their row and size. -/
structure Heap where
  rows : Nat → Bool
  content : Nat → Nat → Bool
  image : Nat → Bool

/-- `self_get_int`; `none` leaves `*found` zero. -/
def selfGetInt (conn : Connection) (key : MetaKey) : Option Int :=
  (conn.metaValue key).rows.head?.map Value.columnInt64

structure ImageMeta where
  et : Int
  em : Int
  entry : Int
  phoff : Int
  eflags : Int
  phnum : Int
  osabi : Int
  deriving DecidableEq

def readMeta (conn : Connection) : Option ImageMeta := do
  let et ← selfGetInt conn .et
  let em ← selfGetInt conn .em
  let entry ← selfGetInt conn .entry
  let phoff ← selfGetInt conn .phoff
  let eflags ← selfGetInt conn .eflags
  let phnum ← selfGetInt conn .phnum
  let osabi ← selfGetInt conn .osabi
  return ⟨et, em, entry, phoff, eflags, phnum, osabi⟩

/-- Where a store goes wrong: past the `rows` array or the range of `int n`,
through a content that `malloc` refused, or outside the image. -/
inductive Fault where
  | row
  | content
  | image
  deriving DecidableEq

/-- `sizeof *rows`. -/
def rowSize : Nat := 88

/-- `calloc(phnum ? phnum : 1, sizeof *rows)`: the number of slots behind `rows`. -/
def rowSlots (heap : Heap) (phnum : Int) : Nat :=
  let count := if phnum ≠ 0 then sizeT phnum else 1
  if count * rowSize < 2 ^ 64 ∧ heap.rows (count * rowSize) then count else 0

/-- `if (blob && R->clen)` and then the `malloc`. -/
def Heap.Holds (heap : Heap) (n : Nat) (R : SegmentRow) : Prop :=
  ∀ blob ∈ R.content, blob ≠ [] → heap.content n blob.length = true

instance (heap : Heap) (n : Nat) (R : SegmentRow) : Decidable (heap.Holds n R) :=
  inferInstanceAs (Decidable (∀ _ ∈ R.content, _))

/-- The loop over the statement: `n` rows are stored, `size` is the size so far. -/
def rowLoop (heap : Heap) (slots : Nat) : Nat → List SegmentRow → Nat → Except Fault Nat
  | _, [], size => .ok size
  | n, R :: rest, size =>
    if n < slots ∧ n + 1 < 2 ^ 31 then
      if heap.Holds n R then
        rowLoop heap slots (n + 1) rest
          (if sizeT (R.offset + R.filesz) > size then sizeT (R.offset + R.filesz) else size)
      else .error .content
    else .error .row

/-- A store of `content` at `img + offset`. -/
def store (img : Bytes) (offset : Int) (content : Bytes) : Except Fault Bytes :=
  if 0 ≤ offset ∧ offset + content.length ≤ img.length then
    .ok (overwrite img ⟨offset.toNat, content⟩)
  else .error .image

def ident0 : Bytes := [0x7f, 0x45, 0x4c, 0x46, 2, 1, 1, 0]

/-- The stores to `img` and `eh`; `shoff` and the section counts stay as `calloc` left them. -/
def ehdrStores (m : ImageMeta) : List (Write UInt8) :=
  [⟨0, ident0⟩, ⟨7, leBytes 1 m.osabi⟩, ⟨16, leBytes 2 m.et⟩, ⟨18, leBytes 2 m.em⟩,
    ⟨20, leBytes 4 1⟩, ⟨24, leBytes 8 m.entry⟩, ⟨32, leBytes 8 m.phoff⟩, ⟨48, leBytes 4 m.eflags⟩,
    ⟨52, leBytes 2 ehdrSize⟩, ⟨54, leBytes 2 phdrSize⟩, ⟨56, leBytes 2 m.phnum⟩]

/-- `R->r ? 4 : 0` tests what `sqlite3_column_int64` made of the column. -/
def rowFlags (R : SegmentRow) : Int := rwxFlags (fun value => value.columnInt64 ≠ 0) R

/-- The stores to `ph`. -/
def rowPhdr (R : SegmentRow) : RawPhdr :=
  ⟨R.ptype, rowFlags R, R.offset, R.vaddr, R.vaddr, R.filesz, R.memsz, R.align⟩

/-- `if (R->content && R->clen) memcpy(...)`. -/
def storeContent (img : Bytes) (R : SegmentRow) : Except Fault Bytes :=
  if R.content.getD [] ≠ [] then store img R.offset (R.content.getD []) else .ok img

/-- The loop over the stored rows, header entry before content. -/
def phdrLoop (phoff : Int) : Nat → List SegmentRow → Bytes → Except Fault Bytes
  | _, [], img => .ok img
  | i, R :: rest, img => do
    let img ← store img (phoff + i * phdrSize) (rowPhdr R).bytes
    let img ← storeContent img R
    phdrLoop phoff (i + 1) rest img

inductive Build where
  | null
  | fault (kind : Fault)
  | image (img : Bytes)
  deriving DecidableEq

def selfBuildElf (heap : Heap) (conn : Connection) : Build :=
  match readMeta conn with
  | none => .null
  | some m =>
    match conn.segments with
    | .prepareError => .null
    | .cursor rows _ =>
      let size := if sizeT (m.phoff + m.phnum * phdrSize) > ehdrSize
        then sizeT (m.phoff + m.phnum * phdrSize) else ehdrSize
      match rowLoop heap (rowSlots heap m.phnum) 0 rows size with
      | .error kind => .fault kind
      | .ok size =>
        if heap.image size then
          match (ehdrStores m).foldlM (fun img w => store img w.offset w.content)
            (List.replicate size 0)
              >>= phdrLoop m.phoff 0 rows with
          | .error kind => .fault kind
          | .ok img => .image img
        else .null

end SelfDb
