import SelfDb.Loader.ImageProofs

/-! Who wins at each byte of a rebuilt image: entry `i` is stored before the
contents of row `i` and of every later row, the header before everything. -/
namespace SelfDb
open Binary

def contentWrites (rows : List SegmentRow) : List (Write UInt8) :=
  (rows.map loadPhdr).map contentWrite

theorem rowPairs_fit {size : Nat} (rows : List SegmentRow) (n : Nat)
    (inside : ∀ i R, rows[i]? = some R → EntryInside size phoff (n + i) ∧ ContentInside size R) :
    Fits size (alternate (rowPairs phoff n rows)) := by
  induction rows generalizing n with
  | nil => simp [rowPairs, alternate, Fits]
  | cons R rest ih =>
    rw [forall_getElem?_cons (P := fun i Q => EntryInside size phoff i ∧
      ContentInside size Q)] at inside
    obtain ⟨⟨entry, content⟩, later⟩ := inside
    intro w member
    simp only [rowPairs, alternate, List.flatMap_cons, List.cons_append, List.nil_append,
      List.mem_cons] at member
    rcases member with rfl | rfl | member
    · exact entryWrite_fitsIn entry R
    · exact contentWrite_fitsIn content
    · exact ih (n + 1) later w member

structure IsBuilt (m : ImageMeta) (rows : List SegmentRow) (img : Bytes) : Prop where
  length : img.length = buildSize m rows
  inside : Inside m rows
  get : ∀ p, img[p]? =
    ((laterOf (lastCover (entryWrites m.phoff 0 rows) p)
      (lastCover (contentWrites rows) p)).or
      ((⟨0, m.header.bytes⟩ : Write UInt8).byteAt p)).or (if p < img.length then some 0 else none)

theorem selfBuildElf_isBuilt {heap : Heap} (found : readMeta conn = some m)
    (stmt : conn.segments = .cursor rows ending) (built : selfBuildElf heap conn = .image img) :
    IsBuilt m rows img := by
  obtain ⟨_, _, inside, rfl⟩ := (selfBuildElf_eq_image_iff heap found stmt img).mp built
  have zeros : (List.replicate (buildSize m rows) (0 : UInt8)).length = buildSize m rows :=
    List.length_replicate
  have fits : Fits (List.replicate (buildSize m rows) (0 : UInt8)).length (buildWrites m rows) := by
    rw [buildWrites, Fits, List.forall_mem_cons]
    refine ⟨header_fitsIn m rows, ?_⟩
    rw [zeros]
    refine rowPairs_fit rows 0 ?_
    simpa only [Nat.zero_add, Inside] using inside
  have length := overwriteAll_length fits
  have streams : (rowPairs m.phoff 0 rows).map Prod.fst = entryWrites m.phoff 0 rows := by
    cases rows with
    | nil => rfl
    | cons R rest =>
      have low := (inside 0 R rfl).1.1
      exact rowPairs_fst (by omega) 0 _
  refine ⟨length.trans zeros, inside, ?_⟩
  intro p
  rw [overwriteAll_get fits, length, zeros, buildWrites, lastByte, lastByte_alternate, streams,
    rowPairs_snd, List.getElem?_replicate, contentWrites]

/-- The contents of row `i` and later leave the byte `b` at `p` as it is. -/
def Survives (rows : List SegmentRow) (i p : Nat) (b : UInt8) : Prop :=
  ∀ j c, lastCover (contentWrites rows) p = some (j, c) → i ≤ j → c = b

theorem laterOf_eq_iff (cover : Option (Nat × UInt8)) (i : Nat) (b : UInt8) :
    laterOf (some (i, b)) cover = some b ↔ ∀ j c, cover = some (j, c) → i ≤ j → c = b := by
  rcases cover with _ | ⟨j, c⟩
  · simp [laterOf]
  · simp only [laterOf, Option.some.injEq, Prod.mk.injEq, and_imp]
    constructor
    · rintro kept _ _ rfl rfl after
      rw [if_pos after] at kept
      exact Option.some.inj kept
    · intro same
      split
      · rw [same j c rfl rfl ‹_›]
      · rfl

namespace IsBuilt
variable {m : ImageMeta} {rows : List SegmentRow} {img : Bytes}

theorem header_inside (built : IsBuilt m rows img) : ehdrSize ≤ img.length :=
  (ehdrSize_le_buildSize m rows).trans_eq built.length.symm

theorem entry_inside (built : IsBuilt m rows img) (small : i < rows.length) (low : 0 ≤ m.phoff) :
    m.phoff.toNat + i * phdrSize + phdrSize ≤ img.length := by
  have entry := (built.inside i _ (List.getElem?_eq_getElem small)).1.2
  rw [built.length]
  omega

/-- A byte of the table holds iff no content from its own row on replaces it. -/
theorem entry_get_iff (built : IsBuilt m rows img) (found : rows[i]? = some R)
    (value : (rowPhdr R).bytes[k]? = some b) :
    img[m.phoff.toNat + i * phdrSize + k]? = some b ↔
      Survives rows i (m.phoff.toNat + i * phdrSize + k) b := by
  have small : k < phdrSize := by
    have := (List.getElem?_eq_some_iff.mp value).1
    rwa [RawPhdr.bytes_length] at this
  have cover := strided_inside m.phoff.toNat phdrSize
    (by simp [found] : (rows.map fun R => (rowPhdr R).bytes)[i]? = some (rowPhdr R).bytes)
    value small
  rw [built.get, entryWrites, cover, Survives, ← laterOf_eq_iff]
  cases lastCover (contentWrites rows) (m.phoff.toNat + i * phdrSize + k) with
  | none => simp [laterOf]
  | some found =>
    simp only [laterOf]
    split <;> simp

/-- A byte of the header holds iff no content at all replaces it. -/
theorem header_get_iff (built : IsBuilt m rows img) (above : ehdrSize ≤ m.phoff)
    (value : m.header.bytes[k]? = some b) : img[k]? = some b ↔ Survives rows 0 k b := by
  have small : k < ehdrSize := by
    have := (List.getElem?_eq_some_iff.mp value).1
    rwa [m.header_bytes_length] at this
  have outside := strided_outside m.phoff.toNat phdrSize
    (by simp : ∀ record ∈ rows.map fun R => (rowPhdr R).bytes, record.length = phdrSize) (p := k)
    (Or.inl (by omega))
  rw [built.get, entryWrites, outside, Write.byteAt_zero, value, Survives, ← laterOf_eq_iff]
  cases lastCover (contentWrites rows) k with
  | none => simp [laterOf]
  | some found => simp [laterOf]

end IsBuilt

end SelfDb
