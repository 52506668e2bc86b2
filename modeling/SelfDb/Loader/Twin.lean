import SelfDb.Loader.Fidelity
import SelfDb.Selfconv.Normalize

/-! `self_build_elf` against `serialize_image(*load_image(db))`. Python writes
the contents first, then the header, then the table; C writes the header first
and then alternates the entries with the contents. -/
namespace SelfDb
open Binary

theorem metaInt_eq_ok_iff (db : Database) (key : MetaKey) (value : Int) :
    metaInt db key = .ok value ↔ db.selfMeta key = some (.integer value) := by
  rw [metaInt, metaValue]
  cases db.selfMeta key with
  | none => simp [bind, Except.bind]
  | some stored => cases stored <;> simp [bind, Except.bind, pure, Except.pure, throw, throwThe,
      MonadExceptOf.throw]

theorem metaValue_eq_ok_iff (db : Database) (key : MetaKey) (value : Value) :
    metaValue db key = .ok value ↔ db.selfMeta key = some value := by
  rw [metaValue]
  cases db.selfMeta key <;> simp

/-- What C makes of the values that Python reads. -/
def Ehdr.imageMeta (ehdr : Ehdr) : ImageMeta :=
  ⟨ehdr.et, ehdr.em, ehdr.entry, ehdr.phoff, ehdr.eflags, ehdr.phnum.columnInt64, ehdr.osabi⟩

/-- What `load_image` reads, the C reader finds too. -/
theorem loadImage_readMeta (image : loadImage db = .ok (ehdr, phdrs)) :
    phdrs = db.segments.rows.map loadPhdr ∧ readMeta db.connect = some ehdr.imageMeta ∧
      Storable ehdr.phoff := by
  simp only [loadImage, bind_eq_ok_iff, metaInt_eq_ok_iff, metaValue_eq_ok_iff] at image
  obtain ⟨et, hEt, em, hEm, entry, hEntry, phoff, hPhoff, eflags, hEflags, phentsize, _,
    phnum, hPhnum, osabi, hOsabi, result⟩ := image
  cases result
  have value : ∀ {key v}, db.selfMeta key = some v →
      selfGetInt db.connect key = some v.columnInt64 := by
    intro key v found
    simp only [selfGetInt, Database.connect, found]
    rfl
  refine ⟨rfl, ?_, db.metaStored _ _ hPhoff⟩
  simp only [readMeta, value hEt, value hEm, value hEntry, value hPhoff, value hEflags,
    value hPhnum, value hOsabi]
  rfl

/-- The slice assignments of Python. -/
def contentSplices (rows : List SegmentRow) : List (Splice UInt8) :=
  rows.filterMap fun R => R.content.map fun content => ⟨R.offset.toNat, R.filesz.toNat, content⟩

/-- The size of Python's image before the slice assignments. -/
def pythonSize (m : ImageMeta) (rows : List SegmentRow) : Nat :=
  (imageSize m.phoff (rows.map loadPhdr)).toNat

/-- The content byte that the slice assignments leave at a position, or a zero. -/
def splicedByte (m : ImageMeta) (rows : List SegmentRow) (p : Nat) : UInt8 :=
  Splice.filledAt 0 (Splice.origin (pythonSize m rows) (contentSplices rows).reverse p)

def InTable (m : ImageMeta) (rows : List SegmentRow) (p : Nat) : Prop :=
  InRange m.phoff (rows.length * phdrSize) p

/-- The images get one length, and outside header and table each byte comes from contents that
agree: the one that the slice assignments move there, and the last one that C copies over it. -/
structure ContentsAgree (m : ImageMeta) (rows : List SegmentRow) : Prop where
  length : Splice.lengthAfter (pythonSize m rows) (contentSplices rows).reverse = buildSize m rows
  bytes : ∀ p, ehdrSize ≤ p → p < buildSize m rows → ¬ InTable m rows p →
    splicedByte m rows p = (lastByte (contentWrites rows) p).getD 0

/-- What the last content of row `i` or later, or else C's own entry, puts into a byte of entry
`i` is the byte of Python's entry. -/
def TableAgrees (m : ImageMeta) (rows : List SegmentRow) : Prop :=
  ∀ i R, rows[i]? = some R → ∀ k < phdrSize,
    (lastByte (contentWrites (rows.drop i)) (m.phoff.toNat + i * phdrSize + k)).or
      (rowPhdr R).bytes[k]? = (loadPhdr R).raw.bytes[k]?

/-- What the last content, or else the header with the count of `self_meta`,
puts into a header byte is the header byte with the count of the rows. -/
def HeaderAgrees (m : ImageMeta) (rows : List SegmentRow) : Prop :=
  ∀ k < ehdrSize, ¬ InTable m rows k →
    (lastByte (contentWrites rows) k).or m.header.bytes[k]? =
      ({ m with phnum := rows.length } : ImageMeta).header.bytes[k]?

theorem inTable_iff {m : ImageMeta} {rows : List SegmentRow} (low : 0 ≤ m.phoff) (p : Nat) :
    InTable m rows p ↔
      ∃ i < rows.length, ∃ k < phdrSize, p = m.phoff.toNat + i * phdrSize + k := by
  simp only [InTable, InRange]
  constructor
  · rintro ⟨above, below⟩
    refine ⟨(p - m.phoff.toNat) / phdrSize, ?_, (p - m.phoff.toNat) % phdrSize, ?_, ?_⟩
    · rw [Nat.div_lt_iff_lt_mul (by decide)]
      omega
    · exact Nat.mod_lt _ (by decide)
    · have := Nat.div_add_mod' (p - m.phoff.toNat) phdrSize
      omega
  · rintro ⟨i, hi, k, hk, rfl⟩
    simp only [phdrSize] at hk ⊢
    omega

/-- Entries of any kind end with the table. -/
theorem outside_table {m : ImageMeta} {rows : List SegmentRow} (low : 0 ≤ m.phoff)
    (outside : ¬ InTable m rows p) (entry : SegmentRow → RawPhdr) :
    lastCover (strided m.phoff.toNat phdrSize 0 (rows.map fun R => (entry R).bytes)) p = none := by
  refine strided_outside m.phoff.toNat phdrSize (by simp) ?_
  simp only [InTable, InRange, List.length_map] at outside ⊢
  omega

theorem entry_cover (phoff : Int) {rows : List SegmentRow} (found : rows[i]? = some R)
    (entry : SegmentRow → RawPhdr) (small : k < phdrSize) :
    ∃ b, (entry R).bytes[k]? = some b ∧
      lastCover (strided phoff.toNat phdrSize 0 (rows.map fun R => (entry R).bytes))
        (phoff.toNat + i * phdrSize + k) = some (i, b) := by
  have value := List.getElem?_eq_getElem
    ((entry R).bytes_length.symm ▸ small : k < (entry R).bytes.length)
  exact ⟨_, value, strided_inside phoff.toNat phdrSize (by rw [List.getElem?_map, found]; rfl) value
    small⟩

namespace IsBuilt
variable {m : ImageMeta} {rows : List SegmentRow} {img : Bytes}

theorem header_get (built : IsBuilt m rows img) (low : 0 ≤ m.phoff) (small : k < ehdrSize)
    (outside : ¬ InTable m rows k) :
    img[k]? = (lastByte (contentWrites rows) k).or m.header.bytes[k]? := by
  have value := List.getElem?_eq_getElem (m.header_bytes_length.symm ▸ small :
    k < m.header.bytes.length)
  rw [built.get, entryWrites, outside_table low outside, Write.byteAt_zero, value,
    ← lastCover_value]
  cases lastCover (contentWrites rows) k <;> rfl

theorem entry_get (built : IsBuilt m rows img) (found : rows[i]? = some R) (small : k < phdrSize) :
    img[m.phoff.toNat + i * phdrSize + k]? =
      (lastByte (contentWrites (rows.drop i)) (m.phoff.toNat + i * phdrSize + k)).or
        (rowPhdr R).bytes[k]? := by
  obtain ⟨b, value, cover⟩ := entry_cover m.phoff found rowPhdr small
  have later : contentWrites (rows.drop i) = (contentWrites rows).drop i := by
    rw [contentWrites, contentWrites, List.map_drop, List.map_drop]
  rw [built.get, entryWrites, cover, laterOf_drop, value, later]
  cases lastByte ((contentWrites rows).drop i) (m.phoff.toNat + i * phdrSize + k) <;> rfl

theorem content_get (built : IsBuilt m rows img) (low : 0 ≤ m.phoff) (past : ehdrSize ≤ p)
    (outside : ¬ InTable m rows p) :
    img[p]? = (lastByte (contentWrites rows) p).or
      (if p < buildSize m rows then some 0 else none) := by
  have header : m.header.bytes[p]? = none :=
    List.getElem?_eq_none (m.header_bytes_length.symm ▸ past)
  rw [built.get, entryWrites, outside_table low outside, Write.byteAt_zero, header, built.length,
    ← lastCover_value]
  cases lastCover (contentWrites rows) p <;> rfl

end IsBuilt

theorem layContents_eq_spliceAll {rows : List SegmentRow}
    (ranges : ∀ R ∈ rows, 0 ≤ R.offset ∧ 0 ≤ R.filesz) (buf : Bytes) :
    layContents buf (rows.map loadPhdr) = spliceAll buf (contentSplices rows) := by
  induction rows generalizing buf with
  | nil => rfl
  | cons R rest ih =>
    rw [List.forall_mem_cons] at ranges
    have later := ih ranges.2
    simp only [layContents, spliceAll] at later
    rw [List.map_cons, layContents, List.foldl_cons, later, spliceAll]
    cases content : R.content with
    | none => simp only [loadPhdr, content, contentSplices, List.filterMap_cons, Option.map_none]
    | some bytes => simp only [loadPhdr, content, contentSplices, List.filterMap_cons,
        Option.map_some, List.foldl_cons, Py.setSlice_eq_splice ranges.1.1 ranges.1.2]

/-- The regions of the image that Python returns. -/
structure IsSerialized (m : ImageMeta) (rows : List SegmentRow) (py : Bytes) : Prop where
  low : 0 ≤ m.phoff
  length : py.length = Splice.lengthAfter (pythonSize m rows) (contentSplices rows).reverse
  entries : ∀ i R, rows[i]? = some R → ∀ k < phdrSize,
    py[m.phoff.toNat + i * phdrSize + k]? = (loadPhdr R).raw.bytes[k]?
  header : ∀ k < ehdrSize, ¬ InTable m rows k →
    py[k]? = ({ m with phnum := rows.length } : ImageMeta).header.bytes[k]?
  contents : ∀ p, ehdrSize ≤ p → p < py.length → ¬ InTable m rows p →
    py[p]? = some (splicedByte m rows p)

/-- What the Python serializer has checked of its rows. -/
theorem serializeImage_ranges {memory : Nat → Bool} {rows : List SegmentRow}
    (serialized : serializeImage memory ehdr (rows.map loadPhdr) = .ok py) :
    0 ≤ ehdr.phoff ∧ rows.length < 2 ^ 16 ∧ ∀ R ∈ rows, 0 ≤ R.offset ∧ 0 ≤ R.filesz := by
  obtain ⟨_, _, _, _, fits, fields, _, _⟩ := (serializeImage_eq_ok_iff _ _ _ _).mp serialized
  have small : ((rows.map loadPhdr).length : Int) < 256 ^ 2 :=
    (fits.2 (2, (rows.map loadPhdr).length) (by simp [RawEhdr.fields, Ehdr.raw])).2
  rw [List.length_map] at small
  refine ⟨fits.phoff_nonneg, by omega, ?_⟩
  intro R member
  have row := fields _ (List.mem_map_of_mem member)
  exact ⟨(row (8, R.offset) (by simp [RawPhdr.fields, Phdr.raw, loadPhdr])).1,
    (row (8, R.filesz) (by simp [RawPhdr.fields, Phdr.raw, loadPhdr])).1⟩

/-- Both languages write one header, but for the count. -/
theorem EhdrFits.raw_bytes (fits : EhdrFits ehdr count) (rows : Nat) :
    (ehdr.raw rows).bytes = ({ ehdr.imageMeta with phnum := rows } : ImageMeta).header.bytes := by
  have osabi : ehdr.osabi % 256 = ehdr.osabi := Int.emod_eq_of_lt fits.1.1 fits.1.2
  simp only [RawEhdr.bytes, Ehdr.raw, ImageMeta.header, Ehdr.imageMeta, leBytes, osabi,
    RawEhdr.fields, List.append_assoc, List.cons_append, List.nil_append]

/-- The last writes of Python are its table, the header before it, and the contents before that. -/
theorem serialized_get {ehdr : Ehdr} {rows : List SegmentRow}
    (inside : Fits laid.length (ehdrWrite ehdr (rows.map loadPhdr).length ::
      tableWrites ehdr.phoff 0 (rows.map loadPhdr))) (p : Nat) :
    (overwriteAll laid (ehdrWrite ehdr (rows.map loadPhdr).length ::
      tableWrites ehdr.phoff 0 (rows.map loadPhdr)))[p]? =
      (((lastCover (strided ehdr.phoff.toNat phdrSize 0
        (rows.map fun R => (loadPhdr R).raw.bytes)) p).map Prod.snd).or
          (ehdr.raw rows.length).bytes[p]?).or laid[p]? := by
  have table : tableWrites ehdr.phoff 0 (rows.map loadPhdr) =
      strided ehdr.phoff.toNat phdrSize 0 (rows.map fun R => (loadPhdr R).raw.bytes) := by
    rw [tableWrites, List.map_map]
    rfl
  rw [overwriteAll_get inside, lastByte, ← lastCover_value, ehdrWrite, Write.byteAt_zero,
    List.length_map, table]

theorem serializeImage_isSerialized {memory : Nat → Bool}
    (serialized : serializeImage memory ehdr (rows.map loadPhdr) = .ok py) :
    IsSerialized ehdr.imageMeta rows py := by
  have ranges := (serializeImage_ranges serialized).2.2
  obtain ⟨laid, spliced, _, _, fits, _, inside, rfl⟩ :=
    (serializeImage_eq_ok_iff _ _ _ _).mp serialized
  have low := fits.phoff_nonneg
  replace spliced : laid = spliceAll (List.replicate (pythonSize ehdr.imageMeta rows) 0)
    (contentSplices rows) := spliced.trans (layContents_eq_spliceAll ranges _)
  have length : laid.length =
      Splice.lengthAfter (pythonSize ehdr.imageMeta rows) (contentSplices rows).reverse := by
    rw [spliced, spliceAll_length, List.length_replicate]
  have away : ∀ p, ¬ InTable ehdr.imageMeta rows p → lastCover (strided ehdr.phoff.toNat phdrSize 0
      (rows.map fun R => (loadPhdr R).raw.bytes)) p = none := fun p outside =>
    outside_table (m := ehdr.imageMeta) low outside fun R => (loadPhdr R).raw
  refine ⟨low, (overwriteAll_length inside).trans length, ?_, ?_, ?_⟩
  · intro i R found k small
    obtain ⟨b, value, cover⟩ := entry_cover ehdr.phoff found (fun R => (loadPhdr R).raw) small
    rw [show ehdr.imageMeta.phoff = ehdr.phoff from rfl, serialized_get inside, cover, value]
    rfl
  · intro k small outside
    have value := List.getElem?_eq_getElem
      ((ehdr.raw_bytes_length rows.length).symm ▸ small : k < (ehdr.raw rows.length).bytes.length)
    rw [serialized_get inside, away k outside, ← fits.raw_bytes, value]
    rfl
  · intro p past bounded outside
    rw [overwriteAll_length inside, length] at bounded
    rw [serialized_get inside, away p outside, List.getElem?_eq_none
      ((ehdr.raw_bytes_length rows.length).symm ▸ past), spliced, spliceAll_replicate_get 0 bounded]
    rfl

theorem twins_eq_iff (built : IsBuilt m rows img) (serialized : IsSerialized m rows py) :
    img = py ↔ ContentsAgree m rows ∧ TableAgrees m rows ∧ HeaderAgrees m rows := by
  constructor
  · rintro rfl
    have length := built.length
    refine ⟨⟨serialized.length.symm.trans length, ?_⟩, ?_, ?_⟩
    · intro p past bounded outside
      have both := (serialized.contents p past (length ▸ bounded) outside).symm.trans
        (built.content_get serialized.low past outside)
      rw [if_pos bounded, Option.or_some] at both
      exact Option.some.inj both
    · intro i R found k small
      exact (built.entry_get found small).symm.trans (serialized.entries i R found k small)
    · intro k small outside
      exact (built.header_get serialized.low small outside).symm.trans
        (serialized.header k small outside)
  · rintro ⟨contents, table, header⟩
    have length : img.length = py.length :=
      built.length.trans (contents.length.symm.trans serialized.length.symm)
    apply List.ext_getElem?
    intro p
    by_cases inside : InTable m rows p
    · obtain ⟨i, hi, k, small, rfl⟩ := (inTable_iff serialized.low p).mp inside
      have found := List.getElem?_eq_getElem hi
      rw [serialized.entries i _ found k small, built.entry_get found small,
        table i _ found k small]
    · by_cases small : p < ehdrSize
      · rw [serialized.header p small inside, built.header_get serialized.low small inside,
          header p small inside]
      · by_cases bounded : p < img.length
        · rw [serialized.contents p (by omega) (length ▸ bounded) inside,
            built.content_get serialized.low (by omega) inside, ← built.length, if_pos bounded,
            contents.bytes p (by omega) (built.length ▸ bounded) inside, Option.or_some]
        · rw [List.getElem?_eq_none (by omega), List.getElem?_eq_none (by omega)]

/-- Contents of `filesz` bytes move nothing: each is laid over its range. -/
theorem spliceAll_sized {m : ImageMeta} {rows : List SegmentRow}
    (ranges : ∀ R ∈ rows, 0 ≤ R.offset ∧ 0 ≤ R.filesz)
    (sized : ∀ R ∈ rows, ∀ blob ∈ R.content, (blob.length : Int) = R.filesz) :
    Fits (List.replicate (pythonSize m rows) (0 : UInt8)).length (contentWrites rows) ∧
      spliceAll (List.replicate (pythonSize m rows) 0) (contentSplices rows) =
        overwriteAll (List.replicate (pythonSize m rows) 0) (contentWrites rows) := by
  have contents : ∀ p ∈ rows.map loadPhdr, ContentSized p := by
    intro p member content found
    obtain ⟨R, listed, rfl⟩ := List.mem_map.mp member
    exact ⟨(ranges R listed).1, sized R listed content found⟩
  have room : ∀ q ∈ rows.map loadPhdr, q.offset + q.filesz ≤
      (List.replicate (pythonSize m rows) (0 : UInt8)).length := by
    intro q member
    have extent := extent_le_imageSize m.phoff member
    rw [List.length_replicate]
    show _ ≤ ((imageSize m.phoff (rows.map loadPhdr)).toNat : Int)
    omega
  rw [← layContents_eq_spliceAll ranges]
  exact layContents_sized contents room

/-- Contents of `filesz` bytes come out the same when the images have one size. -/
theorem contentsAgree_iff_of_sized {memory : Nat → Bool} {rows : List SegmentRow}
    (serialized : serializeImage memory ehdr (rows.map loadPhdr) = .ok py)
    (sized : ∀ R ∈ rows, ∀ blob ∈ R.content, (blob.length : Int) = R.filesz) :
    ContentsAgree ehdr.imageMeta rows ↔
      imageSize ehdr.phoff (rows.map loadPhdr) = buildSize ehdr.imageMeta rows := by
  obtain ⟨_, _, ranges⟩ := serializeImage_ranges serialized
  obtain ⟨fits, laid⟩ := spliceAll_sized (m := ehdr.imageMeta) ranges sized
  have length : Splice.lengthAfter (pythonSize ehdr.imageMeta rows) (contentSplices rows).reverse =
      pythonSize ehdr.imageMeta rows := by
    have lengths := congrArg List.length laid
    rwa [spliceAll_length, overwriteAll_length fits, List.length_replicate] at lengths
  have positive := ehdrSize_le_imageSize ehdr.phoff (rows.map loadPhdr)
  have size : pythonSize ehdr.imageMeta rows = buildSize ehdr.imageMeta rows ↔
      imageSize ehdr.phoff (rows.map loadPhdr) = buildSize ehdr.imageMeta rows := by
    show (imageSize ehdr.phoff (rows.map loadPhdr)).toNat = _ ↔ _
    omega
  rw [← size]
  constructor
  · intro agree
    exact length.symm.trans agree.length
  · intro same
    refine ⟨length.trans same, ?_⟩
    intro p past bounded outside
    have spliced := spliceAll_replicate_get (0 : UInt8)
      (show p < Splice.lengthAfter _ (contentSplices rows).reverse by rwa [length, same])
    rw [laid, overwriteAll_get fits, List.getElem?_replicate, if_pos (same ▸ bounded),
      Option.or_some] at spliced
    exact (Option.some.inj spliced).symm

/-- When the two serializers of one database return the same bytes. -/
theorem selfBuildElf_eq_self2elf_iff {memory : Nat → Bool} {heap : Heap} {db : Database}
    {ehdr : Ehdr}
    {phdrs : List Phdr} {py img : Bytes} (image : loadImage db = .ok (ehdr, phdrs))
    (serialized : serializeImage memory ehdr phdrs = .ok py)
    (built : selfBuildElf heap db.connect = .image img) :
    (img = py ↔ ContentsAgree ehdr.imageMeta db.segments.rows ∧
      TableAgrees ehdr.imageMeta db.segments.rows ∧ HeaderAgrees ehdr.imageMeta db.segments.rows) ∧
    ((∀ R ∈ db.segments.rows, ∀ blob ∈ R.content, (blob.length : Int) = R.filesz) →
      (ContentsAgree ehdr.imageMeta db.segments.rows ↔
        imageSize ehdr.phoff phdrs = buildSize ehdr.imageMeta db.segments.rows)) ∧
    (ehdr.phnum.columnInt64 = db.segments.rows.length →
      imageSize ehdr.phoff phdrs = buildSize ehdr.imageMeta db.segments.rows) := by
  obtain ⟨rfl, found, stored⟩ := loadImage_readMeta image
  have isBuilt := selfBuildElf_isBuilt found rfl built
  obtain ⟨low, small, ranges⟩ := serializeImage_ranges serialized
  refine ⟨twins_eq_iff isBuilt (serializeImage_isSerialized serialized),
    contentsAgree_iff_of_sized serialized, fun count => ?_⟩
  have few : ehdr.imageMeta.phnum < 2 ^ 16 := count.trans_lt (by omega)
  exact (buildSize_eq_imageSize db.segmentsStored ranges low stored.2 count few).symm

def looseMeta : MetaKey → Option Value
  | .phnum => some (.text "2 rows")
  | .phentsize => some .null
  | key => some (metaTable ⟨2, emX86_64, 0x400000, ehdrSize, 0, .null, .null, 0⟩ 2 none key)

theorem looseMeta_storable (key : MetaKey) (value : Int)
    (found : looseMeta key = some (.integer value)) : Storable value := by
  cases key <;>
    simp only [looseMeta, metaTable, Option.some.injEq, Value.integer.injEq, reduceCtorEq] at found
  all_goals exact found ▸ by decide

/-- Two rows with values of other types where the columns admit them. The first content is
shorter than its range, and the second one covers its end. -/
def looseRows : Database where
  selfMeta := looseMeta
  segments := ⟨[⟨0, .load, ptLoad, 176, 0x400000, 4, 4, .text "yes", .real (1 / 2), .integer 1,
      4096, some [1, 2, 3]⟩, ⟨1, .load, ptLoad, 178, 0x401002, 2, 8, .integer 1, .integer 1,
      .blob [], 4096, some [7, 8]⟩], by decide⟩
  needed := .empty
  symbols := .empty
  relocations := .empty
  metaStored := looseMeta_storable
  segmentsStored := by decide +kernel

theorem selfBuildElf_eq_self2elf_iff_looseRows : ∃ ehdr phdrs py img,
    loadImage looseRows = .ok (ehdr, phdrs) ∧
    serializeImage (fun _ => true) ehdr phdrs = .ok py ∧
    selfBuildElf .ample looseRows.connect = .image img ∧
    (img = py ↔ ContentsAgree ehdr.imageMeta looseRows.segments.rows ∧
      TableAgrees ehdr.imageMeta looseRows.segments.rows ∧
      HeaderAgrees ehdr.imageMeta looseRows.segments.rows) ∧
    ((∀ R ∈ looseRows.segments.rows, ∀ blob ∈ R.content, (blob.length : Int) = R.filesz) →
      (ContentsAgree ehdr.imageMeta looseRows.segments.rows ↔
        imageSize ehdr.phoff phdrs = buildSize ehdr.imageMeta looseRows.segments.rows)) ∧
    (ehdr.phnum.columnInt64 = looseRows.segments.rows.length →
      imageSize ehdr.phoff phdrs = buildSize ehdr.imageMeta looseRows.segments.rows) := by
  let ehdr : Ehdr := ⟨2, emX86_64, 0x400000, ehdrSize, 0, .null, .text "2 rows", 0⟩
  have image : loadImage looseRows = .ok (ehdr, looseRows.segments.rows.map loadPhdr) := by
    decide +kernel
  have serialized : serializeImage (fun _ => true) ehdr (looseRows.segments.rows.map loadPhdr) =
      .ok ((ehdr.raw 2).bytes ++
        looseRows.segments.rows.flatMap (fun R => (loadPhdr R).raw.bytes) ++ [1, 2, 7, 8]) := by
    decide +kernel
  have built : selfBuildElf .ample looseRows.connect = .image (ehdr.imageMeta.header.bytes ++
      looseRows.segments.rows.flatMap (fun R => (rowPhdr R).bytes) ++ [1, 2, 7, 8]) := by
    decide +kernel
  exact ⟨ehdr, _, _, _, image, serialized, built,
    selfBuildElf_eq_self2elf_iff image serialized built⟩

theorem mappedFile_twins : ∃ x, convert (.ok .none) mappedFile = .ok x ∧
    loadImage x = .ok (loadedEhdr mappedFile, (imagePhdrs mappedFile).map loaded) ∧
    serializeImage (fun _ => true) (loadedEhdr mappedFile) ((imagePhdrs mappedFile).map loaded) =
      .ok mappedRebuilt ∧
    ∃ img, selfBuildElf .ample x.connect = .image img ∧ img[41]? = some 0x10 := by
  obtain ⟨x, converted⟩ := mappedFile_converted
  have sound := convert_sound converted
  have allocates : Allocates .ample mappedFile := ⟨rfl, fun _ _ => rfl, rfl⟩
  obtain ⟨img, built⟩ := selfBuildElf_exists mappedFile_plain.loads sound allocates
  have byte := mappedFile_plain.covered (k := 41) sound built
    ⟨0, by decide +kernel, by decide +kernel, by decide +kernel⟩
  exact ⟨x, converted, loadImage_converted sound, by decide +kernel, img, built,
    byte.trans (by decide +kernel)⟩

/-- The section header offset of the file is in one image and not in the other. -/
theorem selfBuildElf_ne_self2elf : ∃ x py img, convert (.ok .none) mappedFile = .ok x ∧
    self2elf (fun _ => true) x = .ok py ∧ selfBuildElf .ample x.connect = .image img ∧
      img ≠ py := by
  obtain ⟨x, converted, image, serialized, img, built, byte⟩ := mappedFile_twins
  refine ⟨x, mappedRebuilt, img, converted, bind_eq_ok_iff.mpr ⟨_, image, serialized⟩, built, ?_⟩
  rintro rfl
  exact absurd byte (by decide +kernel)

end SelfDb
