import SelfDb.Selfconv.ConvertProofs

/-! `serialize_image` as a list of writes over its slice assignments, and
`parse_image` after `serialize_image`. -/
namespace SelfDb
open Binary

/-- `max(64, phoff + 56 * len(phdrs), max(p.offset + p.filesz))`. -/
def imageSize (phoff : Int) (phdrs : List Phdr) : Int :=
  (phdrs.map fun p => p.offset + p.filesz).foldl max
    (max ehdrSize (phoff + phdrs.length * phdrSize))

def EhdrFits (ehdr : Ehdr) (count : Nat) : Prop :=
  (0 ≤ ehdr.osabi ∧ ehdr.osabi < 256) ∧ Representable (ehdr.raw count).fields

def PhdrsFit (phdrs : List Phdr) : Prop := ∀ p ∈ phdrs, Representable p.raw.fields

instance (ehdr : Ehdr) (count : Nat) : Decidable (EhdrFits ehdr count) :=
  inferInstanceAs (Decidable (_ ∧ _))

instance (phdrs : List Phdr) : Decidable (PhdrsFit phdrs) :=
  inferInstanceAs (Decidable (∀ _ ∈ phdrs, _))

def ehdrWrite (ehdr : Ehdr) (count : Nat) : Write UInt8 := ⟨0, (ehdr.raw count).bytes⟩

def tableWrites (phoff : Int) (i : Nat) (phdrs : List Phdr) : List (Write UInt8) :=
  strided phoff.toNat phdrSize i (phdrs.map (·.raw.bytes))

def contentWrite (p : Phdr) : Write UInt8 := ⟨p.offset.toNat, p.content.getD []⟩

theorem foldl_max_left (values : List Int) (a b : Int) :
    max (values.foldl max a) b = values.foldl max (max b a) := by
  induction values generalizing a with
  | nil => exact max_comm a b
  | cons v rest ih => rw [List.foldl_cons, List.foldl_cons, ih, max_assoc]

theorem imageSize_of_maxExtent {phdrs : List Phdr} {extent : Int} (phoff : Int)
    (found : maxExtent phdrs = .ok extent) :
    max (max extent ehdrSize) (phoff + phdrs.length * phdrSize) = imageSize phoff phdrs := by
  cases phdrs with
  | nil => cases found
  | cons p rest =>
    cases found
    have fold : ∀ start, rest.foldl (fun size q => max size (q.offset + q.filesz)) start =
        (rest.map fun q => q.offset + q.filesz).foldl max start := fun start => by
      rw [List.foldl_map]
    rw [fold, max_assoc, foldl_max_left, imageSize, List.map_cons, List.foldl_cons]

theorem le_foldl_max_iff [LinearOrder α] (values : List α) (start x : α) :
    x ≤ values.foldl max start ↔ x ≤ start ∨ ∃ v ∈ values, x ≤ v := by
  induction values generalizing start with
  | nil => simp
  | cons v rest ih => simp [ih, or_assoc]

theorem le_foldl_max [LinearOrder α] (values : List α) (start : α) :
    start ≤ values.foldl max start ∧ ∀ v ∈ values, v ≤ values.foldl max start :=
  ⟨(le_foldl_max_iff _ _ _).mpr (Or.inl le_rfl),
    fun v member => (le_foldl_max_iff _ _ _).mpr (Or.inr ⟨v, member, le_rfl⟩)⟩

theorem ehdrSize_le_imageSize (phoff : Int) (phdrs : List Phdr) :
    ehdrSize ≤ imageSize phoff phdrs :=
  (le_max_left _ _).trans (le_foldl_max _ _).1

theorem table_le_imageSize (phoff : Int) (phdrs : List Phdr) :
    phoff + phdrs.length * phdrSize ≤ imageSize phoff phdrs :=
  (le_max_right _ _).trans (le_foldl_max _ _).1

theorem extent_le_imageSize (phoff : Int) {phdrs : List Phdr} (member : p ∈ phdrs) :
    p.offset + p.filesz ≤ imageSize phoff phdrs :=
  (le_foldl_max _ _).2 _ (List.mem_map_of_mem member)

@[simp] theorem Ehdr.raw_bytes_length (ehdr : Ehdr) (count : Nat) :
    (ehdr.raw count).bytes.length = ehdrSize := RawEhdr.bytes_length rfl

/-- A packed record is never empty, so it has to lie inside the buffer. -/
theorem fitsIn_iff {w : Write UInt8} (size : w.content.length = n) (positive : 0 < n) (room : Nat) :
    w.FitsIn room ↔ w.offset + n ≤ room := by
  have nonempty : w.content ≠ [] := List.ne_nil_of_length_pos (size ▸ positive)
  simp only [Write.FitsIn, nonempty, false_or, Write.stop, size]

theorem ehdrWrite_fitsIn_iff (ehdr : Ehdr) (count room : Nat) :
    (ehdrWrite ehdr count).FitsIn room ↔ ehdrSize ≤ room := by
  rw [fitsIn_iff (ehdr.raw_bytes_length _) (by decide), ehdrWrite, Nat.zero_add]

theorem EhdrFits.phoff_nonneg (fits : EhdrFits ehdr count) : 0 ≤ ehdr.phoff :=
  (fits.2 (8, ehdr.phoff) (by simp [RawEhdr.fields, Ehdr.raw])).1

theorem packEhdr_eq_ok_iff (ehdr : Ehdr) (count : Nat) (img out : Bytes) :
    packEhdr ehdr count img = .ok out ↔
      EhdrFits ehdr count ∧ ehdrSize ≤ img.length ∧ out = overwrite img (ehdrWrite ehdr count) := by
  simp only [packEhdr, bind_eq_ok_iff, Py.raiseIf_eq_ok_iff, Py.structPack_eq_ok_iff,
    Py.packInto_eq_ok_iff, not_not]
  have size : ((ehdr.raw count).ident ++ record (ehdr.raw count).fields).length = ehdrSize :=
    ehdr.raw_bytes_length count
  constructor
  · rintro ⟨_, osabi, _, ⟨fields, rfl⟩, inside, rfl⟩
    rw [size] at inside
    exact ⟨⟨osabi, fields⟩, by omega, rfl⟩
  · rintro ⟨⟨osabi, fields⟩, inside, rfl⟩
    refine ⟨(), osabi, _, ⟨fields, rfl⟩, ⟨le_refl 0, ?_⟩, rfl⟩
    rw [size]
    omega

theorem packPhdrs_eq_ok_iff {phoff : Int} (low : 0 ≤ phoff) (i : Nat) (phdrs : List Phdr)
    (img out : Bytes) :
    packPhdrs phoff i phdrs img = .ok out ↔
      PhdrsFit phdrs ∧ Fits img.length (tableWrites phoff i phdrs) ∧
        out = overwriteAll img (tableWrites phoff i phdrs) := by
  induction phdrs generalizing i img with
  | nil =>
    simp [packPhdrs, PhdrsFit, Fits, tableWrites, strided, overwriteAll, pure, Except.pure, eq_comm]
  | cons p rest ih =>
    simp only [packPhdrs, bind_eq_ok_iff, Py.structPack_eq_ok_iff, Py.packInto_eq_ok_iff]
    have start : 0 ≤ phoff + i * phdrSize := add_nonneg low (by positivity)
    have offset : (phoff + i * phdrSize).toNat = phoff.toNat + i * phdrSize := by omega
    rw [show tableWrites phoff i (p :: rest) =
      ⟨phoff.toNat + i * phdrSize, p.raw.bytes⟩ :: tableWrites phoff (i + 1) rest from rfl]
    simp only [PhdrsFit, Fits, List.forall_mem_cons, offset]
    have headFits : (⟨phoff.toNat + i * phdrSize, p.raw.bytes⟩ : Write UInt8).FitsIn img.length ↔
        phoff.toNat + i * phdrSize + phdrSize ≤ img.length :=
      fitsIn_iff p.raw.bytes_length (by decide) img.length
    have size : (record p.raw.fields).length = phdrSize := p.raw.bytes_length
    constructor
    · rintro ⟨_, ⟨fields, rfl⟩, _, ⟨inside, rfl⟩, later⟩
      have head := headFits.mpr (by rw [size] at inside; omega)
      obtain ⟨restFields, fits, rfl⟩ := (ih (i + 1) _).mp later
      have length := overwrite_length head
      simp only [RawPhdr.bytes] at length
      rw [length] at fits
      exact ⟨⟨fields, restFields⟩, ⟨head, fits⟩, rfl⟩
    · rintro ⟨⟨fields, restFields⟩, ⟨head, fits⟩, rfl⟩
      refine ⟨_, ⟨fields, rfl⟩, _, ⟨⟨start, ?_⟩, rfl⟩, (ih (i + 1) _).mpr ⟨restFields, ?_, rfl⟩⟩
      · have := headFits.mp head
        rw [size]
        omega
      · have length := overwrite_length head
        simp only [RawPhdr.bytes] at length
        rw [length]
        exact fits

/-- Everything `serialize_image` checks, and the bytes it returns. -/
theorem serializeImage_eq_ok_iff (memory : Nat → Bool) (ehdr : Ehdr) (phdrs : List Phdr)
    (img : Bytes) :
    serializeImage memory ehdr phdrs = .ok img ↔
      ∃ laid, laid = layContents (List.replicate (imageSize ehdr.phoff phdrs).toNat 0) phdrs ∧
        phdrs ≠ [] ∧ memory (imageSize ehdr.phoff phdrs).toNat = true ∧
        EhdrFits ehdr phdrs.length ∧ PhdrsFit phdrs ∧
        Fits laid.length (ehdrWrite ehdr phdrs.length :: tableWrites ehdr.phoff 0 phdrs) ∧
        img = overwriteAll laid
          (ehdrWrite ehdr phdrs.length :: tableWrites ehdr.phoff 0 phdrs) := by
  have ehdrFits := ehdrWrite_fitsIn_iff ehdr phdrs.length
  simp only [serializeImage, bind_eq_ok_iff, Py.raiseIf_eq_ok_iff, packEhdr_eq_ok_iff,
    Bool.not_eq_false]
  constructor
  · rintro ⟨extent, found, _, allocated, _, ⟨fits, inside, rfl⟩, table⟩
    rw [imageSize_of_maxExtent ehdr.phoff found] at allocated inside table
    obtain ⟨fields, tableFits, rfl⟩ :=
      (packPhdrs_eq_ok_iff fits.phoff_nonneg 0 phdrs _ img).mp table
    rw [overwrite_length ((ehdrFits _).mpr inside)] at tableFits
    refine ⟨_, rfl, ?_, allocated, fits, fields, ?_, rfl⟩
    · rintro rfl
      cases found
    · rw [Fits, List.forall_mem_cons]
      exact ⟨(ehdrFits _).mpr inside, tableFits⟩
  · rintro ⟨_, rfl, nonempty, allocated, fits, fields, inside, rfl⟩
    rw [Fits, List.forall_mem_cons] at inside
    obtain ⟨extent, found⟩ : ∃ extent, maxExtent phdrs = .ok extent := by
      cases phdrs with
      | nil => exact absurd rfl nonempty
      | cons p rest => exact ⟨_, rfl⟩
    have size := imageSize_of_maxExtent ehdr.phoff found
    refine ⟨extent, found, (), size ▸ allocated, _, ⟨fits, size ▸ (ehdrFits _).mp inside.1, rfl⟩,
      ?_⟩
    rw [size]
    refine (packPhdrs_eq_ok_iff fits.phoff_nonneg 0 phdrs _ _).mpr ⟨fields, ?_, rfl⟩
    rw [overwrite_length inside.1]
    exact inside.2

/-! With contents of exactly `filesz` bytes the slice assignments are writes too. -/

def ContentSized (p : Phdr) : Prop :=
  ∀ content, p.content = some content → 0 ≤ p.offset ∧ (content.length : Int) = p.filesz

theorem layContents_sized {phdrs : List Phdr} (sized : ∀ p ∈ phdrs, ContentSized p) {buf : Bytes}
    (room : ∀ p ∈ phdrs, p.offset + p.filesz ≤ buf.length) :
    Fits buf.length (phdrs.map contentWrite) ∧
      layContents buf phdrs = overwriteAll buf (phdrs.map contentWrite) := by
  induction phdrs generalizing buf with
  | nil => simp [Fits, layContents, overwriteAll]
  | cons p rest ih =>
    rw [List.forall_mem_cons] at sized room
    have head : (contentWrite p).FitsIn buf.length ∧
        layContents buf (p :: rest) = layContents (overwrite buf (contentWrite p)) rest := by
      cases content : p.content with
      | none =>
        have empty : (contentWrite p).content = [] := by simp [contentWrite, content]
        refine ⟨Or.inl empty, ?_⟩
        rw [overwrite_empty empty, layContents, List.foldl_cons, content]
        rfl
      | some bytes =>
        obtain ⟨low, size⟩ := sized.1 bytes content
        have write : contentWrite p = ⟨p.offset.toNat, bytes⟩ := by simp [contentWrite, content]
        refine ⟨Or.inr ?_, ?_⟩
        · have := room.1
          rw [write]
          show p.offset.toNat + bytes.length ≤ buf.length
          omega
        · rw [write, ← Py.setSlice_eq_overwrite low size room.1, layContents, List.foldl_cons,
            content]
          rfl
    have length := overwrite_length head.1
    obtain ⟨fits, laid⟩ := ih sized.2 (show ∀ q ∈ rest, q.offset + q.filesz ≤
      (overwrite buf (contentWrite p)).length by rw [length]; exact room.2)
    rw [length] at fits
    refine ⟨List.forall_mem_cons.mpr ⟨head.1, fits⟩, ?_⟩
    rw [head.2, laid]
    rfl

/-- The writes of `serialize_image` in program order. -/
def imageWrites (ehdr : Ehdr) (phdrs : List Phdr) : List (Write UInt8) :=
  phdrs.map contentWrite ++ ehdrWrite ehdr phdrs.length :: tableWrites ehdr.phoff 0 phdrs

theorem tableWrites_fit {phoff size : Int} (low : 0 ≤ phoff) {phdrs : List Phdr}
    (room : phoff + phdrs.length * phdrSize ≤ size) :
    Fits size.toNat (tableWrites phoff 0 phdrs) := by
  intro w member
  obtain ⟨j, found⟩ := List.mem_iff_getElem?.mp member
  rw [tableWrites, strided_get, List.getElem?_map, Option.map_map, Option.map_eq_some_iff] at found
  obtain ⟨p, atJ, rfl⟩ := found
  have inside := (List.getElem?_eq_some_iff.mp atJ).1
  refine Or.inr ?_
  simp only [Write.stop, Function.comp_apply, RawPhdr.bytes_length, Nat.zero_add]
  simp only [phdrSize] at room ⊢
  omega

/-- `serialize_image` succeeds on rows that fit, and is the last-writer image
of its writes over zeros. -/
theorem serializeImage_sized {memory : Nat → Bool} {ehdr : Ehdr} {phdrs : List Phdr}
    (nonempty : phdrs ≠ []) (allocated : memory (imageSize ehdr.phoff phdrs).toNat = true)
    (fits : EhdrFits ehdr phdrs.length) (fields : PhdrsFit phdrs)
    (sized : ∀ p ∈ phdrs, ContentSized p) :
    Fits (imageSize ehdr.phoff phdrs).toNat (imageWrites ehdr phdrs) ∧
      serializeImage memory ehdr phdrs = .ok
        (overwriteAll (List.replicate (imageSize ehdr.phoff phdrs).toNat 0)
          (imageWrites ehdr phdrs)) := by
  have header := ehdrSize_le_imageSize ehdr.phoff phdrs
  have table := tableWrites_fit fits.phoff_nonneg (table_le_imageSize ehdr.phoff phdrs)
  have length : (List.replicate (imageSize ehdr.phoff phdrs).toNat (0 : UInt8)).length =
      (imageSize ehdr.phoff phdrs).toNat := List.length_replicate
  have room : ∀ p ∈ phdrs, p.offset + p.filesz ≤
      (List.replicate (imageSize ehdr.phoff phdrs).toNat (0 : UInt8)).length := by
    intro p member
    have := extent_le_imageSize ehdr.phoff member
    rw [length]
    omega
  obtain ⟨contents, laid⟩ := layContents_sized sized room
  have ehdrFits : (ehdrWrite ehdr phdrs.length).FitsIn (imageSize ehdr.phoff phdrs).toNat :=
    (ehdrWrite_fitsIn_iff ehdr _ _).mpr (by omega)
  rw [length] at contents
  constructor
  · intro w member
    rcases List.mem_append.mp member with content | header
    · exact contents w content
    · rcases List.mem_cons.mp header with rfl | entry
      · exact ehdrFits
      · exact table w entry
  · rw [serializeImage_eq_ok_iff]
    refine ⟨_, rfl, nonempty, allocated, fits, fields, ?_, ?_⟩
    · rw [laid, overwriteAll_length (by rwa [length]), length]
      exact List.forall_mem_cons.mpr ⟨ehdrFits, table⟩
    · rw [laid, imageWrites, overwriteAll, List.foldl_append]
      rfl

/-- The value at each position: the table wins over the header, the header over
the contents, and what nothing covers is zero. -/
structure IsImage (ehdr : Ehdr) (phdrs : List Phdr) (img : Bytes) : Prop where
  length : (img.length : Int) = imageSize ehdr.phoff phdrs
  get : ∀ p, img[p]? =
    (((lastByte (tableWrites ehdr.phoff 0 phdrs) p).or ((ehdrWrite ehdr phdrs.length).byteAt p)).or
      (lastByte (phdrs.map contentWrite) p)).or (if p < img.length then some 0 else none)

theorem serializeImage_isImage {memory : Nat → Bool} {ehdr : Ehdr} {phdrs : List Phdr} {img : Bytes}
    (sized : ∀ p ∈ phdrs, ContentSized p)
    (serialized : serializeImage memory ehdr phdrs = .ok img) :
    IsImage ehdr phdrs img := by
  obtain ⟨_, _, nonempty, allocated, fits, fields, _, _⟩ :=
    (serializeImage_eq_ok_iff memory ehdr phdrs img).mp serialized
  obtain ⟨inside, computed⟩ := serializeImage_sized nonempty allocated fits fields sized
  cases Except.ok.inj (serialized.symm.trans computed)
  have header := ehdrSize_le_imageSize ehdr.phoff phdrs
  have zeros : (List.replicate (imageSize ehdr.phoff phdrs).toNat (0 : UInt8)).length =
      (imageSize ehdr.phoff phdrs).toNat := List.length_replicate
  have length := overwriteAll_length (zeros.symm ▸ inside)
  constructor
  · rw [length, zeros]
    exact Int.toNat_of_nonneg (by omega)
  · intro p
    rw [overwriteAll_get (zeros.symm ▸ inside), length, zeros, imageWrites, lastByte_append,
      lastByte, List.getElem?_replicate]

namespace IsImage
variable {ehdr : Ehdr} {phdrs : List Phdr} {img : Bytes}

theorem header_inside (image : IsImage ehdr phdrs img) : ehdrSize ≤ img.length := by
  have := ehdrSize_le_imageSize ehdr.phoff phdrs
  have := image.length
  omega

theorem table_inside (image : IsImage ehdr phdrs img) (low : 0 ≤ ehdr.phoff) {i : Nat}
    (found : i < phdrs.length) : ehdr.phoff.toNat + i * phdrSize + phdrSize ≤ img.length := by
  have := table_le_imageSize ehdr.phoff phdrs
  have := image.length
  simp only [phdrSize] at *
  omega

theorem entry (image : IsImage ehdr phdrs img) {i : Nat} {p : Phdr} (found : phdrs[i]? = some p) :
    slice img (ehdr.phoff.toNat + i * phdrSize) phdrSize = p.raw.bytes := by
  have step := (slice_eq_iff img p.raw.bytes (ehdr.phoff.toNat + i * phdrSize)).mpr
  rw [p.raw.bytes_length] at step
  apply step
  intro k small
  have value := List.getElem?_eq_getElem (p.raw.bytes_length ▸ small : k < p.raw.bytes.length)
  have cover := strided_inside ehdr.phoff.toNat phdrSize
    (by rw [List.getElem?_map, found]; rfl : (phdrs.map (·.raw.bytes))[i]? = some p.raw.bytes) value
      small
  rw [image.get, ← lastCover_value, tableWrites, cover, value]
  rfl

theorem header (image : IsImage ehdr phdrs img) (above : ehdrSize ≤ ehdr.phoff) :
    slice img 0 ehdrSize = (ehdr.raw phdrs.length).bytes := by
  have step := (slice_eq_iff img (ehdr.raw phdrs.length).bytes 0).mpr
  rw [ehdr.raw_bytes_length] at step
  apply step
  intro k small
  have value := List.getElem?_eq_getElem
    (ehdr.raw_bytes_length phdrs.length ▸ small : k < (ehdr.raw phdrs.length).bytes.length)
  have outside := strided_outside ehdr.phoff.toNat phdrSize
    (by simp : ∀ record ∈ phdrs.map (·.raw.bytes), record.length = phdrSize) (p := k)
      (Or.inl (by omega))
  rw [image.get, ← lastCover_value, tableWrites, Nat.zero_add, outside, ehdrWrite, Write.byteAt,
    if_pos (Nat.zero_le k), Nat.sub_zero, value]
  rfl

/-- Away from the header and the table the image holds the contents. -/
theorem content (image : IsImage ehdr phdrs img) {p : Nat} (past : ehdrSize ≤ p)
    (outside : p < ehdr.phoff.toNat ∨ ehdr.phoff.toNat + phdrs.length * phdrSize ≤ p) :
    img[p]? = (lastByte (phdrs.map contentWrite) p).or
      (if p < img.length then some 0 else none) := by
  have table := strided_outside ehdr.phoff.toNat phdrSize
    (by simp : ∀ record ∈ phdrs.map (·.raw.bytes), record.length = phdrSize)
    (by rwa [List.length_map] : p < ehdr.phoff.toNat ∨
      ehdr.phoff.toNat + (phdrs.map (·.raw.bytes)).length * phdrSize ≤ p)
  have ehdr : (ehdrWrite ehdr phdrs.length).byteAt p = none := by
    rw [Write.byteAt_eq_none_iff, Write.stop, ehdrWrite, Ehdr.raw_bytes_length]
    refine Or.inr ?_
    show 0 + ehdrSize ≤ p
    omega
  rw [image.get, ← lastCover_value, tableWrites, table, ehdr]
  rfl

theorem header_get (image : IsImage ehdr phdrs img) (above : ehdrSize ≤ ehdr.phoff) {k : Nat}
    (small : k < ehdrSize) : img[k]? = (ehdr.raw phdrs.length).bytes[k]? := by
  rw [← image.header above, slice_get, if_pos small, Nat.zero_add]

theorem read_header (image : IsImage ehdr phdrs img) (above : ehdrSize ≤ ehdr.phoff)
    (fits : EhdrFits ehdr phdrs.length) : RawEhdr.read img = ehdr.raw phdrs.length :=
  RawEhdr.read_of_slice rfl fits.2 (image.header above)

theorem read_entry (image : IsImage ehdr phdrs img) (fields : PhdrsFit phdrs) {i : Nat} {p : Phdr}
    (found : phdrs[i]? = some p) :
    RawPhdr.read img (ehdr.phoff.toNat + i * phdrSize) = p.raw :=
  RawPhdr.read_of_slice (fields p (List.mem_of_getElem? found)) (image.entry found)

theorem magic (image : IsImage ehdr phdrs img) (above : ehdrSize ≤ ehdr.phoff) :
    img.take 4 = elfMagic := by
  apply List.ext_getElem?
  intro k
  rw [List.getElem?_take]
  split
  · rw [image.header_get above (lt_trans ‹_› (by decide))]
    have : k = 0 ∨ k = 1 ∨ k = 2 ∨ k = 3 := by omega
    rcases this with rfl | rfl | rfl | rfl <;> rfl
  · exact (List.getElem?_eq_none (not_lt.mp ‹¬ k < 4›)).symm

theorem entryCount_eq (image : IsImage ehdr phdrs img) (above : ehdrSize ≤ ehdr.phoff)
    (fits : EhdrFits ehdr phdrs.length) : entryCount img = phdrs.length := by
  rw [entryCount, image.read_header above fits]
  exact Int.toNat_natCast _

theorem entryStart_eq (image : IsImage ehdr phdrs img) (above : ehdrSize ≤ ehdr.phoff)
    (fits : EhdrFits ehdr phdrs.length) (i : Nat) :
    entryStart img i = ehdr.phoff.toNat + i * phdrSize := by
  rw [entryStart, image.read_header above fits]
  rfl

theorem elf64 (image : IsImage ehdr phdrs img) (above : ehdrSize ≤ ehdr.phoff)
    (fits : EhdrFits ehdr phdrs.length) : Elf64 img := by
  refine ⟨image.magic above, ?_, ?_, image.header_inside, ?_⟩
  · rw [image.header_get above (by decide)]
    rfl
  · rw [image.header_get above (by decide)]
    rfl
  · intro i hi
    rw [image.entryCount_eq above fits] at hi
    rw [image.entryStart_eq above fits]
    exact image.table_inside fits.phoff_nonneg hi

theorem imageEhdr_eq (image : IsImage ehdr phdrs img) (above : ehdrSize ≤ ehdr.phoff)
    (fits : EhdrFits ehdr phdrs.length) :
    imageEhdr img =
      { ehdr with phentsize := .integer phdrSize, phnum := .integer phdrs.length } := by
  have byte : img[7]? = some (UInt8.ofNat ehdr.osabi.toNat) := image.header_get above (by decide)
  have osabi : ((img[7]?.getD 0).toNat : Int) = ehdr.osabi := by
    have range := fits.1
    rw [byte, Option.getD_some, UInt8.toNat_ofNat']
    omega
  simp only [imageEhdr, image.read_header above fits, osabi, Ehdr.raw]

/-- Parsing an image gives its header and its entries back; the contents are
whatever the image holds in their ranges. -/
theorem parse (image : IsImage ehdr phdrs img) (above : ehdrSize ≤ ehdr.phoff)
    (fits : EhdrFits ehdr phdrs.length) (fields : PhdrsFit phdrs) :
    Elf64 img ∧ imageEhdr img =
        { ehdr with phentsize := .integer phdrSize, phnum := .integer phdrs.length } ∧
      imagePhdrs img = phdrs.map fun p => imagePhdr img p.raw := by
  refine ⟨image.elf64 above fits, image.imageEhdr_eq above fits, ?_⟩
  apply List.ext_getElem?
  intro i
  rw [imagePhdrs_get, image.entryCount_eq above fits, List.getElem?_map]
  split
  · rename_i inside
    have found := List.getElem?_eq_getElem inside
    rw [found, Option.map_some, entryAt, image.entryStart_eq above fits,
      image.read_entry fields found]
  · rw [List.getElem?_eq_none (not_lt.mp ‹_›)]
    rfl

end IsImage

end SelfDb
