import SelfDb.Loader.ImageBytes
import SelfDb.Selfconv.RoundTrip

/-! Whether a rebuilt image decodes to the rows it was built from. -/
namespace SelfDb
open Binary

/-- Position and width of EI_OSABI, e_type, e_machine, e_entry, e_phoff,
e_shoff, e_flags, e_phnum, e_shnum and e_shstrndx. -/
def headerSpans : List (Nat × Nat) :=
  [(7, 1), (16, 2), (18, 2), (24, 8), (32, 8), (40, 8), (48, 4), (56, 2), (60, 2), (62, 2)]

/-- Every field of a program header but p_paddr. -/
def entrySpans : List (Nat × Nat) := [(0, 4), (4, 4), (8, 8), (16, 8), (32, 8), (40, 8), (48, 8)]

def DecodesMeta (m : ImageMeta) (img : Bytes) : Prop :=
  let h := RawEhdr.read img
  readField img 7 1 = m.osabi ∧ h.type = m.et ∧ h.machine = m.em ∧ h.entry = m.entry ∧
    h.phoff = m.phoff ∧ h.shoff = 0 ∧ h.flags = m.eflags ∧ h.phnum = m.phnum ∧ h.shnum = 0 ∧
    h.shstrndx = 0

def DecodesRow (R : SegmentRow) (h : RawPhdr) : Prop :=
  h.type = R.ptype ∧ h.flags = rowFlags R ∧ h.offset = R.offset ∧ h.vaddr = R.vaddr ∧
    h.filesz = R.filesz ∧ h.memsz = R.memsz ∧ h.align = R.align

/-- No content replaces a byte of these header fields by another one. -/
def HeaderSurvives (m : ImageMeta) (rows : List SegmentRow) : Prop :=
  ∀ span ∈ headerSpans, ∀ k < span.2, ∀ b,
    m.header.bytes[span.1 + k]? = some b → Survives rows 0 (span.1 + k) b

/-- No content of row `i` or later replaces a byte of these fields of entry `i`. -/
def EntriesSurvive (m : ImageMeta) (rows : List SegmentRow) : Prop :=
  ∀ i R, rows[i]? = some R → ∀ span ∈ entrySpans, ∀ k < span.2, ∀ b,
    (rowPhdr R).bytes[span.1 + k]? = some b →
      Survives rows i (m.phoff.toNat + i * phdrSize + (span.1 + k)) b

/-- Fields agree exactly when their bytes do. -/
theorem fields_eq_iff {img record : Bytes} {base : Nat} {spans : List (Nat × Nat)}
    (inside : ∀ span ∈ spans, span.1 + span.2 ≤ record.length)
    (room : base + record.length ≤ img.length) :
    (∀ span ∈ spans, readField img (base + span.1) span.2 = readField record span.1 span.2) ↔
      ∀ span ∈ spans, ∀ k < span.2, ∀ b,
        record[span.1 + k]? = some b → img[base + (span.1 + k)]? = some b := by
  refine forall₂_congr fun span member => ?_
  have fits := inside span member
  rw [readField_eq_iff (by omega) fits]
  refine forall₂_congr fun k small => ?_
  rw [← Nat.add_assoc, List.getElem?_eq_getElem (show span.1 + k < record.length by omega)]
  simp

theorem decodesMeta_iff (m : ImageMeta) (img : Bytes) (osabi : 0 ≤ m.osabi ∧ m.osabi < 256)
    (fields : Representable m.header.fields) :
    DecodesMeta m img ↔ ∀ span ∈ headerSpans,
      readField img (0 + span.1) span.2 = readField m.header.bytes span.1 span.2 := by
  have read : RawEhdr.read m.header.bytes = m.header := RawEhdr.read_of_slice rfl fields (by
    rw [← m.header_bytes_length]
    simp [slice])
  have seven : readField m.header.bytes 7 1 = m.osabi := by
    show leValue (leBytes 1 m.osabi) = m.osabi
    exact leValue_leBytes_of_lt osabi.1 osabi.2
  have type := congrArg RawEhdr.type read
  have machine := congrArg RawEhdr.machine read
  have entry := congrArg RawEhdr.entry read
  have phoff := congrArg RawEhdr.phoff read
  have shoff := congrArg RawEhdr.shoff read
  have flags := congrArg RawEhdr.flags read
  have phnum := congrArg RawEhdr.phnum read
  have shnum := congrArg RawEhdr.shnum read
  have shstrndx := congrArg RawEhdr.shstrndx read
  simp only [RawEhdr.read] at type machine entry phoff shoff flags phnum shnum shstrndx
  simp only [headerSpans, List.forall_mem_cons, List.not_mem_nil, false_implies, implies_true,
    and_true, Nat.zero_add, seven, type, machine, entry, phoff, shoff, flags, phnum, shnum,
    shstrndx]
  exact Iff.rfl

theorem decodesRow_iff (R : SegmentRow) (img : Bytes) (start : Nat)
    (fields : Representable (rowPhdr R).fields) :
    DecodesRow R (RawPhdr.read img start) ↔ ∀ span ∈ entrySpans,
      readField img (start + span.1) span.2 = readField (rowPhdr R).bytes span.1 span.2 := by
  have read : RawPhdr.read (rowPhdr R).bytes 0 = rowPhdr R := RawPhdr.read_of_slice fields (by
    rw [← (rowPhdr R).bytes_length]
    simp [slice])
  have type := congrArg RawPhdr.type read
  have flags := congrArg RawPhdr.flags read
  have offset := congrArg RawPhdr.offset read
  have vaddr := congrArg RawPhdr.vaddr read
  have filesz := congrArg RawPhdr.filesz read
  have memsz := congrArg RawPhdr.memsz read
  have align := congrArg RawPhdr.align read
  simp only [RawPhdr.read, Nat.zero_add] at type flags offset vaddr filesz memsz align
  simp only [entrySpans, List.forall_mem_cons, List.not_mem_nil, false_implies, implies_true,
    and_true, Nat.add_zero, type, flags, offset, vaddr, filesz, memsz, align]
  exact Iff.rfl

/-- The image says what the rows say exactly when no content says otherwise. -/
theorem selfBuildElf_authoritative {heap : Heap} {conn : Connection} {m : ImageMeta}
    {rows : List SegmentRow} {ending : Ending} {img : Bytes} (found : readMeta conn = some m)
    (stmt : conn.segments = .cursor rows ending) (built : selfBuildElf heap conn = .image img)
    (above : ehdrSize ≤ m.phoff)
    (osabi : 0 ≤ m.osabi ∧ m.osabi < 256) (fields : Representable m.header.fields)
    (rowFields : ∀ R ∈ rows, Representable (rowPhdr R).fields) :
    (DecodesMeta m img ∧ ∀ i R, rows[i]? = some R →
        DecodesRow R (RawPhdr.read img (m.phoff.toNat + i * phdrSize))) ↔
      HeaderSurvives m rows ∧ EntriesSurvive m rows := by
  have image := selfBuildElf_isBuilt found stmt built
  refine and_congr ?_ (forall₃_congr fun i R atI => ?_)
  · rw [decodesMeta_iff m img osabi fields, fields_eq_iff
      (by rw [m.header_bytes_length]; decide)
      (by rw [m.header_bytes_length, Nat.zero_add]; exact image.header_inside)]
    refine forall₂_congr fun span member => forall₂_congr fun k small =>
      forall₂_congr fun b value => ?_
    rw [Nat.zero_add]
    exact image.header_get_iff above value
  · have small := (List.getElem?_eq_some_iff.mp atI).1
    rw [decodesRow_iff R img _ (rowFields R (List.mem_of_getElem? atI)), fields_eq_iff
      (by rw [RawPhdr.bytes_length]; decide)
      (by rw [RawPhdr.bytes_length]; exact image.entry_inside small (by omega))]
    refine forall₂_congr fun span member => forall₂_congr fun k small =>
      forall₂_congr fun b value => ?_
    exact image.entry_get_iff atI value

/-- The rows of `mappedFile`, with the entry point updated to 7. -/
def editedEntry : Database where
  selfMeta key := some (metaTable { loadedEhdr mappedFile with entry := 7 } 1 none key)
  segments := ⟨segmentRows 0 (imagePhdrs mappedFile), by decide +kernel⟩
  needed := .empty
  symbols := .empty
  relocations := .empty
  metaStored := insertMeta_stored (if_pos (by decide +kernel))
  segmentsStored := by decide +kernel

def editedMeta : ImageMeta := ⟨etDyn, emX86_64, 7, ehdrSize, 0, 1, 0⟩

theorem readMeta_editedEntry : readMeta editedEntry.connect = some editedMeta := by decide +kernel

/-- The segment carries the header of the file, and with it the old entry point. -/
theorem selfBuildElf_editedEntry : selfBuildElf .ample editedEntry.connect = .image mappedFile := by
  decide +kernel

theorem selfBuildElf_authoritative_editedEntry :
    (DecodesMeta editedMeta mappedFile ∧ ∀ i R, editedEntry.segments.rows[i]? = some R →
      DecodesRow R (RawPhdr.read mappedFile (editedMeta.phoff.toNat + i * phdrSize))) ↔
      HeaderSurvives editedMeta editedEntry.segments.rows ∧
        EntriesSurvive editedMeta editedEntry.segments.rows :=
  selfBuildElf_authoritative readMeta_editedEntry rfl selfBuildElf_editedEntry (by decide)
    (by decide) (by decide) (by decide +kernel)

theorem selfBuildElf_loses_entry :
    (ehdrSize ≤ editedMeta.phoff ∧ editedMeta.phnum = editedEntry.segments.rows.length ∧
      (∀ R ∈ editedEntry.segments.rows, R.content.map List.length = some R.filesz.toNat ∧
        Representable (rowPhdr R).fields) ∧ Representable editedMeta.header.fields) ∧
    readMeta editedEntry.connect = some editedMeta ∧ editedMeta.entry = 7 ∧
    ∃ img, selfBuildElf .ample editedEntry.connect = .image img ∧ (RawEhdr.read img).entry = 0 :=
  ⟨by decide +kernel, readMeta_editedEntry, rfl, mappedFile, selfBuildElf_editedEntry,
    by decide +kernel⟩

end SelfDb
