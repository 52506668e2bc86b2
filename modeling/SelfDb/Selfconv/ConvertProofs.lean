import SelfDb.Selfconv.Convert
import Mathlib.Data.Nat.Bitwise

/-! What `parse_image` accepts and returns, and which rows elf2self makes of it. -/
namespace SelfDb
open Binary

def entryStart (data : Bytes) (i : Nat) : Nat := (RawEhdr.read data).phoff.toNat + i * phdrSize

/-- Entry `i` of the program header table of a file. -/
def entryAt (data : Bytes) (i : Nat) : RawPhdr := RawPhdr.read data (entryStart data i)

def entryCount (data : Bytes) : Nat := (RawEhdr.read data).phnum.toNat

/-- The files `parse_image` accepts: ELF64 little-endian with a complete header
and a complete program header table. -/
structure Elf64 (data : Bytes) : Prop where
  magic : data.take 4 = elfMagic
  class64 : data[4]? = some 2
  little : data[5]? = some 1
  header : ehdrSize ≤ data.length
  table : ∀ i < entryCount data, entryStart data i + phdrSize ≤ data.length

def imageEhdr (data : Bytes) : Ehdr :=
  let h := RawEhdr.read data
  ⟨h.type, h.machine, h.entry, h.phoff, h.flags, .integer h.phentsize, .integer h.phnum,
    (data[7]?.getD 0).toNat⟩

def imagePhdr (data : Bytes) (h : RawPhdr) : Phdr :=
  ⟨h.type, h.flags, h.offset, h.vaddr, h.filesz, h.memsz, h.align,
    if h.type = ptLoad then some (slice data h.offset.toNat h.filesz.toNat) else none⟩

def imagePhdrs (data : Bytes) : List Phdr :=
  (List.range (entryCount data)).map fun i => imagePhdr data (entryAt data i)

theorem parsePhdr_eq_ok_iff (data : Bytes) (i : Nat) (p : Phdr) :
    parsePhdr data (RawEhdr.read data).phoff i = .ok p ↔
      entryStart data i + phdrSize ≤ data.length ∧ p = imagePhdr data (entryAt data i) := by
  have low : 0 ≤ (RawEhdr.read data).phoff := readField_nonneg _ _ _
  have start : ((RawEhdr.read data).phoff + i * phdrSize).toNat = entryStart data i := by
    simp only [entryStart]
    omega
  simp only [parsePhdr, bind_eq_ok_iff, unpackPhdr, start]
  by_cases inside : entryStart data i + phdrSize ≤ data.length
  · have guard : 0 ≤ (RawEhdr.read data).phoff + i * phdrSize ∧
        (RawEhdr.read data).phoff + i * phdrSize + phdrSize ≤ data.length := by
      simp only [entryStart, phdrSize] at inside ⊢
      omega
    have content := Py.getSlice_eq_slice data
      (readField_nonneg data (entryStart data i + 8) 8)
        (readField_nonneg data (entryStart data i + 32) 8)
    simp only [if_pos guard, inside, true_and, Except.ok.injEq, exists_eq_left', imagePhdr, entryAt]
    simp only [pure, Except.pure, Except.ok.injEq, eq_comm (b := p)]
    simp only [RawPhdr.read, content]
    exact Iff.rfl
  · have guard : ¬ (0 ≤ (RawEhdr.read data).phoff + i * phdrSize ∧
        (RawEhdr.read data).phoff + i * phdrSize + phdrSize ≤ data.length) := by
      simp only [entryStart, phdrSize] at inside ⊢
      omega
    simp [if_neg guard, inside]

theorem parseTable_eq_ok_iff (data : Bytes) (phdrs : List Phdr) :
    (List.range (entryCount data)).mapM (parsePhdr data (RawEhdr.read data).phoff) = .ok phdrs ↔
      (∀ i < entryCount data, entryStart data i + phdrSize ≤ data.length) ∧
        phdrs = imagePhdrs data := by
  rw [mapM_eq_ok_iff]
  constructor
  · intro same
    have count : phdrs.length = entryCount data := by
      simpa using (congrArg List.length same).symm
    have entry : ∀ i (_ : i < entryCount data) (hi : i < phdrs.length),
        parsePhdr data (RawEhdr.read data).phoff i = .ok phdrs[i] := by
      intro i hi _
      have position := congrArg (·[i]?) same
      simpa [List.getElem?_range hi, List.getElem?_eq_getElem (show i < phdrs.length by omega)]
        using position
    refine ⟨fun i hi => ((parsePhdr_eq_ok_iff data i _).mp (entry i hi (by omega))).1, ?_⟩
    apply List.ext_getElem
    · simpa [imagePhdrs] using count
    · intro i hi _
      simpa [imagePhdrs] using ((parsePhdr_eq_ok_iff data i _).mp (entry i (by omega) hi)).2
  · rintro ⟨table, rfl⟩
    rw [imagePhdrs, List.map_map]
    apply List.map_congr_left
    intro i member
    exact (parsePhdr_eq_ok_iff data i _).mpr ⟨table i (List.mem_range.mp member), rfl⟩

theorem unpackEhdr_eq_ok_iff (data : Bytes) (h : RawEhdr) :
    unpackEhdr data = .ok h ↔ ehdrSize ≤ data.length ∧ h = RawEhdr.read data := by
  by_cases inside : ehdrSize ≤ data.length <;> simp [unpackEhdr, inside, eq_comm]

theorem parseImage_eq_ok_iff (data : Bytes) (ehdr : Ehdr) (phdrs : List Phdr) :
    parseImage data = .ok (ehdr, phdrs) ↔
      Elf64 data ∧ ehdr = imageEhdr data ∧ phdrs = imagePhdrs data := by
  simp only [parseImage, bind_eq_ok_iff, Py.raiseIf_eq_ok_iff, Py.index_eq_ok_iff,
    unpackEhdr_eq_ok_iff, not_not]
  constructor
  · rintro ⟨_, magic, class64, at4, _, rfl, little, at5, _, rfl, _, ⟨header, rfl⟩,
      osabi, at7, entries, parsed, result⟩
    obtain ⟨table, rfl⟩ := (parseTable_eq_ok_iff data entries).mp parsed
    cases result
    exact ⟨⟨magic, at4, at5, header, table⟩, by simp [imageEhdr, at7], rfl⟩
  · rintro ⟨elf, rfl, rfl⟩
    have inside : 7 < data.length := by
      have := elf.header
      simp only [ehdrSize] at this
      omega
    have at7 := List.getElem?_eq_getElem inside
    refine ⟨(), elf.magic, 2, elf.class64, (), rfl, 1, elf.little, (), rfl, _, ⟨elf.header, rfl⟩,
      data[7], at7, _, (parseTable_eq_ok_iff data _).mpr ⟨elf.table, rfl⟩, ?_⟩
    simp [imageEhdr, at7, pure, Except.pure]

theorem imagePhdrs_length (data : Bytes) : (imagePhdrs data).length = entryCount data := by
  simp [imagePhdrs]

/-- `e_phnum` has 16 bits. -/
theorem Elf64.entryCount_lt (elf : Elf64 data) : entryCount data < 2 ^ 16 := by
  have bound := readField_lt (show 56 + 2 ≤ data.length from le_trans (by decide) elf.header)
  simp only [entryCount, RawEhdr.read]
  omega

theorem imagePhdrs_get (data : Bytes) (i : Nat) :
    (imagePhdrs data)[i]? =
      if i < entryCount data then some (imagePhdr data (entryAt data i)) else none := by
  simp only [imagePhdrs, List.getElem?_map]
  by_cases inside : i < entryCount data <;> simp [inside]

/-! Reading the rows of a converted file back. -/

/-- The header `load_image` returns for the rows of a file. -/
def loadedEhdr (data : Bytes) : Ehdr := { imageEhdr data with phentsize := .integer phdrSize }

/-- `load_image` keeps only the R, W and X bits of the flags. -/
def loaded (p : Phdr) : Phdr := { p with flags := p.flags % 8 }

theorem loaded_length (data : Bytes) : ((imagePhdrs data).map loaded).length = entryCount data := by
  rw [List.length_map, imagePhdrs_length]

structure Converted (data : Bytes) (db : Database) : Prop where
  elf : Elf64 data
  ready : ∀ p ∈ imagePhdrs data, Insertable p ∧ InterpText data p
  rows : db.segments.rows = segmentRows 0 (imagePhdrs data)
  meta_ : ∀ key, key ≠ .interp →
    db.selfMeta key = some (metaTable (imageEhdr data) (entryCount data) none key)
  stored : MetaStorable (imageEhdr data) (entryCount data)

theorem convert_sound (converted : convert lief data = .ok db) : Converted data db := by
  unfold convert at converted
  split at converted
  · cases converted
  rename_i ehdr phdrs parsed
  obtain ⟨elf, rfl, rfl⟩ := (parseImage_eq_ok_iff data ehdr phdrs).mp parsed
  split at converted
  · cases converted
  split at converted
  · cases converted
  rename_i rows interp looped
  obtain ⟨rfl, ready, _⟩ := segmentsLoop_sound looped
  split at converted
  · cases converted
  rename_i selfMeta inserted
  cases converted
  rw [imagePhdrs_length, insertMeta] at inserted
  split at inserted
  · cases inserted
    refine ⟨elf, ready, rfl, ?_, ‹_›⟩
    intro key named
    cases key <;> first | rfl | exact absurd rfl named
  · cases inserted

theorem convert_link (converted : convert lief data = .ok db) :
    ∃ link, lief = .ok link ∧ db.needed = link.needed ∧ db.symbols = link.symbols ∧
      db.relocations = link.relocations := by
  rw [convert] at converted
  split at converted
  · cases converted
  · split at converted
    · cases converted
    · split at converted
      · cases converted
      · split at converted
        · cases converted
        · cases converted
          exact ⟨_, rfl, rfl, rfl, rfl⟩

/-- The conversion fails only on what `Converted` rules out. -/
theorem convert_complete (link : LinkTables) (elf : Elf64 data)
    (ready : ∀ p ∈ imagePhdrs data, Insertable p ∧ InterpText data p)
    (stored : MetaStorable (imageEhdr data) (entryCount data)) :
    ∃ db, convert (.ok link) data = .ok db := by
  have ids : 0 + (imagePhdrs data).length ≤ 2 ^ 63 := by
    have few := elf.entryCount_lt
    rw [imagePhdrs_length]
    omega
  obtain ⟨interp, looped⟩ := segmentsLoop_complete none ids ready
  have parsed := (parseImage_eq_ok_iff data _ _).mpr ⟨elf, rfl, rfl⟩
  unfold convert
  split
  · cases parsed.symm.trans ‹_›
  rename_i ehdr phdrs result
  cases Except.ok.inj (result.symm.trans parsed)
  dsimp only
  split
  · cases looped.symm.trans ‹_›
  rename_i rows last _
  have inserted : insertMeta (imageEhdr data) (imagePhdrs data).length last =
      .ok fun key => some (metaTable (imageEhdr data) (imagePhdrs data).length last key) :=
    if_pos ((imagePhdrs_length data).symm ▸ stored)
  split
  · cases inserted.symm.trans ‹_›
  exact ⟨_, rfl⟩

theorem flag_two_pow (flags : Int) (low : 0 ≤ flags) (k : Nat) :
    flag flags (2 ^ k) = flags / 2 ^ k % 2 := by
  obtain ⟨n, rfl⟩ := Int.eq_ofNat_of_zero_le low
  have digit : n &&& 2 ^ k ≠ 0 ↔ n / 2 ^ k % 2 = 1 := by
    rw [Nat.and_two_pow, Nat.testBit_eq_decide_div_mod_eq]
    by_cases one : n / 2 ^ k % 2 = 1 <;> simp [one]
  have residue : ((n : Int) / 2 ^ k % 2) = ((n / 2 ^ k % 2 : Nat) : Int) := by
    push_cast
    rfl
  rw [flag, Int.toNat_natCast, residue]
  split
  · rw [digit.mp ‹_›]
    rfl
  · have := mt digit.mpr ‹_›
    omega

/-- The flags come back in every language that takes an integer but 0 as true. -/
theorem rwxFlags_segmentRow {truth : Value → Prop} [DecidablePred truth]
    (integers : ∀ value, truth (.integer value) ↔ value ≠ 0) (i : Nat) (p : Phdr)
    (low : 0 ≤ p.flags) : rwxFlags truth (segmentRow i p) = p.flags % 8 := by
  have hr : flag p.flags pfR = p.flags / 4 % 2 := flag_two_pow p.flags low 2
  have hw : flag p.flags pfW = p.flags / 2 % 2 := flag_two_pow p.flags low 1
  have hx : flag p.flags pfX = p.flags / 1 % 2 := flag_two_pow p.flags low 0
  simp only [rwxFlags, segmentRow, integers, hr, hw, hx]
  split <;> split <;> split <;> omega

theorem loadPhdr_segmentRow (i : Nat) (p : Phdr) (low : 0 ≤ p.flags) :
    loadPhdr (segmentRow i p) = loaded p := by
  rw [loadPhdr, rwxFlags_segmentRow (fun _ => Iff.rfl) i p low]
  rfl

theorem map_loadPhdr_segmentRows (i : Nat) (phdrs : List Phdr) (low : ∀ p ∈ phdrs, 0 ≤ p.flags) :
    (segmentRows i phdrs).map loadPhdr = phdrs.map loaded := by
  induction phdrs generalizing i with
  | nil => rfl
  | cons p rest ih =>
    rw [List.forall_mem_cons] at low
    simp only [segmentRows, List.zipIdx_cons, List.map_cons, loadPhdr_segmentRow i p low.1,
      ← ih (i + 1) low.2]

theorem imagePhdrs_flags_nonneg (data : Bytes) : ∀ p ∈ imagePhdrs data, 0 ≤ p.flags := by
  intro p member
  obtain ⟨i, _, rfl⟩ := List.mem_map.mp member
  exact readField_nonneg _ _ _

theorem loadImage_converted (converted : Converted data db) :
    loadImage db = .ok (loadedEhdr data, (imagePhdrs data).map loaded) := by
  have value : ∀ key, key ≠ .interp →
      metaValue db key = .ok (metaTable (imageEhdr data) (entryCount data) none key) := by
    intro key named
    rw [metaValue, converted.meta_ key named]
  have integer : ∀ key v, key ≠ .interp →
      metaTable (imageEhdr data) (entryCount data) none key = .integer v →
        metaInt db key = .ok v := by
    intro key v named same
    rw [metaInt, value key named, same]
    rfl
  have count : (entryCount data : Int) = (RawEhdr.read data).phnum :=
    Int.toNat_of_nonneg (readField_nonneg _ _ _)
  simp only [loadImage, bind_eq_ok_iff, converted.rows,
    map_loadPhdr_segmentRows 0 _ (imagePhdrs_flags_nonneg data)]
  refine ⟨_, integer .et _ (by decide) rfl, _, integer .em _ (by decide) rfl,
    _, integer .entry _ (by decide) rfl, _, integer .phoff _ (by decide) rfl,
    _, integer .eflags _ (by decide) rfl, _, value .phentsize (by decide),
    _, value .phnum (by decide), _, integer .osabi _ (by decide) rfl, ?_⟩
  simp only [metaTable, count, loadedEhdr, imageEhdr, pure, Except.pure]

end SelfDb
