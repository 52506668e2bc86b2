import SelfDb.Selfconv.RoundTrip

/-! The second pass: a rebuilt file has the header, the entries and the ranges
of the file it comes from, and its contents are slices of itself. -/
namespace SelfDb
open Binary

/-- `e` is the file that `self2elf` writes for the rows of `d`. -/
structure Pass (memory : Nat → Bool) (d e : Bytes) : Prop where
  file : WellFormed d
  elf : Elf64 d
  ready : ∀ p ∈ imagePhdrs d, Insertable p
  stored : MetaStorable (imageEhdr d) (entryCount d)
  serialized : serializeImage memory (loadedEhdr d) ((imagePhdrs d).map loaded) = .ok e

/-- Every interpreter path of the file decodes as UTF-8. -/
def InterpTexts (data : Bytes) : Prop := ∀ p ∈ imagePhdrs data, InterpText data p

instance (data : Bytes) : Decidable (InterpTexts data) :=
  inferInstanceAs (Decidable (∀ _ ∈ _, _))

theorem pass_of_convert {memory : Nat → Bool} (file : WellFormed d) (converted : Converted d db)
    (result : self2elf memory db = .ok e) : Pass memory d e := by
  rw [self2elf_converted memory converted] at result
  exact ⟨file, converted.elf, fun p member => (converted.ready p member).1, converted.stored,
    result⟩

theorem normalize_eq_ok_iff {memory : Nat → Bool} (file : WellFormed d) :
    normalize memory d = .ok e ↔ Pass memory d e ∧ InterpTexts d := by
  simp only [normalize, bind_eq_ok_iff]
  constructor
  · rintro ⟨db, converted, result⟩
    have sound := convert_sound converted
    exact ⟨pass_of_convert file sound result, fun p member => (sound.ready p member).2⟩
  · rintro ⟨pass, texts⟩
    obtain ⟨db, converted⟩ := convert_complete .none pass.elf
      (fun p member => ⟨pass.ready p member, texts p member⟩) pass.stored
    refine ⟨db, converted, ?_⟩
    rw [self2elf_converted memory (convert_sound converted), pass.serialized]

namespace Pass
variable {memory : Nat → Bool} {d e : Bytes}

theorem image (pass : Pass memory d e) : IsImage (loadedEhdr d) ((imagePhdrs d).map loaded) e :=
  serializeImage_isImage ((loaded_contents pass.file).sized (loaded_fits pass.elf)) pass.serialized

theorem parsed (pass : Pass memory d e) :
    Elf64 e ∧ imageEhdr e = loadedEhdr d ∧
      imagePhdrs e = (imagePhdrs d).map fun p => imagePhdr e (loaded p).raw := by
  have count := loaded_length d
  have phnum : ((entryCount d : Nat) : Int) = (RawEhdr.read d).phnum :=
    Int.toNat_of_nonneg (readField_nonneg _ _ _)
  obtain ⟨elf, head, entries⟩ := pass.image.parse pass.file.above
    (count ▸ imageEhdr_fits pass.elf) (loaded_fits pass.elf)
  rw [count, phnum] at head
  rw [List.map_map] at entries
  exact ⟨elf, head, entries⟩

theorem count (pass : Pass memory d e) : entryCount e = entryCount d := by
  have lengths := congrArg List.length pass.parsed.2.2
  rwa [List.length_map, imagePhdrs_length, imagePhdrs_length] at lengths

theorem phoff (pass : Pass memory d e) : (RawEhdr.read e).phoff = (RawEhdr.read d).phoff :=
  congrArg Ehdr.phoff pass.parsed.2.1

/-- Entry `i` keeps every field but the ones the first pass rewrites. -/
theorem entry (pass : Pass memory d e) (hi : i < entryCount d) :
    entryAt e i = { entryAt d i with paddr := (entryAt d i).vaddr, flags :=
      (entryAt d i).flags % 8 } := by
  have start : entryStart e i = entryStart d i := by rw [entryStart, pass.phoff, entryStart]
  rw [entryAt, start]
  exact (rebuilt_fields pass.file pass.elf pass.image).entries i hi

theorem size (pass : Pass memory d e) : (e.length : Int) = rebuiltSize d :=
  (rebuilt_fields pass.file pass.elf pass.image).length

theorem extent (pass : Pass memory d e) (hi : i < entryCount d) :
    (entryAt d i).offset + (entryAt d i).filesz ≤ e.length := by
  rw [pass.size]
  exact (le_foldl_max _ _).2 _ (List.mem_map.mpr ⟨i, List.mem_range.mpr hi, rfl⟩)

theorem wellFormed (pass : Pass memory d e) : WellFormed e := by
  constructor
  · rw [pass.count]
    exact pass.file.nonempty
  · rw [pass.phoff]
    exact pass.file.above
  · intro i hi _
    rw [pass.count] at hi
    rw [pass.entry hi]
    exact pass.extent hi

theorem rebuiltSize_eq (pass : Pass memory d e) : rebuiltSize e = rebuiltSize d := by
  simp only [rebuiltSize, pass.count, pass.phoff]
  congr 1
  apply List.map_congr_left
  intro i member
  rw [pass.entry (List.mem_range.mp member)]

theorem covered_iff (pass : Pass memory d e) (k : Nat) : Covered e k ↔ Covered d k := by
  simp only [Covered, pass.count]
  refine exists_congr fun i => and_congr_right fun hi => ?_
  rw [pass.entry hi]

theorem loadedEhdr_eq (pass : Pass memory d e) : loadedEhdr e = loadedEhdr d := by
  rw [loadedEhdr, pass.parsed.2.1, loadedEhdr]

/-- The second pass packs the same table. -/
theorem raws (pass : Pass memory d e) :
    ((imagePhdrs e).map loaded).map (·.raw.bytes) = ((imagePhdrs d).map loaded).map
    (·.raw.bytes) := by
  rw [pass.parsed.2.2]
  simp only [List.map_map]
  apply List.map_congr_left
  intro p _
  simp only [Function.comp_apply, loaded, Phdr.raw, imagePhdr, Int.emod_emod]

theorem stored_again (pass : Pass memory d e) : MetaStorable (imageEhdr e) (entryCount e) := by
  have stored := pass.stored
  rw [pass.count, pass.parsed.2.1]
  exact stored

theorem ready_again (pass : Pass memory d e) : ∀ p ∈ imagePhdrs e, Insertable p := by
  intro p member
  rw [pass.parsed.2.2] at member
  obtain ⟨q, listed, rfl⟩ := List.mem_map.mp member
  have ready := pass.ready q listed
  refine ⟨ready.stored, ?_⟩
  intro content found
  obtain ⟨i, hi, rfl⟩ := List.mem_map.mp listed
  have hi := List.mem_range.mp hi
  by_cases isLoad : (entryAt d i).type = ptLoad
  · have bound := ready.small (slice d (entryAt d i).offset.toNat (entryAt d i).filesz.toNat)
      (by simp [imagePhdr, isLoad])
    have offset : 0 ≤ (entryAt d i).offset := readField_nonneg _ _ _
    have filesz : 0 ≤ (entryAt d i).filesz := readField_nonneg _ _ _
    have inside := pass.file.loads i hi isLoad
    have same : content = slice e (entryAt d i).offset.toNat (entryAt d i).filesz.toNat := by
      simpa [imagePhdr, loaded, Phdr.raw, isLoad, eq_comm] using found
    rw [same, slice_length]
    rw [slice_length] at bound
    omega
  · simp [imagePhdr, loaded, Phdr.raw, isLoad] at found

theorem serialized_again (pass : Pass memory d e) :
    ∃ out, serializeImage memory (loadedEhdr e) ((imagePhdrs e).map loaded) = .ok out := by
  have elf := pass.parsed.1
  have count := loaded_length e
  obtain ⟨_, _, _, allocated, _⟩ := (serializeImage_eq_ok_iff memory _ _ _).mp pass.serialized
  have sized := (loaded_contents pass.wellFormed).sized (loaded_fits elf)
  refine ⟨_, (serializeImage_sized ?_ ?_ ?_ (loaded_fits elf) sized).2⟩
  · exact List.ne_nil_of_length_pos (count ▸ pass.wellFormed.nonempty)
  · rwa [imageSize_loaded, pass.rebuiltSize_eq, ← imageSize_loaded]
  · rw [count]
    exact imageEhdr_fits elf

theorem tableWrites_again (pass : Pass memory d e) :
    tableWrites (loadedEhdr e).phoff 0 ((imagePhdrs e).map loaded) =
      tableWrites (loadedEhdr d).phoff 0 ((imagePhdrs d).map loaded) := by
  rw [tableWrites, pass.raws, pass.loadedEhdr_eq, tableWrites]

theorem ehdrWrite_again (pass : Pass memory d e) :
    ehdrWrite (loadedEhdr e) ((imagePhdrs e).map loaded).length =
      ehdrWrite (loadedEhdr d) ((imagePhdrs d).map loaded).length := by
  rw [loaded_length, loaded_length, pass.count, pass.loadedEhdr_eq]

/-- Two images of one header, one table and the same ranges, where the second
takes its contents from the first. -/
theorem image_again (pass : Pass memory d e)
    (second : IsImage (loadedEhdr e) ((imagePhdrs e).map loaded) out) : out = e := by
  have image := pass.image
  have length : out.length = e.length := by
    have first := image.length
    have last := second.length
    rw [imageSize_loaded] at first last
    rw [pass.rebuiltSize_eq] at last
    omega
  apply List.ext_getElem?
  intro k
  by_cases inside : k < e.length
  · have before := image.get k
    rw [map_loaded_contentWrite] at before
    rw [second.get, pass.tableWrites_again, pass.ehdrWrite_again, map_loaded_contentWrite, length]
    by_cases covered : Covered e k
    · -- Where neither header nor table is written, the content is the byte itself.
      rw [fileWrites_covered covered inside, List.getElem?_eq_getElem inside]
      rw [List.getElem?_eq_getElem inside] at before
      cases written : (lastByte (tableWrites (loadedEhdr d).phoff 0 ((imagePhdrs d).map loaded))
        k).or
          ((ehdrWrite (loadedEhdr d) ((imagePhdrs d).map loaded).length).byteAt k) with
      | none => rfl
      | some b =>
        rw [before, written]
        rfl
    · rw [before, fileWrites_uncovered covered,
        fileWrites_uncovered (mt (pass.covered_iff k).mpr covered)]
  · rw [List.getElem?_eq_none (by omega), List.getElem?_eq_none (by omega)]

/-- A rebuilt file is rebuilt as itself. -/
theorem again (pass : Pass memory d e) : Pass memory e e := by
  have elf := pass.parsed.1
  have file := pass.wellFormed
  obtain ⟨out, serialized⟩ := pass.serialized_again
  have same := pass.image_again
    (serializeImage_isImage ((loaded_contents file).sized (loaded_fits elf)) serialized)
  exact ⟨file, elf, pass.ready_again, pass.stored_again, same ▸ serialized⟩

end Pass

/-- The only thing that can refuse a rebuilt file is the decoding of its
interpreter paths, and then it is a fixed point. -/
theorem normalize_normalize {memory : Nat → Bool} {d e : Bytes} (file : WellFormed d)
    (first : normalize memory d = .ok e) :
    (normalize memory e = .ok e ↔ InterpTexts e) ∧ ∀ out, normalize memory e = .ok out →
    out = e := by
  obtain ⟨pass, _⟩ := (normalize_eq_ok_iff file).mp first
  have again := pass.again
  constructor
  · rw [normalize_eq_ok_iff again.file]
    exact and_iff_right again
  · intro out second
    have serialized := ((normalize_eq_ok_iff again.file).mp second).1.serialized
    exact Except.ok.inj (serialized.symm.trans again.serialized)

/-- `mappedFile` without its section header offset. -/
def mappedRebuilt : Bytes := oneEntryFile 0 ⟨ptLoad, 5, 0, 0, 0, 120, 120, 0x1000⟩

theorem mappedFile_normalize : normalize (fun _ => true) mappedFile = .ok mappedRebuilt := by
  decide +kernel

theorem normalize_normalize_mappedFile :
    (normalize (fun _ => true) mappedRebuilt = .ok mappedRebuilt ↔ InterpTexts mappedRebuilt) ∧
      ∀ out, normalize (fun _ => true) mappedRebuilt = .ok out → out = mappedRebuilt :=
  normalize_normalize mappedFile_wellFormed mappedFile_normalize

/-- The interpreter path is read from `p_paddr`, which the first pass rewrites. -/
def interpFile (paddr : Int) : Bytes := oneEntryFile 0 ⟨ptInterp, 4, 88, 0x80, paddr, 8, 8, 1⟩

theorem normalize_interpFile :
    WellFormed (interpFile 0) ∧ normalize (fun _ => true) (interpFile 0) = .ok (interpFile 0x80) ∧
      normalize (fun _ => true) (interpFile 0x80) = .error .unicodeDecodeError :=
  ⟨⟨by decide +kernel, by decide +kernel, by decide +kernel⟩, by decide +kernel, by decide +kernel⟩

/-! The rows of the second conversion against those of the first. -/

/-- Rows that differ at most in the regenerated bytes of their contents. -/
def SameRow (d : Bytes) (before after : SegmentRow) : Prop :=
  after = { before with content := after.content } ∧
    match before.content, after.content with
    | none, none => True
    | some old, some new => new.length = old.length ∧
        ∀ k < old.length, ¬ Regenerated d (before.offset.toNat + k) → new[k]? = old[k]?
    | _, _ => False

theorem segmentRow_rebuilt (e : Bytes) (i : Nat) (p : Phdr) (low : 0 ≤ p.flags) :
    segmentRow i (imagePhdr e (loaded p).raw) =
      { segmentRow i p with content := (imagePhdr e (loaded p).raw).content } := by
  have high : 0 ≤ p.flags % 8 := by omega
  have bit : ∀ k < 3, flag (p.flags % 8) (2 ^ k) = flag p.flags (2 ^ k) := by
    intro k small
    rw [flag_two_pow _ high, flag_two_pow _ low]
    obtain rfl | rfl | rfl : k = 0 ∨ k = 1 ∨ k = 2 := by omega
    all_goals omega
  have hr : flag (p.flags % 8) pfR = flag p.flags pfR := bit 2 (by decide)
  have hw : flag (p.flags % 8) pfW = flag p.flags pfW := bit 1 (by decide)
  have hx : flag (p.flags % 8) pfX = flag p.flags pfX := bit 0 (by decide)
  simp only [segmentRow, imagePhdr, loaded, Phdr.raw, hr, hw, hx]

theorem segmentRows_forall₂ {R : SegmentRow → SegmentRow → Prop} {f : Phdr → Phdr} (i : Nat)
    (phdrs : List Phdr) (step : ∀ p ∈ phdrs, ∀ j, R (segmentRow j p) (segmentRow j (f p))) :
    List.Forall₂ R (segmentRows i phdrs) (segmentRows i (phdrs.map f)) := by
  induction phdrs generalizing i with
  | nil => exact .nil
  | cons p rest ih =>
    rw [List.forall_mem_cons] at step
    exact .cons (step.1 i) (ih (i + 1) step.2)

theorem segmentRows_eq_iff {f : Phdr → Phdr} (i : Nat) (phdrs : List Phdr)
    (columns : ∀ p ∈ phdrs, ∀ j,
      segmentRow j (f p) = { segmentRow j p with content := (f p).content }) :
    segmentRows i (phdrs.map f) = segmentRows i phdrs ↔ ∀ p ∈ phdrs, (f p).content = p.content := by
  induction phdrs generalizing i with
  | nil => simp [segmentRows]
  | cons p rest ih =>
    rw [List.forall_mem_cons] at columns ⊢
    have head : segmentRow i (f p) = segmentRow i p ↔ (f p).content = p.content := by
      rw [columns.1 i]
      exact ⟨congrArg SegmentRow.content, fun same => by rw [same]; rfl⟩
    rw [← ih (i + 1) columns.2, ← head]
    simp only [segmentRows, List.map_cons, List.zipIdx_cons, List.cons.injEq]

namespace Pass
variable {memory : Nat → Bool} {d e : Bytes}

/-- The content of a PT_LOAD entry before and after a pass. -/
theorem contents (pass : Pass memory d e) (hi : i < entryCount d)
    (isLoad : (entryAt d i).type = ptLoad) :
    (slice e (entryAt d i).offset.toNat (entryAt d i).filesz.toNat).length =
        (slice d (entryAt d i).offset.toNat (entryAt d i).filesz.toNat).length ∧
      ∀ k < (entryAt d i).filesz.toNat, ¬ Regenerated d ((entryAt d i).offset.toNat + k) →
        e[(entryAt d i).offset.toNat + k]? = d[(entryAt d i).offset.toNat + k]? := by
  have offset : 0 ≤ (entryAt d i).offset := readField_nonneg _ _ _
  have filesz : 0 ≤ (entryAt d i).filesz := readField_nonneg _ _ _
  have inside := pass.file.loads i hi isLoad
  have extent := pass.extent hi
  constructor
  · rw [slice_length, slice_length]
    omega
  · intro k small outside
    apply (rebuilt_fields pass.file pass.elf pass.image).covered _ _ outside
    exact ⟨i, hi, isLoad, by simp only [InRange]; omega⟩

theorem sameRow (pass : Pass memory d e) :
    ∀ p ∈ imagePhdrs d, ∀ j, SameRow d (segmentRow j p)
      (segmentRow j (imagePhdr e (loaded p).raw)) := by
  intro p member j
  have low := imagePhdrs_flags_nonneg d p member
  obtain ⟨i, listed, rfl⟩ := List.mem_map.mp member
  rw [segmentRow_rebuilt e j _ low]
  refine ⟨rfl, ?_⟩
  by_cases isLoad : (entryAt d i).type = ptLoad
  · obtain ⟨length, agree⟩ := pass.contents (List.mem_range.mp listed) isLoad
    simp only [segmentRow, imagePhdr, loaded, Phdr.raw, isLoad, if_true]
    refine ⟨length, ?_⟩
    intro k small outside
    rw [slice_length] at small
    rw [slice_get, slice_get, agree k (by omega) outside]
  · simp [segmentRow, imagePhdr, loaded, Phdr.raw, isLoad]

theorem contents_eq_iff (pass : Pass memory d e) :
    (∀ p ∈ imagePhdrs d, (imagePhdr e (loaded p).raw).content = p.content) ↔
      ∀ k, Covered d k → Regenerated d k → e[k]? = d[k]? := by
  constructor
  · rintro same k ⟨i, hi, isLoad, range⟩ _
    have content := same _ (List.mem_map.mpr ⟨i, List.mem_range.mpr hi, rfl⟩)
    simp only [imagePhdr, loaded, Phdr.raw, isLoad, if_true, Option.some.injEq] at content
    have offset : 0 ≤ (entryAt d i).offset := readField_nonneg _ _ _
    have byte := congrArg (·[k - (entryAt d i).offset.toNat]?) content
    simp only [InRange] at range
    simp only [slice_get] at byte
    rw [if_pos (by omega), if_pos (by omega),
      show (entryAt d i).offset.toNat + (k - (entryAt d i).offset.toNat) = k by omega] at byte
    exact byte
  · intro same p member
    obtain ⟨i, listed, rfl⟩ := List.mem_map.mp member
    have hi := List.mem_range.mp listed
    by_cases isLoad : (entryAt d i).type = ptLoad
    · have offset : 0 ≤ (entryAt d i).offset := readField_nonneg _ _ _
      simp only [imagePhdr, loaded, Phdr.raw, isLoad, if_true, Option.some.injEq]
      apply List.ext_getElem?
      intro k
      rw [slice_get, slice_get]
      split
      · by_cases anew : Regenerated d ((entryAt d i).offset.toNat + k)
        · exact same _ ⟨i, hi, isLoad, by simp only [InRange]; omega⟩ anew
        · exact (pass.contents hi isLoad).2 k ‹_› anew
      · rfl
    · simp [imagePhdr, loaded, Phdr.raw, isLoad]

end Pass

/-- What `sqldiff` can see between a database and its second conversion: the
bytes of PT_LOAD contents that lie in the header or in the table. -/
theorem convert_self2elf_convert {lief : Except PyError LinkTables} {memory : Nat → Bool}
    {d e : Bytes} {x : Database} (file : WellFormed d) (first : convert lief d = .ok x)
    (back : self2elf memory x = .ok e) (texts : InterpTexts e) (link : LinkTables) :
    ∃ y, convert (.ok link) e = .ok y ∧
      (∀ key, key ≠ .interp → y.selfMeta key = x.selfMeta key) ∧
      List.Forall₂ (SameRow d) x.segments.rows y.segments.rows ∧
      (y.segments.rows = x.segments.rows ↔ ∀ k, Covered d k → Regenerated d k → e[k]? = d[k]?) := by
  have before := convert_sound first
  have pass := pass_of_convert file before back
  obtain ⟨y, second⟩ := convert_complete link pass.parsed.1
    (fun p member => ⟨pass.ready_again p member, texts p member⟩) pass.stored_again
  have after := convert_sound second
  refine ⟨y, second, ?_, ?_, ?_⟩
  · intro key named
    rw [after.meta_ key named, before.meta_ key named, pass.parsed.2.1, pass.count]
    cases key <;> rfl
  · rw [before.rows, after.rows, pass.parsed.2.2]
    exact segmentRows_forall₂ 0 _ pass.sameRow
  · rw [before.rows, after.rows, pass.parsed.2.2, ← pass.contents_eq_iff]
    exact segmentRows_eq_iff 0 _ fun p member j =>
      segmentRow_rebuilt e j p (imagePhdrs_flags_nonneg d p member)

theorem convert_self2elf_convert_mappedFile :
    ∃ x, convert (.ok .none) mappedFile = .ok x ∧ ∃ y, convert (.ok .none) mappedRebuilt = .ok y ∧
      (∀ key, key ≠ .interp → y.selfMeta key = x.selfMeta key) ∧
      List.Forall₂ (SameRow mappedFile) x.segments.rows y.segments.rows ∧
      (y.segments.rows = x.segments.rows ↔
        ∀ k, Covered mappedFile k → Regenerated mappedFile k →
          mappedRebuilt[k]? = mappedFile[k]?) := by
  obtain ⟨x, first⟩ := mappedFile_converted
  have back : self2elf (fun _ => true) x = .ok mappedRebuilt := by
    rw [self2elf_converted _ (convert_sound first)]
    decide +kernel
  exact ⟨x, first, convert_self2elf_convert mappedFile_wellFormed first back
    (by decide +kernel) .none⟩

/-- The content of a segment that maps the header loses the section header offset. -/
theorem convert_self2elf_convert_differs :
    WellFormed mappedFile ∧ ∃ x e y, convert (.ok .none) mappedFile = .ok x ∧
      self2elf (fun _ => true) x = .ok e ∧ convert (.ok .none) e = .ok y ∧
      y.segments.rows ≠ x.segments.rows := by
  obtain ⟨x, first⟩ := mappedFile_converted
  have before := convert_sound first
  have back : self2elf (fun _ => true) x = .ok mappedRebuilt := by
    rw [self2elf_converted _ before]
    decide +kernel
  have pass := pass_of_convert mappedFile_wellFormed before back
  obtain ⟨y, second⟩ := convert_complete .none pass.parsed.1 (by decide +kernel) (by decide +kernel)
  refine ⟨mappedFile_wellFormed, x, mappedRebuilt, y, first, back, second, ?_⟩
  rw [before.rows, (convert_sound second).rows]
  decide +kernel

end SelfDb
