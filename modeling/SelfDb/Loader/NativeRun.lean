import Mathlib.Data.List.ReduceOption
import SelfDb.Loader.Protection
import SelfDb.Loader.Residence

/-! `run_native` as a whole: the program of the rows and the interpreter from its file, side by
side in memory when the interpreter is entered. -/
namespace SelfDb
open Paging Binary

/-- The database is what the converter makes of the file, whose PT_LOAD entries are apart. -/
structure SelfOf (data : Bytes) (db : Database) : Prop where
  converted : ∃ lief, convert lief data = .ok db
  apart : LoadsApart data

/-- The load rows of a file. -/
def fileRows (data : Bytes) : List SegmentRow :=
  ((List.range (entryCount data)).filter fun i => (entryAt data i).type = ptLoad).map fun i =>
    segmentRow i (imagePhdr data (entryAt data i))

theorem loadRows_eq (converted : Converted data db) : db.loadRows = fileRows data := by
  have all : db.segments.rows =
      (List.range (entryCount data)).map fun i =>
        segmentRow i (imagePhdr data (entryAt data i)) := by
    apply List.ext_getElem?
    intro i
    rw [converted.rows, segmentRows_get, imagePhdrs_get, List.getElem?_map]
    split
    · next inside =>
      rw [List.getElem?_range inside]
      rfl
    · next outside =>
      rw [List.getElem?_eq_none (by rw [List.length_range]; exact not_lt.mp outside)]
      rfl
  rw [Database.loadRows, all, List.filter_map, fileRows]
  congr 1
  refine List.filter_congr fun i _ => ?_
  exact decide_eq_decide.mpr (typeName_eq_load_iff _)

namespace SelfOf

theorem loadable (self : SelfOf data db) : ∀ R ∈ fileRows data, R.Loadable := by
  obtain ⟨lief, converted⟩ := self.converted
  rw [← loadRows_eq (convert_sound converted)]
  exact loadable_converted converted self.apart

theorem imageByte (self : SelfOf data db) (puts : Puts data u b) :
    imageByte (fileRows data) u = some b := by
  obtain ⟨lief, converted⟩ := self.converted
  rw [← loadRows_eq (convert_sound converted)]
  exact imageByte_of_puts converted self.apart puts

end SelfOf

/-! The program. -/

/-- Fixed addresses are where they are linked. -/
theorem placed_zero {R : SegmentRow} (loadable : R.Loadable) :
    Placed 0 0 (2 ^ 64) ∧ R.Within 0 (2 ^ 64) := by
  refine ⟨⟨rfl, rfl, by decide⟩, Nat.zero_le _, ?_⟩
  have bounds := loadable.bounds
  simp only [pageCeil, alignDown, pageSize]
  omega

/-- Rows that are mapped where they are linked reach their own pages. -/
theorem layer_zero_off {R : SegmentRow} (loadable : R.Loadable)
    (small : a < 2 ^ 64) (off : ¬ OnPages R.start R.size a) :
    (R.layer 0 prot).byteAt a = none := by
  obtain ⟨placed, within⟩ := placed_zero loadable
  by_contra reached
  have inside := layer_inSpan placed loadable within small reached
  rw [layer_start placed loadable, layer_length placed loadable, Nat.zero_add] at inside
  have low : wrap (alignDown R.start) ≤ alignDown R.start := Nat.mod_le _ _
  have bounds := loadable.bounds
  have same : wrap (alignDown R.start) = alignDown R.start :=
    Nat.mod_eq_of_lt ((alignDown_le _).trans_lt (by omega))
  rw [same, InSpan] at inside
  rw [OnPages] at off
  omega

/-- The pages that a program without a load bias is linked at. -/
def FixedPage (data : Bytes) (a : Nat) : Prop :=
  (RawEhdr.read data).type ≠ etDyn ∧ ∃ R ∈ fileRows data, OnPages R.start R.size a

theorem onPages_page (a : Nat) : OnPages start size (a / pageSize * pageSize) ↔
    OnPages start size a := by
  simp only [OnPages, pageCeil, alignDown, pageSize]
  omega

/-- `map_program` puts the rows at the load bias, and leaves alone what it does not replace. -/
theorem mapProgram_placed {os : Os} (fresh : os.Fresh) (self : SelfOf data db)
    (mapped : mapProgram os db.connect mem = .ok (exe, after)) :
    (∃ before, after = (askedLayers exe.loadBias (fileRows data)).foldl Memory.lay before) ∧
      RowsPlaced exe.loadBias (fileRows data) ∧
      ∀ a < 2 ^ 64, IsMapped mem a → ¬ FixedPage data a → Untouched mem after a := by
  obtain ⟨lief, converted⟩ := self.converted
  have conv := convert_sound converted
  have rows := loadRows_eq conv
  obtain ⟨et, _, _, before, found, _, _, reserved, looped, _⟩ := mapProgram_steps mapped
  have type : et = (RawEhdr.read data).type :=
    Option.some.inj (found.symm.trans (selfGetInt_converted conv .et (by decide) rfl))
  have laid := mapLoop_laid looped
  have loads : db.loads = loadsOf (fileRows data) := congrArg loadsOf rows
  rw [rows] at laid
  rw [loads] at reserved
  refine ⟨⟨before, laid⟩, ?_⟩
  by_cases dyn : et = etDyn
  · rw [decide_eq_true dyn] at reserved
    obtain ⟨base, held, rfl⟩ := rowsReserved fresh self.loadable reserved
    refine ⟨held.placed, fun a small present _ => ?_⟩
    rw [laid]
    exact held.untouched fresh (rowsAre_asked _ _) small present
  · rw [decide_eq_false dyn] at reserved
    obtain ⟨bias, rfl⟩ := Prod.mk.inj (Except.ok.inj reserved)
    rw [← bias] at laid ⊢
    refine ⟨⟨rfl, fun R member => ⟨0, 2 ^ 64, placed_zero (self.loadable R member)⟩⟩, ?_⟩
    intro a small present off
    have elsewhere : ∀ R ∈ fileRows data, ¬ OnPages R.start R.size a :=
      fun R member on => off ⟨type ▸ dyn, R, member, on⟩
    have below : a / pageSize * pageSize < 2 ^ 64 :=
      (Nat.div_mul_le_self a pageSize).trans_lt small
    rw [laid]
    refine (rowsAre_asked 0 _).untouched (fun R member => ?_) (fun R member => ?_) mem
    · exact layer_zero_off (self.loadable R member) small (elsewhere R member)
    · have page := mt (onPages_page a).mp (elsewhere R member)
      exact layer_zero_off (self.loadable R member) below page

theorem mapProgram_resident {os : Os} (fresh : os.Fresh) (self : SelfOf data db)
    (mapped : mapProgram os db.connect mem = .ok (exe, after)) (puts : Puts data u b) :
    Resident after (wrap (exe.loadBias + u)) b := by
  obtain ⟨⟨before, rfl⟩, placed, -⟩ := mapProgram_placed fresh self mapped
  exact (rowsAre_asked _ _).resident self.loadable placed (self.imageByte puts) before

/-! The interpreter, which is read through a mapping of its file. -/

theorem slice_filePages (file : Bytes) (inside : start + count ≤ file.length) :
    slice (filePages file) start count = slice file start count := by
  rw [filePages, slice, slice, List.drop_append_of_le_length (by omega),
    List.take_append_of_le_length (by rw [List.length_drop]; omega)]

theorem readField_filePages (file : Bytes) (inside : start + width ≤ file.length) :
    readField (filePages file) start width = readField file start width := by
  rw [readField, readField, slice_filePages file inside]

theorem le_filePages_length (file : Bytes) : file.length ≤ (filePages file).length := by
  rw [filePages, List.length_append]
  exact Nat.le_add_right _ _

theorem ehdr_filePages (elf : Elf64 file) :
    (RawEhdr.read (filePages file)).entry = (RawEhdr.read file).entry ∧
      (RawEhdr.read (filePages file)).phoff = (RawEhdr.read file).phoff ∧
      (RawEhdr.read (filePages file)).phnum = (RawEhdr.read file).phnum := by
  have header := elf.header
  rw [ehdrSize] at header
  exact ⟨readField_filePages file (by omega), readField_filePages file (by omega),
    readField_filePages file (by omega)⟩

theorem entry_filePages (elf : Elf64 file) (inside : i < entryCount file) :
    RawPhdr.read (filePages file) (entryStart file i) = entryAt file i := by
  have table := elf.table i inside
  rw [phdrSize] at table
  rw [entryAt]
  apply RawPhdr.ext_fields
  simp only [RawPhdr.fields, RawPhdr.read]
  rw [readField_filePages file (by omega), readField_filePages file (by omega),
    readField_filePages file (by omega), readField_filePages file (by omega),
    readField_filePages file (by omega), readField_filePages file (by omega),
    readField_filePages file (by omega), readField_filePages file (by omega)]

theorem interpEntry_file (elf : Elf64 file) (inside : i < entryCount file) :
    interpEntry (filePages file) (entryStart file i) =
      .ok (if (entryAt file i).type = ptLoad then some (entryAt file i) else none) := by
  have table := elf.table i inside
  have more := le_filePages_length file
  rw [phdrSize] at table
  have type : readField (filePages file) (entryStart file i) 4 = (entryAt file i).type :=
    readField_filePages file (by omega)
  rw [interpEntry, if_pos (by omega), type, entry_filePages elf inside]
  split
  · rw [if_pos (by omega)]
  · rfl

/-- The entries that the loop over the table finds. -/
theorem interpLoads_file (elf : Elf64 file) (read : interpLoads (filePages file) = .ok loads) :
    loads = ((List.range (entryCount file)).filter fun i => (entryAt file i).type = ptLoad).map
      (entryAt file) := by
  obtain ⟨-, phoff, phnum⟩ := ehdr_filePages elf
  rw [interpLoads, phoff, phnum] at read
  obtain ⟨entries, all, result⟩ := bind_eq_ok_iff.mp read
  cases result
  rw [mapM_eq_ok_iff] at all
  have each : entries = (List.range (entryCount file)).map fun i =>
      if (entryAt file i).type = ptLoad then some (entryAt file i) else none := by
    apply List.map_injective_iff.mpr (fun _ _ same => Except.ok.inj same)
    rw [← all, List.map_map]
    refine List.map_congr_left fun i member => ?_
    exact interpEntry_file elf (List.mem_range.mp member)
  rw [each]
  induction List.range (entryCount file) with
  | nil => rfl
  | cons i rest ih =>
    by_cases load : (entryAt file i).type = ptLoad
    · rw [List.map_cons, if_pos load, List.reduceOption_cons_of_some, ih,
        List.filter_cons_of_pos (by simpa using load), List.map_cons]
    · rw [List.map_cons, if_neg load, List.reduceOption_cons_of_none, ih,
        List.filter_cons_of_neg (by simpa using load)]

/-- The interpreter is laid as the rows of its file would be. -/
theorem rowsAre_interp (bias : Nat) (elf : Elf64 file) (inside : LoadsInside file)
    (read : interpLoads (filePages file) = .ok loads) :
    loadsOf (fileRows file) = loads.map (fun h => (h.vaddr, h.memsz)) ∧
      RowsAre bias (fileRows file) (loads.map (interpLayer bias (filePages file))) := by
  rw [interpLoads_file elf read, fileRows, loadsOf, RowsAre, List.map_map, List.map_map,
    List.map_map, List.map_map, List.map_map]
  refine ⟨rfl, List.map_congr_left fun i member => ?_⟩
  obtain ⟨listed, load⟩ := List.mem_filter.mp member
  have load := of_decide_eq_true load
  have table := inside i (List.mem_range.mp listed) load
  have offset : 0 ≤ (entryAt file i).offset := readField_nonneg ..
  have filesz : 0 ≤ (entryAt file i).filesz := readField_nonneg ..
  have low : (entryAt file i).offset < 256 ^ 8 := by
    have inTable := elf.table i (List.mem_range.mp listed)
    rw [phdrSize] at inTable
    exact readField_lt (by omega)
  have high : (entryAt file i).filesz < 256 ^ 8 := by
    have inTable := elf.table i (List.mem_range.mp listed)
    rw [phdrSize] at inTable
    exact readField_lt (by omega)
  have start := sizeT_of_lt offset low
  have size := sizeT_of_lt filesz high
  have content : ((filePages file).drop (sizeT (entryAt file i).offset)).take
      (sizeT (entryAt file i).filesz) =
      (segmentRow i (imagePhdr file (entryAt file i))).bytes.take
        (sizeT (entryAt file i).filesz) := by
    have here : sizeT (entryAt file i).offset + sizeT (entryAt file i).filesz ≤ file.length := by
      omega
    have length : (segmentRow i (imagePhdr file (entryAt file i))).bytes.length ≤
        sizeT (entryAt file i).filesz := by
      rw [bytes_segmentRow file load, slice_length]
      omega
    rw [List.take_of_length_le length, bytes_segmentRow file load]
    exact (slice_filePages file here).trans (by congr 1 <;> omega)
  exact congrArg (fun bytes => (⟨_, _, .noAccess, ⟨_, bytes⟩⟩ : Layer)) content

/-- The file is mapped where nothing was. -/
theorem mmapFile_untouched {os : Os} (fresh : os.Fresh) (small : a < 2 ^ 64)
    (present : IsMapped mem a) (mapped : mmapFile os mem file = some (base, after)) :
    Untouched mem after a ∧ ¬ InSpan base file.length (a / pageSize * pageSize) := by
  rw [mmapFile] at mapped
  split at mapped
  · cases mapped
  · obtain ⟨_, reserved, same⟩ := Option.map_eq_some_iff.mp mapped
    cases same
    have page := fresh.aligned reserved
    have room := fresh.room reserved
    have elsewhere := fresh.page reserved present
    have onPage : ¬ (⟨base, file.length, .readOnly, ⟨base, filePages file⟩⟩ : Layer).OnPage
      (a / pageSize) := elsewhere
    refine ⟨.lay ?_ onPage mem, elsewhere⟩
    have length : (filePages file).length = pageCeil file.length := by
      have more := le_pageCeil file.length
      rw [filePages, List.length_append, List.length_replicate]
      omega
    rw [Layer.byteAt, Store.byteAt, List.getElem?_eq_none, Option.none_or, if_neg]
    · intro inside
      exact elsewhere (inSpan_page page inside)
    · rw [length]
      simp only [InSpan, pageCeil, alignDown, sub64, wrap, pageSize] at elsewhere page ⊢
      omega

/-- `map_interp` loads the program of its file, and leaves alone what was there. -/
theorem mapInterp_resident {os : Os} (fresh : os.Fresh) (opened : files path = some file)
    (self : SelfOf file db) (loaded : mapInterp os files path mem = .ok (object, after)) :
    (∀ a < 2 ^ 64, IsMapped mem a → Untouched mem after a) ∧
      (∀ u b, Puts file u b → Resident after (wrap (object.loadBias + u)) b) ∧
      object.entry = wrap (object.loadBias + (RawEhdr.read file).entry.toNat) := by
  obtain ⟨lief, converted⟩ := self.converted
  have conv := convert_sound converted
  simp only [mapInterp, bind_eq_ok_iff, orDie_eq_ok_iff, opened, Option.some.injEq,
    exists_eq_left'] at loaded
  obtain ⟨⟨base, first⟩, mapped, _, _, loads, read, ⟨bias, second⟩, reserved, third, segments,
    result⟩ := loaded
  cases result
  obtain ⟨bounds, are⟩ := rowsAre_interp bias conv.elf self.apart.inside read
  rw [← bounds] at reserved
  obtain ⟨hole, held, rfl⟩ := rowsReserved fresh self.loadable reserved
  rw [interpSegments_laid segments]
  refine ⟨fun a small present => ?_, fun u b puts => ?_, ?_⟩
  · obtain ⟨kept, elsewhere⟩ := mmapFile_untouched fresh small present mapped
    exact (kept.trans (held.untouched fresh are small (kept.isMapped present))).trans
      (.unmap elsewhere _)
  · have found := self.imageByte puts
    refine (Untouched.unmap (fun inside => ?_) _).resident
      (are.resident self.loadable held.placed found _)
    -- the reservation is not on the pages of the file, which were mapped when it was made
    obtain ⟨R, member, reached⟩ := exists_row self.loadable held.placed found
    refine reached (held.off _ (wrap_lt _) (fresh.outside held.reserved ?_) R member)
    rw [mmapFile] at mapped
    split at mapped
    · cases mapped
    · obtain ⟨_, _, same⟩ := Option.map_eq_some_iff.mp mapped
      cases same
      have on : (⟨base, file.length, .readOnly, ⟨base, filePages file⟩⟩ : Layer).OnPage
        (wrap (bias + u) / pageSize) := inside
      rw [Memory.lay_prot, Layer.protAt, if_pos on]
      rfl
  · rw [(ehdr_filePages conv.elf).1, entry_word conv.elf]

/-- The program and, if it names one, the interpreter of its file are both in memory. -/
structure BothLoaded (files : String → Option Bytes) (conn : Connection) (data : Bytes)
    (start : NativeStart) : Prop where
  exe : LoadedAt data start.exe.loadBias start.exe.entry start.memory
  interp : ∀ path, selfGetText conn .interp = some path → ∃ file object, files path = some file ∧
    start.interp = some object ∧ LoadedAt file object.loadBias object.entry start.memory

/-- The file of the interpreter, if it is there, could be converted too. -/
def InterpIsSelf (files : String → Option Bytes) (conn : Connection) : Prop :=
  ∀ path file, selfGetText conn .interp = some path → files path = some file →
    ∃ other, SelfOf file other

/-- When all is mapped, both programs are there, and so is what was mapped before. Whoever leaves
mapped addresses alone may go on from here. -/
theorem programs_placed {os : Os} (fresh : os.Fresh) (self : SelfOf data db)
    (theirs : InterpIsSelf files db.connect)
    (program : mapProgram os db.connect mem = .ok (exe, first))
    (interpreter : mapInterpIf os files (selfGetText db.connect .interp) first =
      .ok (object, second)) :
    (∀ a < 2 ^ 64, IsMapped mem a → ¬ FixedPage data a → Untouched mem second a) ∧
      ∀ after, (∀ a < 2 ^ 64, IsMapped second a → Untouched second after a) →
        BothLoaded files db.connect data ⟨exe, object, after⟩ := by
  obtain ⟨lief, converted⟩ := self.converted
  obtain ⟨-, -, frame⟩ := mapProgram_placed fresh self program
  have entry := mapProgram_entry (convert_sound converted) program
  cases named : selfGetText db.connect .interp with
  | none =>
    rw [named] at interpreter
    cases interpreter
    refine ⟨frame, fun after same => ⟨⟨fun u b puts => ?_, entry⟩, fun path other => ?_⟩⟩
    · have resident := mapProgram_resident fresh self program puts
      exact ((same _ (wrap_lt _) resident.2).resident resident).1
    · rw [named] at other
      cases other
  | some path =>
    simp only [named, mapInterpIf, bind_eq_ok_iff] at interpreter
    obtain ⟨⟨object, _⟩, loaded, result⟩ := interpreter
    cases result
    cases opened : files path with
    | none =>
      simp only [mapInterp, opened, orDie] at loaded
      cases loaded
    | some file =>
      obtain ⟨other, theirs⟩ := theirs path file named opened
      obtain ⟨kept, own, begins⟩ := mapInterp_resident fresh opened theirs loaded
      refine ⟨fun a small present off => ?_, fun after same => ⟨⟨fun u b puts => ?_, entry⟩, ?_⟩⟩
      · have before := frame a small present off
        exact before.trans (kept a small (before.isMapped present))
      · have resident := mapProgram_resident fresh self program puts
        have both := (kept _ (wrap_lt _) resident.2).resident resident
        exact ((same _ (wrap_lt _) both.2).resident both).1
      · intro path' again
        rw [named] at again
        cases again
        refine ⟨file, object, opened, rfl, fun u b puts => ?_, begins⟩
        have resident := own u b puts
        exact ((same _ (wrap_lt _) resident.2).resident resident).1

end SelfDb
