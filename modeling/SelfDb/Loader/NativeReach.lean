import SelfDb.Loader.HandOff

/-! Which programs native mode gets through to: where the kernel grants what the run asks for, the
files alone decide. -/
namespace SelfDb
open Paging Binary

/-- Every row has pages, and a program that can be moved a span to reserve. -/
structure RowsMappable (rows : List SegmentRow) (isPie : Prop) : Prop where
  pages : ∀ R ∈ rows, ¬ (R.size = 0 ∧ R.start % pageSize = 0)
  span : isPie → SpanReservable rows

theorem rowsMappable_iff {rows : List SegmentRow} {isPie : Prop} :
    RowsMappable rows isPie ↔ (∀ R ∈ rows, R.HasPages) ∧ (isPie → SpanReservable rows) := by
  simp only [SegmentRow.hasPages_iff]
  exact ⟨fun mappable => ⟨mappable.pages, mappable.span⟩, fun both => ⟨both.1, both.2⟩⟩

/-! The program. -/

theorem mapProgram_completes_iff {os : Os} (paged : os.Paged) (self : SelfOf data db)
    (mem : Memory) : (∃ out, mapProgram os db.connect mem = .ok out) ↔
      RowsMappable (fileRows data) ((RawEhdr.read data).type = etDyn) ∧
        ProgramGranted os (fileRows data) ((RawEhdr.read data).type = etDyn) mem := by
  obtain ⟨lief, converted⟩ := self.converted
  have conv := convert_sound converted
  have loadable := loadable_converted converted self.apart
  have keys : ∀ key ∈ [MetaKey.et, .entry, .phoff, .phnum, .phentsize],
      (selfGetInt db.connect key).isSome := by
    simp only [List.forall_mem_cons, List.not_mem_nil, false_implies, implies_true, and_true,
      selfGetInt_converted conv .et (by decide) rfl,
      selfGetInt_converted conv .entry (by decide) rfl,
      selfGetInt_converted conv .phoff (by decide) rfl,
      selfGetInt_converted conv .phnum (by decide) rfl,
      selfGetInt_converted conv .phentsize (by decide) rfl, Option.isSome_some]
  have type : selfGetInt db.connect .et = some etDyn ↔ (RawEhdr.read data).type = etDyn := by
    rw [selfGetInt_converted conv .et (by decide) rfl, Option.some.injEq]
    rfl
  rw [rowsMappable_iff, ← loadRows_eq conv]
  simp only [← type]
  constructor
  · rintro ⟨out, mapped⟩
    obtain ⟨-, pages, span, granted⟩ := mapProgram_inv paged loadable mapped
    exact ⟨⟨pages, span⟩, granted⟩
  · rintro ⟨⟨pages, span⟩, granted⟩
    obtain ⟨object, after, _, _, _, mapped, _⟩ :=
      mapProgram_exists paged loadable pages keys span granted
    exact ⟨_, mapped⟩

/-! The interpreter. -/

def fileRow (file : Bytes) (i : Nat) : SegmentRow := segmentRow i (imagePhdr file (entryAt file i))

/-- The numbers of the PT_LOAD entries. -/
def loadEntries (file : Bytes) : List Nat :=
  (List.range (entryCount file)).filter fun i => (entryAt file i).type = ptLoad

theorem fileRows_eq (file : Bytes) : fileRows file = (loadEntries file).map (fileRow file) := rfl

/-- What is copied depends on the first bytes of the source only. -/
theorem copySegment_take {mem : Memory} {long short : Bytes}
    (whole : short.length = count) (enough : count ≤ long.length) (same : long.take count = short) :
    copySegment mem dest (some long) count = copySegment mem dest (some short) count := by
  have short' : short.take count = short := List.take_of_length_le whole.le
  simp only [copySegment, memcpy, same, short', enough, whole.ge, true_and]

/-- An entry of the interpreter is mapped as the row would be that a converter makes of it. -/
theorem mapInterpSegment_eq {os : Os} (elf : Elf64 file) (inside : LoadsInside file)
    (member : i ∈ loadEntries file) (loadable : (fileRow file i).Loadable) (mem : Memory) :
    mapInterpSegment os bias (filePages file) mem (entryAt file i) =
      mapSegment os bias (fileRow file i).start (fileRow file i).bytes.length (fileRow file i).size
        (some (fileRow file i).bytes) (phdrProt (entryAt file i)) mem := by
  obtain ⟨listed, load⟩ := List.mem_filter.mp member
  have bound := List.mem_range.mp listed
  have load := of_decide_eq_true load
  have table := inside i bound load
  obtain ⟨vaddr, filesz, memsz⟩ := loadable.words
  have offset : 0 ≤ (entryAt file i).offset := readField_nonneg ..
  have low : (entryAt file i).offset < 256 ^ 8 := by
    have inTable := elf.table i bound
    rw [phdrSize] at inTable
    exact readField_lt (by omega)
  have place := sizeT_of_lt offset low
  have bytes : (fileRow file i).bytes = slice file (entryAt file i).offset.toNat
      (entryAt file i).filesz.toNat := bytes_segmentRow file load i
  have size : 0 ≤ (entryAt file i).filesz := readField_nonneg ..
  have here : (entryAt file i).offset.toNat + (entryAt file i).filesz.toNat ≤ file.length := by
    omega
  have length : (fileRow file i).bytes.length = (entryAt file i).filesz.toNat := by
    rw [bytes, slice_length]
    omega
  have start : (sizeT (entryAt file i).offset : Nat) = (entryAt file i).offset.toNat := by
    omega
  have copied : ∀ mem dest, copySegment mem dest
      (some ((filePages file).drop (sizeT (entryAt file i).offset))) (fileRow file i).bytes.length =
      copySegment mem dest (some (fileRow file i).bytes) (fileRow file i).bytes.length := by
    intro mem dest
    have more := le_filePages_length file
    refine copySegment_take rfl (by rw [List.length_drop]; omega) ?_
    rw [length, start, bytes]
    exact slice_filePages file here
  change mapSegment os bias (sizeT (fileRow file i).vaddr) (sizeT (fileRow file i).filesz)
    (sizeT (fileRow file i).memsz) (some ((filePages file).drop (sizeT (entryAt file i).offset)))
    (phdrProt (entryAt file i)) mem = _
  rw [vaddr, filesz, memsz]
  simp only [mapSegment, copied]

theorem mapInterpSegments_eq_ok_iff {os : Os} (elf : Elf64 file) (inside : LoadsInside file)
    (placed : Placed bias lo hi) {entries : List Nat}
    (listed : ∀ i ∈ entries, i ∈ loadEntries file)
    (fit : ∀ i ∈ entries, (fileRow file i).Loadable ∧ (fileRow file i).Within lo hi ∧
      (fileRow file i).HasPages) (mem after : Memory) :
    (entries.map (entryAt file)).foldlM (mapInterpSegment os bias (filePages file)) mem =
        .ok after ↔
      RowsGranted os bias (entries.map (fileRow file)) mem ∧
        after = (entries.map (fileRow file)).foldl (mapRow bias) mem := by
  induction entries generalizing mem with
  | nil =>
    simp only [List.map_nil, List.foldlM_nil, List.foldl_nil, RowsGranted, true_and]
    exact ⟨fun same => (Except.ok.inj same).symm, fun same => congrArg _ same.symm⟩
  | cons i rest ih =>
    rw [List.forall_mem_cons] at listed fit
    obtain ⟨loadable, within, pages⟩ := fit.1
    obtain ⟨_, small, fits⟩ := loadable.bounds
    have segment : ∀ next, mapInterpSegment os bias (filePages file) mem (entryAt file i) =
        .ok next ↔ SegmentGranted os bias (fileRow file i).start (fileRow file i).size
          (fileRow file i).bytes mem ∧ next = mapRow bias mem (fileRow file i) := by
      intro next
      rw [mapInterpSegment_eq elf inside listed.1 loadable]
      exact mapSegment_eq_ok_iff placed within.1 within.2 small pages fits
        (some (fileRow file i).bytes) rfl (fileRow file i).prot mem next
    rw [List.map_cons, List.map_cons, List.foldlM_cons, bind_eq_ok_iff, RowsGranted,
      List.foldl_cons]
    constructor
    · rintro ⟨next, first, later⟩
      obtain ⟨granted, rfl⟩ := (segment next).mp first
      obtain ⟨others, result⟩ := (ih listed.2 fit.2 _).mp later
      exact ⟨⟨granted, others⟩, result⟩
    · rintro ⟨⟨granted, others⟩, result⟩
      exact ⟨_, (segment _).mpr ⟨granted, rfl⟩, (ih listed.2 fit.2 _).mpr ⟨others, result⟩⟩

theorem mapInterpSegments_pages {os : Os} (elf : Elf64 file) (inside : LoadsInside file)
    (page : bias % pageSize = 0) {entries : List Nat}
    (listed : ∀ i ∈ entries, i ∈ loadEntries file)
    (loadable : ∀ i ∈ entries, (fileRow file i).Loadable)
    (mapped : (entries.map (entryAt file)).foldlM (mapInterpSegment os bias (filePages file)) mem =
      .ok after) : ∀ i ∈ entries, (fileRow file i).HasPages := by
  induction entries generalizing mem with
  | nil => exact List.forall_mem_nil _
  | cons i rest ih =>
    rw [List.forall_mem_cons] at listed loadable ⊢
    rw [List.map_cons, List.foldlM_cons, bind_eq_ok_iff] at mapped
    obtain ⟨_, first, later⟩ := mapped
    rw [mapInterpSegment_eq elf inside listed.1 loadable.1] at first
    have pages := mapSegment_pages page first
    rw [segment_pages loadable.1.bounds.2.1] at pages
    refine ⟨?_, ih listed.2 loadable.2 later⟩
    rw [SegmentRow.HasPages]
    omega

theorem interpLoads_eq (elf : Elf64 file) :
    interpLoads (filePages file) = .ok ((loadEntries file).map (entryAt file)) := by
  obtain ⟨-, phoff, phnum⟩ := ehdr_filePages elf
  have all : ∃ loads, interpLoads (filePages file) = .ok loads := by
    have each : (List.range (entryCount file)).mapM
        (fun i => interpEntry (filePages file) (entryStart file i)) =
          .ok ((List.range (entryCount file)).map fun i =>
            if (entryAt file i).type = ptLoad then some (entryAt file i) else none) := by
      rw [mapM_eq_ok_iff, List.map_map]
      refine List.map_congr_left fun i member => ?_
      exact interpEntry_file elf (List.mem_range.mp member)
    refine ⟨((List.range (entryCount file)).map fun i =>
      if (entryAt file i).type = ptLoad then some (entryAt file i) else none).reduceOption, ?_⟩
    rw [interpLoads, phoff, phnum]
    exact congrArg (· >>= fun entries => .ok entries.reduceOption) each
  obtain ⟨loads, read⟩ := all
  rw [read, interpLoads_file elf read]
  rfl

/-- What `map_interp` asks for is granted: a view of the file, and room for its segments. -/
def InterpGranted (os : Os) (file : Bytes) (mem : Memory) : Prop :=
  ∃ base, os.reserve mem file.length = some base ∧
    ∃ bias before, os.place (fileRows file) true
        (mem.lay ⟨base, file.length, .readOnly, base, filePages file⟩) = some (bias, before) ∧
      RowsGranted os bias (fileRows file) before

theorem mmapFile_eq_some_iff (os : Os) {file : Bytes} (nonempty : file.length ≠ 0) (mem : Memory)
    (out : Nat × Memory) : mmapFile os mem file = some out ↔
      ∃ base, os.reserve mem file.length = some base ∧
        out = (base, mem.lay ⟨base, file.length, .readOnly, base, filePages file⟩) := by
  rw [mmapFile, if_neg nonempty, Option.map_eq_some_iff]
  exact exists_congr fun base => and_congr_right fun _ => eq_comm

/-- The segments of a file whose entries can be read. -/
theorem interpSegments_complete_iff {os : Os} (paged : os.Paged) (elf : Elf64 file)
    (inside : LoadsInside file) (loadable : ∀ R ∈ fileRows file, R.Loadable) (mem : Memory) :
    (∃ bias before after,
      reserveSpan os (rowBounds (fileRows file)).1 (rowBounds (fileRows file)).2 true mem =
          .ok (bias, before) ∧
        ((loadEntries file).map (entryAt file)).foldlM
          (mapInterpSegment os bias (filePages file)) before = .ok after) ↔
      RowsMappable (fileRows file) True ∧
        ∃ bias before, os.place (fileRows file) true mem = some (bias, before) ∧
          RowsGranted os bias (fileRows file) before := by
  have each : ∀ i ∈ loadEntries file, (fileRow file i).Loadable :=
    fun i member => loadable _ (List.mem_map_of_mem member)
  have fit : ∀ {lo hi : Nat}, (∀ R ∈ fileRows file, R.HasPages) →
      (∀ R ∈ fileRows file, R.Within lo hi) → ∀ i ∈ loadEntries file, (fileRow file i).Loadable ∧
        (fileRow file i).Within lo hi ∧ (fileRow file i).HasPages := by
    intro lo hi pages within i member
    have listed : fileRow file i ∈ fileRows file := List.mem_map_of_mem member
    exact ⟨each i member, within _ listed, pages _ listed⟩
  rw [rowsMappable_iff]
  constructor
  · rintro ⟨bias, before, after, span, segments⟩
    have pages := mapInterpSegments_pages elf inside (reserveSpan_page paged span)
      (fun _ member => member) each segments
    have pages : ∀ R ∈ fileRows file, R.HasPages := List.forall_mem_map.mpr pages
    obtain ⟨pie, chosen⟩ := (reserveSpan_eq_ok_iff loadable pages true _ _).mp span
    obtain ⟨lo, hi, placed, within⟩ := place_placed paged loadable pages pie chosen
    obtain ⟨granted, _⟩ := (mapInterpSegments_eq_ok_iff elf inside placed (fun _ member => member)
      (fit pages within) before after).mp segments
    exact ⟨⟨pages, fun _ => pie rfl⟩, bias, before, chosen, granted⟩
  · rintro ⟨⟨pages, span⟩, bias, before, chosen, granted⟩
    have pie : true = true → SpanReservable (fileRows file) := fun _ => span trivial
    obtain ⟨lo, hi, placed, within⟩ := place_placed paged loadable pages pie chosen
    exact ⟨bias, before, _, (reserveSpan_eq_ok_iff loadable pages true _ _).mpr ⟨pie, chosen⟩,
      (mapInterpSegments_eq_ok_iff elf inside placed (fun _ member => member)
        (fit pages within) before _).mpr ⟨granted, rfl⟩⟩

/-- The file of the interpreter can be mapped, and it lies at addresses of its own choosing. -/
theorem mapInterp_completes_iff {os : Os} (paged : os.Paged) (opened : files path = some file)
    (self : SelfOf file db) (mem : Memory) :
    (∃ out, mapInterp os files path mem = .ok out) ↔
      RowsMappable (fileRows file) True ∧ InterpGranted os file mem := by
  obtain ⟨lief, converted⟩ := self.converted
  have elf := (convert_sound converted).elf
  have header := elf.header
  rw [ehdrSize] at header
  have magic : (filePages file).take 4 = elfMagic := by
    rw [filePages, List.take_append_of_le_length (by omega), elf.magic]
  have bounds : boundsLoop (((loadEntries file).map (entryAt file)).map
      fun h => (h.vaddr, h.memsz)) (2 ^ 64 - 1, 0) = rowBounds (fileRows file) := by
    rw [rowBounds, fileRows_eq, List.map_map, List.map_map]
    rfl
  have nonempty : file.length ≠ 0 := by omega
  have view := mmapFile_eq_some_iff os nonempty mem
  have segments := interpSegments_complete_iff paged elf self.apart.inside self.loadable
  simp only [mapInterp, opened, orDie_eq_ok_iff, Option.some.injEq, exists_eq_left', if_pos magic,
    interpLoads_eq elf, Except.ok.injEq, bounds, bind_eq_ok_iff, view]
  constructor
  · rintro ⟨out, _, ⟨base, reserved, rfl⟩, _, _, ⟨bias, before⟩, span, after, mapped, _⟩
    obtain ⟨mappable, granted⟩ := (segments _).mp ⟨bias, before, after, span, mapped⟩
    exact ⟨mappable, base, reserved, granted⟩
  · rintro ⟨mappable, base, reserved, granted⟩
    obtain ⟨bias, before, after, span, mapped⟩ := (segments _).mpr ⟨mappable, granted⟩
    exact ⟨_, _, ⟨base, reserved, rfl⟩, (), trivial, (bias, before), span, after, mapped, rfl⟩

theorem mapInterpIf_completes_iff {os : Os} (paged : os.Paged) (theirs : InterpIsSelf files conn)
    (mem : Memory) :
    (∃ out, mapInterpIf os files (selfGetText conn .interp) mem = .ok out) ↔
      ∀ path, selfGetText conn .interp = some path → ∃ file, files path = some file ∧
        RowsMappable (fileRows file) True ∧ InterpGranted os file mem := by
  cases named : selfGetText conn .interp with
  | none => exact iff_of_true ⟨_, rfl⟩ nofun
  | some path =>
    simp only [mapInterpIf, bind_eq_ok_iff, Option.some.injEq, forall_eq']
    constructor
    · rintro ⟨_, out, loaded, _⟩
      cases opened : files path with
      | none =>
        simp only [mapInterp, opened, orDie] at loaded
        cases loaded
      | some file =>
        obtain ⟨other, same⟩ := theirs path file named opened
        exact ⟨file, rfl, (mapInterp_completes_iff paged opened same mem).mp ⟨out, loaded⟩⟩
    · rintro ⟨file, opened, all⟩
      obtain ⟨other, same⟩ := theirs path file named opened
      obtain ⟨out, loaded⟩ := (mapInterp_completes_iff paged opened same mem).mpr all
      exact ⟨_, out, loaded, rfl⟩

/-! The whole run. -/

/-- The stack of native mode and the arrays of pointers can be allocated. -/
structure StackGranted (os : Os) (argv envp : List CString) (mem : Memory) : Prop where
  pages : (os.reserve mem nativeStackSize).isSome
  args : calloc os argv.length = .ok ()
  env : calloc os envp.length = .ok ()

theorem nativeStack_completes_iff {os : Os} (paged : os.Paged) (below : os.Below nativeStackSize)
    {argv envp : List CString} (exe : NativeObject) (interp : Option InterpObject)
    (fits : nativeStackBytes caller path argv envp ≤ nativeStackSize) (mem : Memory) :
    (∃ out, nativeStack os caller exe interp path argv envp mem = .ok out) ↔
      StackGranted os argv envp mem := by
  constructor
  · rintro ⟨out, made⟩
    simp only [nativeStack, nativeBuildStack, bind_eq_ok_iff, orDie_eq_ok_iff] at made
    obtain ⟨base, reserved, _, args, _, _, _, env, _⟩ := made
    exact ⟨Option.isSome_of_eq_some reserved, args, env⟩
  · rintro ⟨pages, args, env⟩
    obtain ⟨base, reserved⟩ := Option.isSome_iff_exists.mp pages
    have page := paged.aligned reserved
    have room := below reserved
    have top : wrap (base + nativeStackSize) = base + nativeStackSize := Nat.mod_eq_of_lt room
    obtain ⟨_, inside, _⟩ := startPointer_fits page fits
    rw [← nativePointer] at inside
    have writable :=
      (writableIn_mapAnonymous page mem).mono inside (le_refl (base + nativeStackSize))
    obtain ⟨_, _, _, -, built⟩ := nativeBuildStack_ok exe interp args env
      (fits.trans (Nat.le_add_left _ base)) room writable
    have made : nativeStack os caller exe interp path argv envp mem =
        nativeBuildStack os caller argv.length argv envp exe interp path (base + nativeStackSize)
          (mem.mapAnonymous base nativeStackSize .readWrite) := by
      rw [nativeStack, reserved, orDie, ok_bind, top]
    exact ⟨_, made.trans built⟩

section Native
variable {os : Os} {caller : Caller} {files : String → Option Bytes} {data : Bytes} {db : Database}
  {path : CString} {argv envp : List CString}

/-- What the run asks of the kernel and the allocator is granted, at the point where it asks. -/
structure NativeGranted (os : Os) (files : String → Option Bytes) (data : Bytes) (db : Database)
    (argv envp : List CString) (mem : Memory) : Prop where
  program : ProgramGranted os (fileRows data) ((RawEhdr.read data).type = etDyn) mem
  interp : ∀ exe first path file, mapProgram os db.connect mem = .ok (exe, first) →
    selfGetText db.connect .interp = some path → files path = some file →
      InterpGranted os file first
  stack : ∀ exe first interp second, mapProgram os db.connect mem = .ok (exe, first) →
    mapInterpIf os files (selfGetText db.connect .interp) first = .ok (interp, second) →
      StackGranted os argv envp second

/-- Native mode enters exactly the programs for this machine whose segments and whose interpreter's
segments can be mapped, if the kernel grants what it asks for. -/
theorem enterNative_reaches_iff (paged : os.Paged) (below : os.Below nativeStackSize)
    (self : SelfOf data db) (theirs : InterpIsSelf files db.connect)
    (fits : nativeStackBytes caller path argv envp ≤ nativeStackSize) (mem : Memory) :
    (∃ out, enterNative os caller files db.connect path argv envp mem = .ok out) ↔
      ((RawEhdr.read data).machine = emX86_64 ∧
      RowsMappable (fileRows data) ((RawEhdr.read data).type = etDyn) ∧
      ∀ interp, selfGetText db.connect .interp = some interp →
        ∃ file, files interp = some file ∧ RowsMappable (fileRows file) True) ∧
      NativeGranted os files data db argv envp mem := by
  obtain ⟨lief, converted⟩ := self.converted
  have em : selfGetInt db.connect .em = some (RawEhdr.read data).machine :=
    selfGetInt_converted (convert_sound converted) .em (by decide) rfl
  have maps := mapProgram_completes_iff paged self mem
  have links := mapInterpIf_completes_iff paged theirs
  constructor
  · rintro ⟨out, entered⟩
    simp only [enterNative, bind_eq_ok_iff, selfMetaInt_eq_ok_iff, em, Option.some.injEq,
      exists_eq_left', orDie_eq_ok_iff] at entered
    obtain ⟨_, machine, ⟨exe, first⟩, program, ⟨object, second⟩, interpreter, ⟨sp, after⟩, stack,
      _⟩ := entered
    have machine := (Option.ite_none_right_eq_some.mp machine).1
    obtain ⟨mappable, granted⟩ := maps.mp ⟨_, program⟩
    have loaded := (links first).mp ⟨_, interpreter⟩
    refine ⟨⟨machine, mappable, fun path named => ?_⟩, granted, ?_, ?_⟩
    · obtain ⟨file, opened, all, _⟩ := loaded path named
      exact ⟨file, opened, all⟩
    · intro exe' first' path file again named opened
      cases program.symm.trans again
      obtain ⟨file', opened', _, held⟩ := loaded path named
      cases opened.symm.trans opened'
      exact held
    · intro exe' first' object' second' again linked
      cases program.symm.trans again
      cases interpreter.symm.trans linked
      exact (nativeStack_completes_iff paged below exe object fits second).mp ⟨_, stack⟩
  · rintro ⟨⟨machine, mappable, interpreter⟩, granted⟩
    obtain ⟨⟨exe, first⟩, program⟩ := maps.mpr ⟨mappable, granted.program⟩
    obtain ⟨⟨object, second⟩, linked⟩ := (links first).mpr fun path named => by
      obtain ⟨file, opened, all⟩ := interpreter path named
      exact ⟨file, opened, all, granted.interp exe first path file program named opened⟩
    obtain ⟨⟨sp, after⟩, stack⟩ := (nativeStack_completes_iff paged below exe object fits
      second).mpr (granted.stack exe first object second program linked)
    refine ⟨⟨sp, (object.map InterpObject.entry).getD exe.entry, after⟩, ?_⟩
    simp only [enterNative, bind_eq_ok_iff, selfMetaInt_eq_ok_iff, em, Option.some.injEq,
      exists_eq_left', orDie_eq_ok_iff, if_pos machine]
    exact ⟨(), trivial, _, program, _, linked, _, stack, rfl⟩

end Native

theorem Os.userSpace_below (small : size < 2 ^ 63) : userSpace.Below size :=
  fun reserved => lowest_below small reserved

theorem enterNative_reaches_iff_dynamicFile :
    ∃ db, SelfOf dynamicFile db ∧
      ((∃ out, enterNative .userSpace bareCaller dynamicFiles db.connect programName
        [programName, someArgument] [someVariable] unmappedSpace = .ok out) ↔
        ((RawEhdr.read dynamicFile).machine = emX86_64 ∧
        RowsMappable (fileRows dynamicFile) ((RawEhdr.read dynamicFile).type = etDyn) ∧
        ∀ interp, selfGetText db.connect .interp = some interp →
          ∃ file, dynamicFiles interp = some file ∧ RowsMappable (fileRows file) True) ∧
        NativeGranted .userSpace dynamicFiles dynamicFile db [programName, someArgument]
          [someVariable] unmappedSpace) ∧
      ∃ out, enterNative .userSpace bareCaller dynamicFiles db.connect programName
        [programName, someArgument] [someVariable] unmappedSpace = .ok out := by
  have ran : ∃ db, convert (.ok .none) dynamicFile = .ok db ∧
      (enterNative .userSpace bareCaller dynamicFiles db.connect programName
        [programName, someArgument] [someVariable] unmappedSpace).toOption.isSome :=
    exists_of_map_decide (by decide +kernel)
  obtain ⟨db, converted, enters⟩ := ran
  have self : SelfOf dynamicFile db := ⟨⟨_, converted⟩, dynamicFile_apart⟩
  exact ⟨db, self, enterNative_reaches_iff Os.userSpace_paged (Os.userSpace_below (by decide)) self
    (dynamicFiles_self _) (by decide) unmappedSpace, exists_of_isSome enters⟩

end SelfDb
