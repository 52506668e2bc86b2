import SelfDb.Isolation.Atomicity
import SelfDb.Selfconv.Link
import SelfDb.Selfconv.Union

/-! When the rows of a conversion can be written: SQLite stores 64-bit integers and
blobs up to a length, and Python refuses the others. -/
namespace SelfDb
open Binary Isolation

/-! `elf2self`. -/

def SymbolFits (sym : LiefSymbol) : Prop :=
  sym.name ≠ "" → Storable sym.value ∧ Storable sym.size ∧ ∀ shndx ∈ sym.shndx, Storable shndx

def RelocationFits (r : LiefRelocation) : Prop := Storable r.address ∧ Storable r.addend

def DynamicEntryFits (ent : LiefDynamicEntry) : Prop :=
  Py.lastComponent ent.tag ≠ "NEEDED" → ∀ value, dynValue ent = .integer value → Storable value

structure SectionFits (s : LiefSection) : Prop where
  columns : ∀ value ∈ s.typeNumber.toList ++
    [s.flags, s.virtualAddress, s.offset, s.size, s.entrySize, s.link, s.information, s.alignment],
      Storable value
  blob : s.typeNumber ≠ some shtNobits → s.size ≠ 0 → s.content.length ≤ sqliteMaxLength

/-- What SQLite requires of the values that come from LIEF. -/
structure LiefFits (b : LiefBinary) (withSections : Bool) : Prop where
  dynamicSymbols : ∀ sym ∈ b.dynamicSymbols, SymbolFits sym
  symtabSymbols : ∀ sym ∈ b.symtabSymbols, SymbolFits sym
  relocations : ∀ r ∈ b.relocations, RelocationFits r
  dynamicEntries : ∀ ent ∈ b.dynamicEntries, DynamicEntryFits ent
  sections : withSections = true → ∀ s ∈ b.sections, SectionFits s
  notes : ∀ n ∈ b.notes, n.description.length ≤ sqliteMaxLength

/-- What it requires of the raw image. -/
structure ImageFits (data : Bytes) : Prop where
  segments : ∀ p ∈ imagePhdrs data, Insertable p ∧ InterpText data p
  identity : MetaStorable (imageEhdr data) (entryCount data)

theorem insertSymbol_returned (source : SymbolSource) (table : SymbolTable) (sym : LiefSymbol) :
    Returned (insertSymbol source table sym) ↔ SymbolFits sym := by
  rw [insertSymbol, SymbolFits]
  split_ifs with unnamed fits
  · simp [unnamed]
  · exact iff_of_true (returned_ok _) fun _ => fits
  · simp only [not_returned_error, false_iff]
    exact fun all => fits (all unnamed)

theorem insertRelocation_returned (ids : Dict Int) (table : Table RelocationRow RelocationRow.id)
    (r : LiefRelocation) : Returned (insertRelocation ids table r) ↔ RelocationFits r := by
  rw [insertRelocation, RelocationFits]
  split_ifs with fits <;> simp [fits]

theorem linkTables_returned (b : LiefBinary) : Returned (linkTables b) ↔
    (∀ sym ∈ b.dynamicSymbols, SymbolFits sym) ∧
    (∀ sym ∈ b.symtabSymbols, SymbolFits sym) ∧ ∀ r ∈ b.relocations, RelocationFits r := by
  have symbols (source : SymbolSource) (table : SymbolTable) (syms : List LiefSymbol) :
      Returned (insertSymbols table syms source) ↔ ∀ sym ∈ syms, SymbolFits sym :=
    returned_foldlM_iff (insertSymbol_returned source) syms table
  have relocations (ids : Dict Int) (table : Table RelocationRow RelocationRow.id) :=
    returned_foldlM_iff (insertRelocation_returned ids) b.relocations table
  rw [linkTables, returned_bind_iff_and fun table => ?_, symbols]
  rw [returned_bind_iff_and fun table => ?_, symbols]
  rw [returned_bind_iff_and fun rows => returned_pure _, and_true, relocations]

theorem dynamicEntryRow_returned (ent : LiefDynamicEntry) :
    Returned (dynamicEntryRow ent) ↔ ∀ value, dynValue ent = .integer value → Storable value := by
  rw [dynamicEntryRow]
  split
  · rename_i value integer
    split_ifs with fits <;> simp [integer, fits]
  · rename_i text
    exact iff_of_true (returned_ok _) fun value integer => nomatch text.symm.trans integer
  · rename_i other _
    exact iff_of_true (returned_ok _) fun value integer => (other value integer).elim

theorem dynamicEntryRows_returned (entries : List LiefDynamicEntry) :
    Returned (dynamicEntryRows entries) ↔ ∀ ent ∈ entries, DynamicEntryFits ent := by
  rw [dynamicEntryRows, returned_mapM_iff fun ent _ => dynamicEntryRow_returned ent]
  simp only [List.mem_filter, decide_eq_true_eq, and_imp, DynamicEntryFits]

theorem insertSection_returned (s : LiefSection) (i : Nat) :
    Returned (insertSection (sectionRow s i)) ↔ SectionFits s := by
  have blob : (∀ content ∈ (sectionRow s i).content, content.length ≤ sqliteMaxLength) ↔
      (s.typeNumber ≠ some shtNobits → s.size ≠ 0 → s.content.length ≤ sqliteMaxLength) := by
    simp only [sectionRow]
    split_ifs with copied
    · simp [copied]
    · simpa using fun present sized => absurd ⟨present, sized⟩ copied
  rw [insertSection]
  split_ifs with columns small
  · exact iff_of_true (returned_ok _) ⟨columns, blob.mp small⟩
  · exact iff_of_false (not_returned_error _) fun fits => small (blob.mpr fits.blob)
  · exact iff_of_false (not_returned_error _) fun fits => columns fits.columns

theorem sectionRows_returned (withSections : Bool) (sections : List LiefSection) :
    Returned (sectionRows withSections sections) ↔
      (withSections = true → ∀ s ∈ sections, SectionFits s) := by
  cases withSections with
  | false => simp [sectionRows]
  | true =>
    have numbered : (∀ s ∈ sections.zipIdx, SectionFits s.1) ↔ ∀ s ∈ sections, SectionFits s := by
      rw [← List.forall_mem_map (f := Prod.fst) (P := SectionFits), List.zipIdx_map_fst]
    rw [sectionRows, returned_mapM_iff fun s _ => insertSection_returned s.1 s.2, numbered]
    simp only [forall_const]

theorem insertNote_returned (n : LiefNote) :
    Returned (insertNote n) ↔ n.description.length ≤ sqliteMaxLength := by
  rw [insertNote]
  split_ifs with fits <;> simp [fits]

theorem convert_returned (lief : Except PyError LinkTables) (elf : Elf64 data) :
    Returned (convert lief data) ↔ Returned lief ∧ ImageFits data := by
  constructor
  · rintro ⟨db, converted⟩
    obtain ⟨link, tables, _⟩ := convert_link converted
    have rows := convert_sound converted
    exact ⟨⟨link, tables⟩, rows.ready, rows.stored⟩
  · rintro ⟨⟨link, rfl⟩, fits⟩
    exact convert_complete link elf fits.segments fits.identity

/-- The rows of an ELF file can be written exactly when SQLite can store them. -/
theorem elf2self_returned (b : LiefBinary) (withSections : Bool) (elf : Elf64 data) :
    Returned (elf2self (some b) withSections data) ↔ ImageFits data ∧ LiefFits b withSections := by
  have fits : LiefFits b withSections ↔ (((∀ sym ∈ b.dynamicSymbols, SymbolFits sym) ∧
      (∀ sym ∈ b.symtabSymbols, SymbolFits sym) ∧ ∀ r ∈ b.relocations, RelocationFits r) ∧
      (∀ ent ∈ b.dynamicEntries, DynamicEntryFits ent) ∧
      (withSections = true → ∀ s ∈ b.sections, SectionFits s) ∧
      ∀ n ∈ b.notes, n.description.length ≤ sqliteMaxLength) :=
    ⟨fun f => ⟨⟨f.1, f.2, f.3⟩, f.4, f.5, f.6⟩,
      fun ⟨⟨dynamic, static, relocations⟩, entries, sections, notes⟩ =>
      ⟨dynamic, static, relocations, entries, sections, notes⟩⟩
  rw [fits, ← linkTables_returned, ← dynamicEntryRows_returned, ← sectionRows_returned,
    ← returned_mapM_iff fun n _ => insertNote_returned n, ← and_assoc,
    and_comm (a := ImageFits data)]
  rw [elf2self, returned_bind_iff_and fun db => ?_, liefTables, convert_returned _ elf]
  rw [orRaise, ok_bind, returned_bind_iff_and fun entries => ?_]
  rw [returned_bind_iff_and fun sections => ?_]
  rw [returned_bind_iff_and fun notes => returned_pure _, and_true]

/-! `build_closure`. -/

def SymbolEntryFits (sym : LiefSymbol) : Prop := sym.name ≠ "" → Storable sym.value ∧
    Storable sym.size

/-- The first SONAME entry has a name. -/
def SonameNamed (entries : List LiefDynamicEntry) : Prop :=
  ∀ ent ∈ entries.find? fun ent => "SONAME".toList.isSuffixOf ent.tag.toList, ent.name.isSome = true

/-- What `_insert_object` requires of an object that it has not seen. -/
structure ObjectFits (host : Host) (withSegments : Bool) (path : String) (data : Bytes)
    (b : LiefBinary) : Prop where
  file : host.files path = some data
  elf : Elf64 data
  lief : host.lief path = some b
  soname : SonameNamed b.dynamicEntries
  identity : ∀ value ∈ [(imageEhdr data).et, (imageEhdr data).em, (imageEhdr data).entry,
    (imageEhdr data).phoff, (entryCount data : Int)], Storable value
  ldd : Returned (host.ldd path)
  segments : withSegments = true → ∀ p ∈ imagePhdrs data, Insertable p
  symbols : ∀ sym ∈ b.dynamicSymbols, SymbolEntryFits sym

theorem sonameOf_returned (entries : List LiefDynamicEntry) : Returned (sonameOf entries) ↔
    SonameNamed entries := by
  induction entries with
  | nil => simp [sonameOf, SonameNamed]
  | cons ent rest ih =>
    rw [sonameOf, SonameNamed, List.find?_cons]
    by_cases tagged : "SONAME".toList.isSuffixOf ent.tag.toList = true
    · rw [if_pos tagged, tagged]
      cases named : ent.name <;> simp [named]
    · rw [if_neg tagged, Bool.eq_false_iff.mpr tagged]
      exact ih

/-- Slicing the content of a LOAD segment again. -/
theorem closureSegment_eq (data : Bytes) {p : Phdr} (member : p ∈ imagePhdrs data) (i : Nat) :
    closureSegment data p i = segmentRow i p := by
  obtain ⟨j, _, rfl⟩ := List.mem_map.mp member
  have again := Py.getSlice_eq_slice data (readField_nonneg data (entryStart data j + 8) 8)
    (readField_nonneg data (entryStart data j + 32) 8)
  simp only [closureSegment, imagePhdr, entryAt, RawPhdr.read, again]
  rfl

theorem segmentEntries_returned (elf : Elf64 data) (withSegments : Bool) :
    Returned (segmentEntries data (imagePhdrs data) withSegments) ↔
      (withSegments = true → ∀ p ∈ imagePhdrs data, Insertable p) := by
  cases withSegments with
  | false => simp [segmentEntries]
  | true =>
    have each : ∀ p ∈ (imagePhdrs data).zipIdx,
        (Returned (insertSegment (closureSegment data p.1 p.2)) ↔ Insertable p.1) := by
      intro p member
      have few := elf.entryCount_lt
      have index := List.snd_lt_of_mem_zipIdx member
      rw [imagePhdrs_length] at index
      have id : Storable p.2 := ⟨by omega, by omega⟩
      rw [closureSegment_eq data (List.fst_mem_of_mem_zipIdx member), Returned]
      simp only [insertSegment_eq_ok_iff, id, true_and, exists_and_left, exists_eq, and_true]
    rw [segmentEntries, returned_mapM_iff each]
    rw [← List.forall_mem_map (f := Prod.fst) (P := Insertable), List.zipIdx_map_fst]
    simp only [forall_const]

theorem symbolEntries_returned (syms : List LiefSymbol) :
    Returned (symbolEntries syms) ↔ ∀ sym ∈ syms, SymbolEntryFits sym := by
  have entry (sym : LiefSymbol) : Returned (symbolEntry sym) ↔ Storable sym.value ∧
      Storable sym.size := by
    rw [symbolEntry]
    split_ifs with fits <;> simp [fits]
  rw [symbolEntries, returned_mapM_iff fun sym _ => entry sym]
  simp only [List.mem_filter, decide_eq_true_eq, and_imp, SymbolEntryFits]

theorem objectRecord_returned (host : Host) (withSegments : Bool) (path : String) :
    Returned (objectRecord host withSegments path) ↔
      ∃ data b, ObjectFits host withSegments path data b := by
  have columns (data : Bytes) (b : LiefBinary) (soname : Option String) :
      (objectColumns path false soname (imageEhdr data) (imagePhdrs data).length b.notes).Stored ↔
        ∀ value ∈ [(imageEhdr data).et, (imageEhdr data).em, (imageEhdr data).entry,
          (imageEhdr data).phoff, (entryCount data : Int)], Storable value := by
    rw [ObjectColumns.Stored, List.forall_mem_cons, objectColumns, imagePhdrs_length]
    exact and_iff_right (show Storable 0 by decide)
  rw [Returned]
  simp only [objectRecord, bind_eq_ok_iff, orRaise_eq_ok_iff, Py.raiseIf_eq_ok_iff, not_not]
  constructor
  · rintro ⟨record, data, file, ⟨ehdr, phdrs⟩, parsed, b, lief, soname, named, _, stored, resolved,
      ldd, segments, sliced, symbols, listed, _⟩
    obtain ⟨elf, rfl, rfl⟩ := (parseImage_eq_ok_iff data ehdr phdrs).mp parsed
    exact ⟨data, b, file, elf, lief, (sonameOf_returned _).mp ⟨_, named⟩,
      (columns data b soname).mp stored, (returned_map_iff _ _).mp ⟨_, ldd⟩,
      (segmentEntries_returned elf _).mp ⟨_, sliced⟩, (symbolEntries_returned _).mp ⟨_, listed⟩⟩
  · rintro ⟨data, b, fits⟩
    obtain ⟨soname, named⟩ := (sonameOf_returned _).mpr fits.soname
    obtain ⟨resolved, ldd⟩ : Returned (lddMap host path) := (returned_map_iff _ _).mpr fits.ldd
    obtain ⟨segments, sliced⟩ := (segmentEntries_returned fits.elf withSegments).mpr fits.segments
    obtain ⟨symbols, listed⟩ := (symbolEntries_returned _).mpr fits.symbols
    exact ⟨_, data, fits.file, (imageEhdr data, imagePhdrs data),
      (parseImage_eq_ok_iff data _ _).mpr ⟨fits.elf, rfl, rfl⟩, b, fits.lief, soname, named, (),
      (columns data b soname).mpr fits.identity, resolved, ldd, segments, sliced, symbols, listed,
      rfl⟩

/-- The roots are resolved, and every object that they lead to can be recorded. -/
structure RootsFit (host : Host) (roots : List String) (withSegments : Bool) : Prop where
  resolved : ∀ root, IsRoot host roots root → Returned (host.ldd root)
  objects : ∀ path, Member host roots path → ∃ data b, ObjectFits host withSegments path data b

/-- A packing completes exactly when each of its objects can be recorded. -/
theorem buildClosure_returned (host : Host) (roots : List String) (withSegments : Bool) :
    Returned (buildClosure host roots withSegments) ↔ RootsFit host roots withSegments := by
  have ldd (root : String) : Returned (lddClosure host root) ↔ Returned (host.ldd root) := by
    rw [lddClosure, returned_map_iff, lddMap, returned_map_iff]
  constructor
  · rintro ⟨⟨db, stats⟩, built⟩
    obtain ⟨calls, entries, state, listed, registered, _, _⟩ := buildClosure_packs built
    constructor
    · exact fun root wanted => (ldd root).mp (rootCalls_resolved listed root wanted.1 wanted.2)
    · intro path member
      obtain ⟨isRoot, call⟩ := (member_iff listed path).mp member
      exact (objectRecord_returned host withSegments path).mp (registered.made _ call)
  · intro fit
    obtain ⟨calls, listed⟩ := rootCalls_exists fun root wanted elf =>
      (ldd root).mpr (fit.resolved root ⟨wanted, elf⟩)
    refine buildClosure_exists listed fun call member => ?_
    exact (objectRecord_returned host withSegments call.1).mpr
      (fit.objects call.1 ((member_iff listed call.1).mpr ⟨call.2, member⟩))

end SelfDb
