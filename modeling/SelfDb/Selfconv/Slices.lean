import SelfDb.Selfconv.SymbolIds
import SelfDb.Selfconv.Union

/-! The objects of a closure against SELF files: what `_insert_object` records about a file is
what `convert` writes for it. -/
namespace SelfDb
open Binary (readField_nonneg)

/-- The columns of a symbol that a closure has; it leaves the version NULL. -/
def SymbolRow.entry (row : SymbolRow) : SymbolEntry :=
  ⟨row.name, none, row.value.getD 0, row.size.getD 0, row.type.getD "", row.bind.getD "",
    row.defined, row.exported⟩

/-- The record says what the file says. -/
structure SliceOf (file : SelfFile) (withSegments : Bool) (record : ObjectRecord) : Prop where
  segments : record.segments = if withSegments then file.db.segments.rows else []
  needs : record.needs.map (fun edge => (⟨edge.ord, edge.soname⟩ : NeededRow)) = file.db.needed.rows
  symbols : record.symbols =
    (file.db.symbols.rows.filter (·.source = .dynsym)).map SymbolRow.entry
  identity : ∀ column ∈ [(MetaKey.et, record.columns.et), (.em, record.columns.em),
    (.entry, record.columns.entry), (.phoff, record.columns.phoff), (.phnum, record.columns.phnum)],
    file.db.selfMeta column.1 = some (.integer column.2)

theorem mapM_eq_map {f : α → Except ε β} {g : α → β} {xs : List α}
    (each : ∀ x ∈ xs, ∀ y, f x = .ok y → y = g x) (ran : xs.mapM f = .ok ys) : ys = xs.map g := by
  induction xs generalizing ys with
  | nil =>
    cases ran
    rfl
  | cons x rest ih =>
    simp only [List.mapM_cons, bind_eq_ok_iff] at ran
    obtain ⟨y, first, others, later, result⟩ := ran
    cases result
    rw [List.forall_mem_cons] at each
    rw [List.map_cons, each.1 y first, ih each.2 later]

/-! Segments. -/

theorem insertSegment_same (inserted : insertSegment row = .ok after) : after = row := by
  rw [insertSegment] at inserted
  split at inserted
  · split at inserted <;> cases inserted
    rfl
  · cases inserted

/-- The content that is sliced again is the one that was parsed. -/
theorem closureSegment_image (data : Bytes) {p : Phdr} (member : p ∈ imagePhdrs data) (i : Nat) :
    closureSegment data p i = segmentRow i p := by
  obtain ⟨j, -, rfl⟩ := List.mem_map.mp member
  have offset : 0 ≤ (entryAt data j).offset := readField_nonneg ..
  have filesz : 0 ≤ (entryAt data j).filesz := readField_nonneg ..
  simp only [closureSegment, imagePhdr, Py.getSlice_eq_slice data offset filesz]

theorem segmentEntries_rows (inserted : segmentEntries data (imagePhdrs data) withSegments =
    .ok rows) : rows = if withSegments then segmentRows 0 (imagePhdrs data) else [] := by
  cases withSegments with
  | false =>
    cases inserted
    rfl
  | true =>
    refine mapM_eq_map (fun p member row written => ?_) inserted
    rw [← closureSegment_image data (List.fst_mem_of_mem_zipIdx member)]
    exact insertSegment_same written

/-! Symbols. -/

theorem symbolEntries_rows (inserted : symbolEntries syms = .ok entries) :
    entries = (syms.filter (·.name ≠ "")).map fun sym => (symbolRow .dynsym sym 0).entry := by
  refine mapM_eq_map (fun sym _ entry written => ?_) inserted
  rw [symbolEntry] at written
  split at written
  · cases written
    rfl
  · cases written

/-- The rows that `_insert_symbols` adds, without their ids. -/
theorem insertSymbols_entries {syms : List LiefSymbol}
    (inserted : insertSymbols table syms source = .ok after) :
    ∃ added, after.rows = table.rows ++ added ∧ (∀ row ∈ added, row.source = source) ∧
      added.map SymbolRow.entry =
        (syms.filter (·.name ≠ "")).map fun sym => (symbolRow source sym 0).entry := by
  induction syms generalizing table with
  | nil =>
    cases inserted
    exact ⟨[], (List.append_nil _).symm, List.forall_mem_nil _, rfl⟩
  | cons sym rest ih =>
    rw [insertSymbols, List.foldlM_cons, bind_eq_ok_iff] at inserted
    obtain ⟨next, first, later⟩ := inserted
    obtain ⟨added, rows, sources, entries⟩ := ih later
    rw [rows, insertSymbol_inv first, List.append_assoc]
    by_cases unnamed : sym.name = ""
    · refine ⟨added, ?_, sources, ?_⟩
      · rw [if_pos unnamed, List.nil_append]
      · rw [entries, List.filter_cons_of_neg (by simpa using unnamed)]
    · refine ⟨symbolRow source sym table.nextKey :: added, ?_, ?_, ?_⟩
      · rw [if_neg unnamed, List.singleton_append]
      · exact List.forall_mem_cons.mpr ⟨rfl, sources⟩
      · rw [List.map_cons, entries, List.filter_cons_of_pos (by simpa using unnamed), List.map_cons]
        rfl

theorem linkTables_entries (linked : linkTables b = .ok link) :
    (link.symbols.rows.filter (·.source = .dynsym)).map SymbolRow.entry =
      (b.dynamicSymbols.filter (·.name ≠ "")).map fun sym => (symbolRow .dynsym sym 0).entry := by
  simp only [linkTables, bind_eq_ok_iff] at linked
  obtain ⟨dynsym, first, both, second, _, _, result⟩ := linked
  cases result
  obtain ⟨added, rows, sources, entries⟩ := insertSymbols_entries first
  obtain ⟨more, rows', sources', _⟩ := insertSymbols_entries second
  rw [rows', rows, List.filter_append, List.filter_append]
  have mine : added.filter (·.source = .dynsym) = added := by
    rw [List.filter_eq_self]
    exact fun row member => decide_eq_true (sources row member)
  have theirs : more.filter (·.source = .dynsym) = [] := by
    rw [List.filter_eq_nil_iff]
    intro row member
    rw [sources' row member]
    decide
  rw [mine, theirs, List.append_nil, ← entries]
  rfl

/-! The whole record. -/

theorem needsEntries_rows (resolved : Dict String) (libraries : List String) :
    (needsEntries resolved libraries).map (fun edge => (⟨edge.ord, edge.soname⟩ : NeededRow)) =
      (neededTable libraries).rows := by
  rw [needsEntries, List.map_map]
  rfl

theorem objectRecord_slice (recorded : objectRecord host withSegments path = .ok record)
    (opened : host.files path = some data)
    (converted : elf2self (host.lief path) withSections data = .ok file) :
    SliceOf file withSegments record := by
  simp only [objectRecord, bind_eq_ok_iff, orRaise_eq_ok_iff, opened, Option.some.injEq,
    exists_eq_left'] at recorded
  obtain ⟨⟨ehdr, phdrs⟩, parsed, b, found, soname, _, _, _, resolved, _, segments, written,
    symbols, listed, result⟩ := recorded
  cases result
  obtain ⟨_, rfl, rfl⟩ := (parseImage_eq_ok_iff data ehdr phdrs).mp parsed
  rw [found] at converted
  simp only [elf2self, bind_eq_ok_iff] at converted
  obtain ⟨db, made, _, _, _, _, _, _, _, _, result⟩ := converted
  cases result
  have conv := convert_sound made
  obtain ⟨link, tables, needed, syms, _⟩ := convert_link made
  refine ⟨?_, ?_, ?_, ?_⟩
  · rw [conv.rows]
    exact segmentEntries_rows written
  · rw [needed]
    simp only [liefTables, linkTables, bind_eq_ok_iff] at tables
    obtain ⟨_, _, _, _, _, _, result⟩ := tables
    cases result
    exact needsEntries_rows resolved b.libraries
  · rw [syms, linkTables_entries tables]
    exact symbolEntries_rows listed
  · have length : (imagePhdrs data).length = entryCount data := imagePhdrs_length data
    simp only [List.forall_mem_cons, List.not_mem_nil, false_implies, implies_true, and_true,
      objectColumns, length]
    exact ⟨conv.meta_ .et (by decide), conv.meta_ .em (by decide), conv.meta_ .entry (by decide),
      conv.meta_ .phoff (by decide), conv.meta_ .phnum (by decide)⟩

/-- A closure holds of every object what the SELF file of the object holds. -/
theorem buildClosure_slices (built : buildClosure host roots withSegments = .ok (db, stats)) :
    ∀ path, Member host roots path → ∃ record, db.recorded path = some record ∧
      ∀ data withSections file, host.files path = some data →
        elf2self (host.lief path) withSections data = .ok file →
          SliceOf file withSegments record := by
  intro path member
  obtain ⟨record, recorded, found⟩ := buildClosure_recorded built member
  exact ⟨record, found, fun data withSections file opened converted =>
    objectRecord_slice recorded opened converted⟩

def versionedHost : Host where
  files _ := some mappedFile
  pathExists _ := true
  realpath path := path
  ldd _ := .ok []
  lief _ := some twoVersions

theorem buildClosure_slices_versionedHost :
    ∃ db stats record file, buildClosure versionedHost ["/app"] true = .ok (db, stats) ∧
      elf2self (some twoVersions) false mappedFile = .ok file ∧
      db.recorded "/app" = some record ∧ SliceOf file true record := by
  have packed : ∃ out, buildClosure versionedHost ["/app"] true = .ok out ∧
      out.2.objects = 1 := exists_of_map_decide (by decide +kernel)
  have converted : ∃ file, elf2self (some twoVersions) false mappedFile = .ok file ∧
      file.docs = ["format"] := exists_of_map_decide (by decide +kernel)
  obtain ⟨⟨db, stats⟩, built, _⟩ := packed
  obtain ⟨file, written, _⟩ := converted
  obtain ⟨record, found, slices⟩ := buildClosure_slices built "/app"
    ⟨"/app", ⟨List.mem_singleton_self _, by decide⟩, .inl rfl⟩
  exact ⟨db, stats, record, file, built, written, found, slices mappedFile false file rfl written⟩

end SelfDb
