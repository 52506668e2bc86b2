import Mathlib.Data.List.Find
import SelfDb.Loader.RunNative
import SelfDb.Loader.SelfLd
import SelfDb.Selfconv.Link
import SelfDb.Selfconv.RoundTrip

/-! Stripping: rows of the optional tables and of the static symbol table are
deleted. No loader sees the difference, because the relocations that elf2self
writes refer to rows of the dynamic symbol table only. -/
namespace SelfDb

/-- The file after such DELETE statements and VACUUM. -/
structure Strips (file stripped : SelfFile) : Prop where
  selfMeta : stripped.db.selfMeta = file.db.selfMeta
  segments : stripped.db.segments = file.db.segments
  needed : stripped.db.needed = file.db.needed
  relocations : stripped.db.relocations = file.db.relocations
  symbols : ∃ keeps : SymbolRow → Bool, (∀ s, s.source = .dynsym → keeps s = true) ∧
    stripped.db.symbols.rows = file.db.symbols.rows.filter keeps
  dynamicEntries : stripped.dynamicEntries.Sublist file.dynamicEntries
  sections : stripped.sections.Sublist file.sections
  notes : stripped.notes.Sublist file.notes
  docs : stripped.docs.Sublist file.docs

/-- Relocations refer to dynamic symbols. -/
def RelocatesDynsym (symbols : SymbolTable) (relocations : List RelocationRow) : Prop :=
  ∀ r ∈ relocations, ∀ id, r.symbol = some id → ∃ s ∈ symbols.rows, s.id = id ∧ s.source = .dynsym

/-! The invariant is established by elf2self. -/

/-- A name that is found came from one of the rows, or was there before. -/
theorem lookup_foldl_insert {rows : List SymbolRow} {ids : Dict Int} {id : Int}
    (found : (rows.foldl (fun ids row => ids.insert row.name row.id) ids).lookup name = some id) :
    (∃ s ∈ rows, s.name = name ∧ s.id = id) ∨ ids.lookup name = some id := by
  induction rows generalizing ids with
  | nil => exact .inr found
  | cons s rest ih =>
    rcases ih found with ⟨t, member, named, numbered⟩ | before
    · exact .inl ⟨t, List.mem_cons_of_mem _ member, named, numbered⟩
    · by_cases same : name = s.name
      · subst same
        rw [AList.lookup_insert] at before
        exact .inl ⟨s, List.mem_cons_self, rfl, Option.some.inj before⟩
      · rw [AList.lookup_insert_ne same] at before
        exact .inr before

theorem symIds_dynsym (table : SymbolTable) {name : String} {id : Int}
    (found : (symIds table).lookup name = some id) :
    ∃ s ∈ table.rows, s.id = id ∧ s.source = .dynsym := by
  rcases lookup_foldl_insert found with ⟨s, member, _, rfl⟩ | none
  · rw [List.mem_filter, decide_eq_true_eq] at member
    exact ⟨s, member.1, rfl, member.2⟩
  · cases none

theorem relocationSymbol_dynsym {table : SymbolTable} {r : LiefRelocation} {id : Int}
    (found : relocationSymbol (symIds table) r = some id) :
    ∃ s ∈ table.rows, s.id = id ∧ s.source = .dynsym := by
  rw [relocationSymbol, Option.bind_eq_some_iff] at found
  obtain ⟨name, _, found⟩ := found
  split at found
  · cases found
  · exact symIds_dynsym table found

theorem linkTables_dynsym (linked : linkTables b = .ok link) :
    RelocatesDynsym link.symbols link.relocations.rows := by
  simp only [linkTables, bind_eq_ok_iff] at linked
  obtain ⟨_, _, symbols, _, relocations, looped, result⟩ := linked
  cases result
  refine foldlM_preserves (P := fun table : Table RelocationRow RelocationRow.id =>
    RelocatesDynsym symbols table.rows) (fun table r after _ before inserted => ?_)
    (by simp [RelocatesDynsym, Table.empty])
    looped
  rw [insertRelocation] at inserted
  split at inserted
  · cases inserted
    rw [RelocatesDynsym, Table.insert, List.forall_mem_append, List.forall_mem_singleton]
    exact ⟨before, fun id found => relocationSymbol_dynsym found⟩
  · cases inserted

theorem elf2self_dynsym (converted : elf2self lief withSections data = .ok file) :
    RelocatesDynsym file.db.symbols file.db.relocations.rows := by
  simp only [elf2self, bind_eq_ok_iff, orRaise_eq_ok_iff] at converted
  obtain ⟨db, made, b, rfl, _, _, _, _, _, _, result⟩ := converted
  cases result
  obtain ⟨link, tables, _, symbols, relocations⟩ := convert_link made
  rw [symbols, relocations]
  exact linkTables_dynsym tables

/-! Every statement of the loaders yields the same rows on a stripped file. -/

theorem Strips.exports_eq (strips : Strips file stripped) :
    stripped.db.exports = file.db.exports := by
  obtain ⟨keeps, dynamic, rows⟩ := strips.symbols
  rw [Database.exports, rows, List.filterMap_filter, Database.exports]
  refine List.filterMap_congr fun s _ => ?_
  by_cases kept : keeps s = true
  · rw [if_pos kept]
  · have static : ¬ (s.exported = 1 ∧ s.source = .dynsym) := fun both => kept (dynamic s both.2)
    rw [if_neg kept, if_neg static]

/-- A dynamic symbol is found under its id. -/
theorem Strips.symbolName_eq (strips : Strips file stripped)
    (refers : ∀ id, symbol = some id → ∃ s ∈ file.db.symbols.rows, s.id = id ∧ s.source = .dynsym) :
    stripped.db.symbolName symbol = file.db.symbolName symbol := by
  obtain ⟨keeps, dynamic, rows⟩ := strips.symbols
  cases symbol with
  | none => rfl
  | some id =>
    obtain ⟨s, listed, here, source⟩ := refers id rfl
    have search : (file.db.symbols.rows.filter keeps).find? (·.id = id) =
        file.db.symbols.rows.find? (·.id = id) := by
      rw [List.find?_filter]
      refine List.find?_congr fun other member => ?_
      by_cases same : other.id = id
      · have kept : keeps other = true := by
          rw [file.db.symbols.eq_of_key member listed (same.trans here.symm), dynamic s source]
        simp [kept]
      · simp [same]
    rw [Database.symbolName, rows, Option.bind_some, search]
    rfl

theorem Strips.connect_eq (strips : Strips file stripped)
    (refers : RelocatesDynsym file.db.symbols file.db.relocations.rows) :
    stripped.db.connect = file.db.connect := by
  have bound : stripped.db.boundRelocations = file.db.boundRelocations := by
    rw [Database.boundRelocations, strips.relocations, Database.boundRelocations]
    exact List.map_congr_left fun r member => by rw [strips.symbolName_eq (refers r member)]
  simp only [Database.connect, Database.loadRows, strips.selfMeta, strips.segments, strips.needed,
    strips.exports_eq, bound]

theorem Strips.self2elf_eq (strips : Strips file stripped) (memory : Nat → Bool) :
    self2elf memory stripped.db = self2elf memory file.db := by
  simp only [self2elf, loadImage, metaInt, metaValue, strips.selfMeta, strips.segments]

/-- elf2self wrote the file, of some ELF file. -/
def SelfFile.Converted (file : SelfFile) : Prop :=
  ∃ lief withSections data, elf2self lief withSections data = .ok file

/-- The world in which these files are found. -/
def worldOf (os : Os) (resolver : Option Resolver) (files : String → Option SelfFile) : World where
  os := os
  files path := (files path).map fun file => file.db.connect
  resolver := resolver

theorem SelfFile.Converted.connect_eq (converted : SelfFile.Converted file)
    (strips : Strips file stripped) :
    stripped.db.connect = file.db.connect := by
  obtain ⟨_, _, _, made⟩ := converted
  exact strips.connect_eq (elf2self_dynsym made)

theorem worldOf_stripped {files strippedFiles : String → Option SelfFile}
    (closure : ∀ path, Option.Rel (fun f f' => f.Converted ∧ Strips f f') (files path)
      (strippedFiles path))
    (os : Os) (resolver : Option Resolver) :
    worldOf os resolver strippedFiles = worldOf os resolver files := by
  have each : (worldOf os resolver strippedFiles).files = (worldOf os resolver files).files := by
    funext path
    have pair := closure path
    simp only [worldOf]
    generalize files path = original at pair
    generalize strippedFiles path = reduced at pair
    cases pair with
    | none => rfl
    | some both => exact congrArg some (both.1.connect_eq both.2)
  rw [worldOf, worldOf, World.mk.injEq]
  exact ⟨rfl, each, rfl⟩

/-- All four consumers do the same on a stripped file, and `run_selfld` also when
every file of the closure is stripped. -/
theorem strip_invisible (converted : file.Converted) (strips : Strips file stripped) :
    (∀ heap, selfBuildElf heap stripped.db.connect = selfBuildElf heap file.db.connect) ∧
    (∀ memory, self2elf memory stripped.db = self2elf memory file.db) ∧
    (∀ os mem, mapProgram os stripped.db.connect mem = mapProgram os file.db.connect mem) ∧
    ∀ {files strippedFiles : String → Option SelfFile},
      (∀ path, Option.Rel (fun f f' => f.Converted ∧ Strips f f') (files path)
        (strippedFiles path)) →
        ∀ os resolver path mem,
          runSelfld (worldOf os resolver strippedFiles) stripped.db.connect path mem =
            runSelfld (worldOf os resolver files) file.db.connect path mem := by
  have main := converted.connect_eq strips
  refine ⟨fun heap => by rw [main], strips.self2elf_eq, fun os mem => by rw [main], ?_⟩
  intro files strippedFiles closure os resolver path mem
  rw [worldOf_stripped closure, main]

/-- All optional rows and the static symbols deleted. -/
def SelfFile.stripped (file : SelfFile) : SelfFile where
  db := { file.db with symbols := file.db.symbols.keep (·.source = .dynsym) }
  dynamicEntries := []
  sections := []
  notes := []
  docs := []

theorem SelfFile.stripped_strips (file : SelfFile) : Strips file file.stripped where
  selfMeta := rfl
  segments := rfl
  needed := rfl
  relocations := rfl
  symbols := ⟨_, fun _ source => decide_eq_true source, rfl⟩
  dynamicEntries := List.nil_sublist _
  sections := List.nil_sublist _
  notes := List.nil_sublist _
  docs := List.nil_sublist _

/-- A binary that has one name in both of its symbol tables. -/
def twoTables : LiefBinary where
  libraries := ["liba.so"]
  dynamicEntries := [⟨"TAG.SONAME", some "libtwo.so", none, none, 1⟩]
  dynamicSymbols := [⟨"f", 0, 0, "TYPE.FUNC", "BINDING.GLOBAL", "GLOBAL", some 1, false, none,
    "VISIBILITY.DEFAULT"⟩]
  symtabSymbols := [⟨"f", 0, 0, "TYPE.FUNC", "BINDING.GLOBAL", "GLOBAL", some 1, false, none,
    "VISIBILITY.DEFAULT"⟩]
  relocations := [⟨0, "TYPE.X86_64_JUMP_SLOT", some "f", 0⟩]
  sections := []
  notes := []

theorem twoTables_converted : ∃ file, elf2self (some twoTables) true mappedFile = .ok file ∧
    file.db.symbols.rows.length = 2 ∧ file.stripped.db.symbols.rows.length = 1 ∧
    file.db.relocations.rows = [⟨1, 0, rJumpSlot, some 1, 0⟩] :=
  exists_of_map_decide (by decide +kernel)

theorem strip_invisible_twoTables :
    ∃ file, elf2self (some twoTables) true mappedFile = .ok file ∧
      (∀ heap, selfBuildElf heap file.stripped.db.connect = selfBuildElf heap file.db.connect) ∧
      (∀ memory, self2elf memory file.stripped.db = self2elf memory file.db) ∧
      (∀ os mem, mapProgram os file.stripped.db.connect mem = mapProgram os file.db.connect mem) ∧
      ∀ os resolver path mem,
        runSelfld (worldOf os resolver fun _ => some file.stripped) file.stripped.db.connect path
          mem =
          runSelfld (worldOf os resolver fun _ => some file) file.db.connect path mem := by
  obtain ⟨file, made, _⟩ := twoTables_converted
  have converted : file.Converted := ⟨_, _, _, made⟩
  obtain ⟨image, rebuilt, program, run⟩ := strip_invisible converted file.stripped_strips
  exact ⟨file, made, image, rebuilt, program, run fun _ => .some ⟨converted, file.stripped_strips⟩⟩

end SelfDb
