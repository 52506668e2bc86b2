import SelfDb.Elf
import SelfDb.Sqlite

/-! The SELF tables, restricted to the columns that a loader or a converter
reads back, and what each statement of the loaders yields on them. -/
namespace SelfDb

inductive MetaKey where
  | et | em | osabi | eflags | entry | phoff | phnum | phentsize | interp
  deriving DecidableEq

inductive SegmentType where
  | load | dynamic | interp | note | phdr | tls | ehFrame | stack | relro | property | other
  deriving DecidableEq

structure SegmentRow where
  id : Int
  type : SegmentType
  ptype : Int
  offset : Int
  vaddr : Int
  filesz : Int
  memsz : Int
  r : Value
  w : Value
  x : Value
  align : Int
  content : Option Bytes
  deriving DecidableEq

/-- A blob has at most `INT_MAX` bytes. -/
structure SegmentRow.Stored (row : SegmentRow) : Prop where
  columns : ∀ value ∈ [row.id, row.ptype, row.offset, row.vaddr, row.filesz, row.memsz, row.align],
    Storable value
  flags : ∀ value ∈ [row.r, row.w, row.x], value.Storable
  blob : ∀ content ∈ row.content, content.length < 2 ^ 31

instance (row : SegmentRow) : Decidable row.Stored :=
  decidable_of_iff
    ((∀ value ∈ [row.id, row.ptype, row.offset, row.vaddr, row.filesz, row.memsz, row.align],
      Storable value) ∧ (∀ value ∈ [row.r, row.w, row.x], value.Storable) ∧
      ∀ content ∈ row.content, content.length < 2 ^ 31)
    ⟨fun stored => ⟨stored.1, stored.2.1, stored.2.2⟩,
      fun stored => ⟨stored.columns, stored.flags, stored.blob⟩⟩

/-- `(4 if r else 0) | (2 if w else 0) | (1 if x else 0)`, for what counts as true. -/
def rwxFlags (truth : Value → Prop) [DecidablePred truth] (row : SegmentRow) : Int :=
  (if truth row.r then 4 else 0) + (if truth row.w then 2 else 0) + (if truth row.x then 1 else 0)

structure NeededRow where
  ord : Int
  soname : String
  deriving DecidableEq

inductive SymbolSource where
  | dynsym | symtab
  deriving DecidableEq

structure SymbolRow where
  id : Int
  name : String
  version : Option String
  value : Option Int
  size : Option Int
  type : Option String
  bind : Option String
  visibility : Option String
  shndx : Option Int
  defined : Int
  exported : Int
  source : SymbolSource
  deriving DecidableEq

structure RelocationRow where
  id : Int
  offset : Int
  rtype : Int
  symbol : Option Int
  addend : Int
  deriving DecidableEq

/-- `application_id` is not stored: a `Database` is one that `self_db_open` and
`open_self` accept. The key of `self_meta` is its primary key. -/
structure Database where
  selfMeta : MetaKey → Option Value
  segments : Table SegmentRow SegmentRow.id
  needed : Table NeededRow NeededRow.ord
  symbols : Table SymbolRow SymbolRow.id
  relocations : Table RelocationRow RelocationRow.id
  metaStored : ∀ key value, selfMeta key = some (.integer value) → Storable value
  segmentsStored : ∀ row ∈ segments.rows, row.Stored

/-- A row of `relocations r LEFT JOIN symbols s ON r.symbol = s.id`. -/
structure BoundRelocation where
  offset : Int
  rtype : Int
  addend : Int
  name : Option String
  deriving DecidableEq

/-- What each statement issued through one `sqlite3 *` yields. The loaders are
functions of this, so a statement may fail or see a different commit. -/
structure Connection where
  /-- SELECT value FROM self_meta WHERE key=? -/
  metaValue : MetaKey → Query Value
  /-- SELECT ptype, ..., content FROM segments ORDER BY id -/
  segments : Query SegmentRow
  /-- SELECT vaddr, memsz FROM segments WHERE type='load' -/
  loadBounds : Query (Int × Int)
  /-- SELECT ... FROM segments WHERE type='load' ORDER BY id -/
  loadSegments : Query SegmentRow
  /-- SELECT soname FROM needed ORDER BY ord -/
  needed : Query String
  /-- SELECT name, value FROM symbols WHERE exported=1 AND source='dynsym' AND value IS NOT NULL -/
  exports : Query (String × Int)
  /-- SELECT r.offset, r.rtype, r.addend, s.name FROM relocations r LEFT JOIN symbols s -/
  relocations : Query BoundRelocation

namespace Database

def loadRows (db : Database) : List SegmentRow := db.segments.rows.filter (·.type = .load)

def exports (db : Database) : List (String × Int) :=
  db.symbols.rows.filterMap fun s =>
    if s.exported = 1 ∧ s.source = .dynsym then s.value.map fun value => (s.name, value) else none

def symbolName (db : Database) (symbol : Option Int) : Option String :=
  symbol.bind fun id => (db.symbols.rows.find? (·.id = id)).map (·.name)

def boundRelocations (db : Database) : List BoundRelocation :=
  db.relocations.rows.map fun r => ⟨r.offset, r.rtype, r.addend, db.symbolName r.symbol⟩

/-- Every statement succeeds and sees this one state. -/
def connect (db : Database) : Connection where
  metaValue key := .cursor (db.selfMeta key).toList .done
  segments := .cursor db.segments.rows .done
  loadBounds := .cursor (db.loadRows.map fun row => (row.vaddr, row.memsz)) .done
  loadSegments := .cursor db.loadRows .done
  needed := .cursor (db.needed.rows.map (·.soname)) .done
  exports := .cursor db.exports .done
  relocations := .cursor db.boundRelocations .done

end Database

end SelfDb
