import SelfDb.Selfconv.Convert
import SelfDb.Selfconv.Lief

/-! The tables of elf2self that come from LIEF: dynamic linking, and the optional
layers that no loader reads. -/
namespace SelfDb

/-- `R_X86_64`. -/
def rX86_64 : List (String × Int) :=
  [("NONE", 0), ("64", 1), ("PC32", 2), ("GOT32", 3), ("PLT32", 4), ("COPY", 5), ("GLOB_DAT", 6),
    ("JUMP_SLOT", 7), ("RELATIVE", 8), ("DTPMOD64", 16), ("DTPOFF64", 17), ("TPOFF64", 18),
    ("TLSDESC", 36), ("IRELATIVE", 37)]

/-- `_reloc_name_and_num`, the number. -/
def relocNum (type : String) : Int :=
  let name := Py.removeprefix (Py.removeprefix (Py.lastComponent type) "X86_64_") "R_X86_64_"
  (rX86_64.lookup name).getD (-1)

def neededTable (libraries : List String) : Table NeededRow NeededRow.ord :=
  .enumerated (libraries.zipIdx.map fun lib => ⟨lib.2, lib.1⟩) fun i row found => by
    rw [List.getElem?_map, List.getElem?_zipIdx, Option.map_map, Option.map_eq_some_iff] at found
    obtain ⟨_, _, rfl⟩ := found
    simp

abbrev SymbolTable := Table SymbolRow SymbolRow.id

/-- The values bound by the INSERT into `symbols`, and the new key. -/
def symbolRow (source : SymbolSource) (sym : LiefSymbol) (id : Int) : SymbolRow where
  id := id
  name := sym.name
  version := symbolVersion sym
  value := some sym.value
  size := some sym.size
  type := some (enumName sym.type)
  bind := some (enumName sym.binding)
  visibility := some (enumName sym.visibility)
  shndx := sym.shndx
  defined := symbolDefined sym
  exported := symbolExported sym
  source := source

/-- One iteration of `_insert_symbols`. -/
def insertSymbol (source : SymbolSource) (table : SymbolTable) (sym : LiefSymbol) :
    Except PyError SymbolTable :=
  if sym.name = "" then .ok table
  else if Storable sym.value ∧ Storable sym.size ∧ ∀ shndx ∈ sym.shndx, Storable shndx then
    .ok (table.insert (symbolRow source sym) fun _ => rfl)
  else .error .overflowError

def insertSymbols (table : SymbolTable) (syms : List LiefSymbol) (source : SymbolSource) :
    Except PyError SymbolTable :=
  syms.foldlM (insertSymbol source) table

/-- `SELECT id, name FROM symbols WHERE source='dynsym'` as a `dict` by name. -/
def symIds (table : SymbolTable) : Dict Int :=
  (table.rows.filter (·.source = .dynsym)).foldl (fun ids row => ids.insert row.name row.id) ∅

def relocationSymbol (ids : Dict Int) (r : LiefRelocation) : Option Int :=
  r.symbol.bind fun name => if name = "" then none else ids.lookup name

/-- One iteration of the relocations loop. -/
def insertRelocation (ids : Dict Int) (table : Table RelocationRow RelocationRow.id)
    (r : LiefRelocation) :
    Except PyError (Table RelocationRow RelocationRow.id) :=
  if Storable r.address ∧ Storable r.addend then
    .ok (table.insert (fun id => ⟨id, r.address, relocNum r.type, relocationSymbol ids r, r.addend⟩)
      fun _ => rfl)
  else .error .overflowError

/-- The dynamic linking tables of `convert`. -/
def linkTables (b : LiefBinary) : Except PyError LinkTables := do
  let symbols ← insertSymbols .empty b.dynamicSymbols .dynsym
  let symbols ← insertSymbols symbols b.symtabSymbols .symtab
  let relocations ← b.relocations.foldlM (insertRelocation (symIds symbols)) .empty
  return ⟨neededTable b.libraries, symbols, relocations⟩

/-! The optional layers. -/

structure DynamicEntryRow where
  tag : String
  value : Value

structure SectionRow where
  id : Int
  name : String
  type : String
  stype : Option Int
  flags : Int
  vaddr : Int
  offset : Int
  size : Int
  entsize : Int
  link : Int
  info : Int
  align : Int
  content : Option Bytes

structure NoteRow where
  kind : String
  name : String
  content : Bytes

/-- `json.dumps` of a list of integers. -/
def jsonInts (values : List Int) : String := "[" ++ ", ".intercalate (values.map toString) ++ "]"

/-- `_dyn_value`. -/
def dynValue (ent : LiefDynamicEntry) : Value :=
  match ent.name.or ent.path with
  | some text => .text text
  | none =>
    match ent.array with
    | some (first :: rest) => .text (jsonInts (first :: rest))
    | _ => .integer ent.value

/-- The column `value` has NUMERIC affinity. -/
def dynamicEntryRow (ent : LiefDynamicEntry) : Except PyError DynamicEntryRow :=
  match dynValue ent with
  | .integer value =>
    if Storable value then .ok ⟨Py.lastComponent ent.tag, .integer value⟩ else .error .overflowError
  | .text text => .ok ⟨Py.lastComponent ent.tag, .numeric text⟩
  | value => .ok ⟨Py.lastComponent ent.tag, value⟩

def dynamicEntryRows (entries : List LiefDynamicEntry) : Except PyError (List DynamicEntryRow) :=
  (entries.filter fun ent => Py.lastComponent ent.tag ≠ "NEEDED").mapM dynamicEntryRow

/-- `SHT_NOBITS`. -/
def shtNobits : Int := 8

def sectionRow (s : LiefSection) (i : Nat) : SectionRow where
  id := i
  name := s.name
  type := enumName s.type
  stype := s.typeNumber
  flags := s.flags
  vaddr := s.virtualAddress
  offset := s.offset
  size := s.size
  entsize := s.entrySize
  link := s.link
  info := s.information
  align := s.alignment
  content := if s.typeNumber ≠ some shtNobits ∧ s.size ≠ 0 then some s.content else none

def insertSection (row : SectionRow) : Except PyError SectionRow :=
  if ∀ value ∈ row.stype.toList ++ [row.flags, row.vaddr, row.offset, row.size, row.entsize,
    row.link, row.info,
      row.align], Storable value then
    if ∀ content ∈ row.content, content.length ≤ sqliteMaxLength then .ok row else .error .dataError
  else .error .overflowError

def sectionRows : Bool → List LiefSection → Except PyError (List SectionRow)
  | true, sections => sections.zipIdx.mapM fun s => insertSection (sectionRow s.1 s.2)
  | false, _ => .ok []

def insertNote (n : LiefNote) : Except PyError NoteRow :=
  if n.description.length ≤ sqliteMaxLength
    then .ok ⟨Py.lastComponent n.type, n.name, n.description⟩
  else .error .dataError

/-- The file that `convert` writes: the database of the loaders and the optional
tables. A row of `docs` is given by its topic. -/
structure SelfFile where
  db : Database
  dynamicEntries : List DynamicEntryRow
  sections : List SectionRow
  notes : List NoteRow
  docs : List String

def liefTables : Option LiefBinary → Except PyError LinkTables
  | some b => linkTables b
  | none => .error (.valueError "LIEF failed to parse")

/-- `convert` with all tables. -/
def elf2self (lief : Option LiefBinary) (withSections : Bool) (data : Bytes) :
    Except PyError SelfFile := do
  let db ← convert (liefTables lief) data
  let b ← orRaise (.valueError "LIEF failed to parse") lief
  let dynamicEntries ← dynamicEntryRows b.dynamicEntries
  let sections ← sectionRows withSections b.sections
  let notes ← b.notes.mapM insertNote
  return ⟨db, dynamicEntries, sections, notes, ["format"]⟩

end SelfDb
