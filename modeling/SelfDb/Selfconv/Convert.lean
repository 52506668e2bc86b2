import SelfDb.Selfconv.ElfImage
import SelfDb.Sqlite.Number

/-! `selfconv/elf2self.py` and `selfconv/self2elf.py`. The tables that elf2self
fills from LIEF are an argument, as is any exception raised while filling them. -/
namespace SelfDb
open Binary

/-- The rows that come from LIEF, a third-party parser. -/
structure LinkTables where
  needed : Table NeededRow NeededRow.ord
  symbols : Table SymbolRow SymbolRow.id
  relocations : Table RelocationRow RelocationRow.id

def LinkTables.none : LinkTables := ⟨.empty, .empty, .empty⟩

/-- The default `SQLITE_MAX_LENGTH`. -/
def sqliteMaxLength : Nat := 1000000000

def flag (flags : Int) (bit : Nat) : Int := if flags.toNat &&& bit ≠ 0 then 1 else 0

/-- The values bound by the INSERT of one program header. -/
def segmentRow (i : Nat) (p : Phdr) : SegmentRow where
  id := i
  type := typeName p.ptype
  ptype := p.ptype
  offset := p.offset
  vaddr := p.vaddr
  filesz := p.filesz
  memsz := p.memsz
  r := .integer (flag p.flags pfR)
  w := .integer (flag p.flags pfW)
  x := .integer (flag p.flags pfX)
  align := p.align
  content := p.content

def insertSegment (row : SegmentRow) : Except PyError SegmentRow :=
  if ∀ value ∈ [row.id, row.ptype, row.offset, row.vaddr, row.filesz, row.memsz, row.align],
      Storable value then
    if ∀ content ∈ row.content, content.length ≤ sqliteMaxLength then .ok row else .error .dataError
  else .error .overflowError

/-- `data[offset:offset+filesz].rstrip(b"\0").decode()`. -/
def interpPath (data : Bytes) (p : Phdr) : Except PyError String :=
  let raw := Py.getSlice data p.offset (p.offset + p.filesz)
  match String.fromUTF8? ⟨(raw.reverse.dropWhile (· = 0)).reverse.toArray⟩ with
  | some path => .ok path
  | none => .error .unicodeDecodeError

def updateInterp (data : Bytes) (p : Phdr) (interp : Option String) :
    Except PyError (Option String) :=
  if p.ptype = ptInterp then some <$> interpPath data p else .ok interp

/-- The segments loop: the rows from index `i` on and the last interpreter seen. -/
def segmentsLoop (data : Bytes) :
    Nat → List Phdr → Option String → Except PyError (List SegmentRow × Option String)
  | _, [], interp => .ok ([], interp)
  | i, p :: rest, interp => do
    let interp ← updateInterp data p interp
    let row ← insertSegment (segmentRow i p)
    let (rows, interp) ← segmentsLoop data (i + 1) rest interp
    return (row :: rows, interp)

/-- The `meta` dictionary, for the keys that are read back. The affinity of the column is
NUMERIC, so an interpreter path that reads as a number is stored as one. -/
def metaTable (ehdr : Ehdr) (phnum : Nat) (interp : Option String) : MetaKey → Value
  | .et => .integer ehdr.et
  | .em => .integer ehdr.em
  | .osabi => .integer ehdr.osabi
  | .eflags => .integer ehdr.eflags
  | .entry => .integer ehdr.entry
  | .phoff => .integer ehdr.phoff
  | .phnum => .integer phnum
  | .phentsize => .integer phdrSize
  | .interp => match interp with
    | some path => .numeric path
    | none => .null

def MetaStorable (ehdr : Ehdr) (phnum : Nat) : Prop :=
  ∀ value ∈ [ehdr.et, ehdr.em, ehdr.osabi, ehdr.eflags, ehdr.entry, ehdr.phoff, (phnum : Int)],
    Storable value

instance (ehdr : Ehdr) (phnum : Nat) : Decidable (MetaStorable ehdr phnum) :=
  inferInstanceAs (Decidable (∀ _ ∈ _, _))

def insertMeta (ehdr : Ehdr) (phnum : Nat) (interp : Option String) :
    Except PyError (MetaKey → Option Value) :=
  if MetaStorable ehdr phnum then .ok fun key => some (metaTable ehdr phnum interp key)
  else .error .overflowError

/-- What SQLite requires of the values of one program header. -/
structure Insertable (p : Phdr) : Prop where
  stored : ∀ value ∈ [p.ptype, p.offset, p.vaddr, p.filesz, p.memsz, p.align], Storable value
  small : ∀ content ∈ p.content, content.length ≤ sqliteMaxLength

instance (p : Phdr) : Decidable (Insertable p) :=
  decidable_of_iff
    ((∀ value ∈ [p.ptype, p.offset, p.vaddr, p.filesz, p.memsz, p.align], Storable value) ∧
      ∀ content ∈ p.content, content.length ≤ sqliteMaxLength)
    ⟨fun ready => ⟨ready.1, ready.2⟩, fun ready => ⟨ready.stored, ready.small⟩⟩

def InterpText (data : Bytes) (p : Phdr) : Prop :=
  p.ptype = ptInterp → (interpPath data p).isOk

instance (data : Bytes) (p : Phdr) : Decidable (InterpText data p) :=
  inferInstanceAs (Decidable (_ → _))

def segmentRows (i : Nat) (phdrs : List Phdr) : List SegmentRow :=
  (phdrs.zipIdx i).map fun p => segmentRow p.2 p.1

theorem insertSegment_eq_ok_iff (i : Nat) (p : Phdr) (row : SegmentRow) :
    insertSegment (segmentRow i p) = .ok row ↔
      Storable i ∧ Insertable p ∧ row = segmentRow i p := by
  have split : (∀ value ∈ [(segmentRow i p).id, (segmentRow i p).ptype, (segmentRow i p).offset,
      (segmentRow i p).vaddr, (segmentRow i p).filesz, (segmentRow i p).memsz,
      (segmentRow i p).align], Storable value) ↔ Storable i ∧
      ∀ value ∈ [p.ptype, p.offset, p.vaddr, p.filesz, p.memsz, p.align], Storable value := by
    rw [List.forall_mem_cons]
    exact Iff.rfl
  by_cases stored : Storable i ∧
      ∀ value ∈ [p.ptype, p.offset, p.vaddr, p.filesz, p.memsz, p.align], Storable value
  · rw [insertSegment, if_pos (split.mpr stored)]
    by_cases small : ∀ content ∈ (segmentRow i p).content, content.length ≤ sqliteMaxLength
    · rw [if_pos small]
      have ready : Insertable p := ⟨stored.2, small⟩
      simp only [Except.ok.injEq, stored.1, ready, true_and, eq_comm]
    · have blocked : ¬ Insertable p := fun ready => small ready.small
      rw [if_neg small]
      simp only [reduceCtorEq, blocked, false_and, and_false]
  · rw [insertSegment, if_neg (mt split.mp stored)]
    simp only [reduceCtorEq, false_iff]
    exact fun h => stored ⟨h.1, h.2.1.stored⟩

theorem flag_storable (flags : Int) (bit : Nat) : Storable (flag flags bit) := by
  simp only [flag]
  split <;> decide

theorem segmentRow_stored {i : Nat} (id : Storable i) (ready : Insertable p) :
    (segmentRow i p).Stored := by
  have columns := ready.stored
  have blob := ready.small
  constructor
  · simp only [List.forall_mem_cons, List.not_mem_nil, false_implies, implies_true, and_true]
      at columns ⊢
    simp only [segmentRow, id, columns, and_self]
  · simp only [List.forall_mem_cons, List.not_mem_nil, false_implies, implies_true, and_true]
    simp only [segmentRow, Value.Storable, flag_storable, and_self]
  · intro content found
    exact (blob content found).trans_lt (by decide)

theorem updateInterp_eq_ok (data : Bytes) (p : Phdr) (before : Option String) :
    (∃ after, updateInterp data p before = .ok after) ↔ InterpText data p := by
  by_cases isInterp : p.ptype = ptInterp
  · cases found : interpPath data p <;>
      simp [updateInterp, InterpText, isInterp, found, Functor.map, Except.map, Except.isOk,
        Except.toBool]
  · simp [updateInterp, InterpText, isInterp]

theorem segmentsLoop_sound {before interp : Option String}
    (looped : segmentsLoop data i phdrs before = .ok (rows, interp)) :
    rows = segmentRows i phdrs ∧ (∀ p ∈ phdrs, Insertable p ∧ InterpText data p) ∧
      ∀ row ∈ rows, row.Stored := by
  induction phdrs generalizing i before rows with
  | nil =>
    cases looped
    simp [segmentRows]
  | cons p rest ih =>
    simp only [segmentsLoop, bind_eq_ok_iff] at looped
    obtain ⟨between, decoded, row, inserted, ⟨tail, last⟩, later, result⟩ := looped
    cases result
    obtain ⟨id, ready, rfl⟩ := (insertSegment_eq_ok_iff i p row).mp inserted
    obtain ⟨rfl, all, stored⟩ := ih later
    have text := (updateInterp_eq_ok data p before).mp ⟨between, decoded⟩
    exact ⟨rfl, List.forall_mem_cons.mpr ⟨⟨ready, text⟩, all⟩,
      List.forall_mem_cons.mpr ⟨segmentRow_stored id ready, stored⟩⟩

theorem segmentsLoop_complete (before : Option String) (ids : i + phdrs.length ≤ 2 ^ 63)
    (ready : ∀ p ∈ phdrs, Insertable p ∧ InterpText data p) :
    ∃ interp, segmentsLoop data i phdrs before = .ok (segmentRows i phdrs, interp) := by
  induction phdrs generalizing i before with
  | nil => exact ⟨before, rfl⟩
  | cons p rest ih =>
    rw [List.forall_mem_cons] at ready
    simp only [List.length_cons] at ids
    obtain ⟨between, decoded⟩ := (updateInterp_eq_ok data p before).mpr ready.1.2
    have inserted := (insertSegment_eq_ok_iff i p _).mpr
      ⟨⟨by omega, by omega⟩, ready.1.1, rfl⟩
    obtain ⟨interp, later⟩ := ih between (show i + 1 + rest.length ≤ 2 ^ 63 by omega) ready.2
    refine ⟨interp, ?_⟩
    simp only [segmentsLoop, bind_eq_ok_iff]
    exact ⟨between, decoded, _, inserted, _, later, rfl⟩

theorem segmentRows_get (phdrs : List Phdr) (j : Nat) :
    (segmentRows 0 phdrs)[j]? = phdrs[j]?.map (segmentRow j) := by
  simp only [segmentRows, List.getElem?_map, List.getElem?_zipIdx, Option.map_map, Nat.zero_add]
  rfl

theorem segmentRows_ids (phdrs : List Phdr) (j : Nat) (row : SegmentRow)
    (found : (segmentRows 0 phdrs)[j]? = some row) : row.id = j := by
  rw [segmentRows_get, Option.map_eq_some_iff] at found
  obtain ⟨p, _, rfl⟩ := found
  rfl

theorem insertMeta_stored (inserted : insertMeta ehdr phnum interp = .ok selfMeta) (key : MetaKey)
    (value : Int) (found : selfMeta key = some (.integer value)) : Storable value := by
  simp only [insertMeta] at inserted
  split at inserted
  · rename_i stored
    cases inserted
    simp only [MetaStorable, List.forall_mem_cons, List.not_mem_nil, false_implies, implies_true,
      and_true] at stored
    cases key <;> simp only [metaTable, Option.some.injEq, Value.integer.injEq] at found
    case interp =>
      cases interp with
      | none => cases found
      | some path => exact (found ▸ Value.numeric_storable path : (Value.integer value).Storable)
    case phentsize => exact found ▸ by decide
    all_goals exact found ▸ by simp only [stored]
  · cases inserted

/-- `elf2self.convert`, up to the database being committed. -/
def convert (lief : Except PyError LinkTables) (data : Bytes) : Except PyError Database :=
  match parseImage data with
  | .error e => .error e
  | .ok (ehdr, phdrs) =>
    match lief with
    | .error e => .error e
    | .ok link =>
      match looped : segmentsLoop data 0 phdrs none with
      | .error e => .error e
      | .ok (rows, interp) =>
        match inserted : insertMeta ehdr phdrs.length interp with
        | .error e => .error e
        | .ok selfMeta => .ok {
            selfMeta
            segments := .enumerated rows fun j row found =>
              segmentRows_ids phdrs j row ((segmentsLoop_sound looped).1 ▸ found)
            needed := link.needed
            symbols := link.symbols
            relocations := link.relocations
            metaStored := insertMeta_stored inserted
            segmentsStored := (segmentsLoop_sound looped).2.2 }

/-- `meta[key]`. -/
def metaValue (db : Database) (key : MetaKey) : Except PyError Value :=
  match db.selfMeta key with
  | none => .error (.keyError key)
  | some value => .ok value

/-- `meta[key]` for a field that `serialize_image` packs; another value than an integer
raises there. -/
def metaInt (db : Database) (key : MetaKey) : Except PyError Int := do
  match ← metaValue db key with
  | .integer value => return value
  | _ => throw .typeError

/-- `r` counts as true in Python as anything but 0, an empty text or an empty BLOB. -/
def loadPhdr (row : SegmentRow) : Phdr :=
  ⟨row.ptype, rwxFlags Py.Truth row, row.offset, row.vaddr, row.filesz, row.memsz, row.align,
    row.content⟩

def loadImage (db : Database) : Except PyError (Ehdr × List Phdr) := do
  let et ← metaInt db .et
  let em ← metaInt db .em
  let entry ← metaInt db .entry
  let phoff ← metaInt db .phoff
  let eflags ← metaInt db .eflags
  let phentsize ← metaValue db .phentsize
  let phnum ← metaValue db .phnum
  let osabi ← metaInt db .osabi
  return (⟨et, em, entry, phoff, eflags, phentsize, phnum, osabi⟩, db.segments.rows.map loadPhdr)

/-- `self2elf.convert`: the bytes of the output file. -/
def self2elf (memory : Nat → Bool) (db : Database) : Except PyError Bytes := do
  let (ehdr, phdrs) ← loadImage db
  serializeImage memory ehdr phdrs

/-- The raw half of `self2elf(elf2self(d))`: no row of it depends on LIEF. -/
def normalize (memory : Nat → Bool) (data : Bytes) : Except PyError Bytes := do
  let db ← convert (.ok .none) data
  self2elf memory db

end SelfDb
