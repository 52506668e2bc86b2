import Mathlib.Data.List.Sort
import SelfDb.Selfconv.Convert
import SelfDb.Selfconv.Lief

/-! `selfconv/closure.py`: a list of roots and everything their `ldd` resolves,
packed into one database. -/
namespace SelfDb

/-- The files, `ldd` and LIEF, as functions of a path. -/
structure Host where
  /-- `open(path, "rb").read()`, or OSError. -/
  files : String → Option Bytes
  pathExists : String → Bool
  realpath : String → String
  /-- The lines that `ldd path` prints. -/
  ldd : String → Except PyError (List String)
  /-- `lief.ELF.parse(path)`. -/
  lief : String → Option LiefBinary

/-! `ldd`. -/

def isElf (host : Host) (path : String) : Bool :=
  match host.files path with
  | some data => data.take 4 = elfMagic
  | none => false

/-- `libfoo.so => /nix/store/.../libfoo.so (0x...)`. -/
def lddLine (host : Host) (line : String) : Option (String × String) :=
  match Py.splitOnce ['=', '>'] line.toList with
  | none => none
  | some (soname, rhs) =>
    let path := String.ofList (Py.strip (((Py.splitOnce [' ', '('] rhs).map Prod.fst).getD rhs))
    if path ≠ "" ∧ host.pathExists path then some (.ofList (Py.strip soname), host.realpath path)
      else none

def addLine (host : Host) (resolved : Dict String) (line : String) : Dict String :=
  match lddLine host line with
  | some (soname, path) => resolved.insert soname path
  | none => resolved

/-- `_ldd_map`. -/
def lddMap (host : Host) (binary : String) : Except PyError (Dict String) :=
  (host.ldd binary).map fun lines => lines.foldl (addLine host) ∅

def Dict.values (dict : Dict β) : List β := dict.entries.map Sigma.snd

/-- `sorted(set(values))`. -/
def sortedSet (values : List String) : List String := values.dedup.insertionSort (· ≤ ·)

/-- `_ldd_closure`. -/
def lddClosure (host : Host) (binary : String) : Except PyError (List String) :=
  (lddMap host binary).map fun resolved => sortedSet resolved.values

/-! The rows. -/

inductive ObjectKind where
  | exe | lib
  deriving DecidableEq

/-- The columns of `objects` that an INSERT binds. -/
structure ObjectColumns where
  path : String
  soname : Option String
  kind : ObjectKind
  isRoot : Int
  machine : String
  buildId : Option String
  et : Int
  em : Int
  entry : Int
  phoff : Int
  phnum : Int
  deriving DecidableEq

def ObjectColumns.Stored (columns : ObjectColumns) : Prop :=
  ∀ value ∈ [columns.isRoot, columns.et, columns.em, columns.entry, columns.phoff, columns.phnum],
    Storable value

instance (columns : ObjectColumns) : Decidable columns.Stored :=
  inferInstanceAs (Decidable (∀ _ ∈ _, _))

structure ObjectRow extends ObjectColumns where
  id : Int
  deriving DecidableEq

/-- A row of a table that is namespaced by `object_id`. -/
structure Owned (α : Type) where
  objectId : Int
  row : α
  deriving DecidableEq

structure NeedsEntry where
  ord : Int
  soname : String
  resolvedPath : Option String
  deriving DecidableEq

structure SymbolEntry where
  name : String
  version : Option String
  value : Int
  size : Int
  type : String
  bind : String
  defined : Int
  exported : Int
  deriving DecidableEq

/-- The tables of `CLOSURE_SCHEMA`. -/
structure Closure where
  objects : Table ObjectRow ObjectRow.id
  /-- `path TEXT UNIQUE NOT NULL` -/
  unique : (objects.rows.map (·.path)).Nodup
  needs : List (Owned NeedsEntry)
  /-- The `id` of a segment row is its `idx`. -/
  segments : List (Owned SegmentRow)
  symbols : List (Owned SymbolEntry)

namespace Closure

def empty : Closure := ⟨.empty, .nil, [], [], []⟩

/-- `INSERT INTO objects`. -/
def insertObjectRow (db : Closure) (columns : ObjectColumns) : Except PyError Closure :=
  if columns.Stored then
    if taken : columns.path ∈ db.objects.rows.map (·.path) then .error .integrityError
    else .ok { db with
      objects := db.objects.insert (fun id => ⟨columns, id⟩) fun _ => rfl
      unique := by
        rw [Table.insert, List.map_append, List.map_singleton]
        exact List.nodup_append.mpr ⟨db.unique, List.nodup_singleton _,
          fun other member _ last same =>
            taken (List.mem_singleton.mp last ▸ same ▸ member)⟩ }
  else .error .overflowError

/-- `UPDATE objects SET kind='exe', is_root=1 WHERE path=?`. -/
def promoteRow (path : String) (row : ObjectRow) : ObjectRow :=
  if row.path = path then { row with kind := .exe, isRoot := 1 } else row

@[simp] theorem promoteRow_id (path : String) (row : ObjectRow) :
    (promoteRow path row).id = row.id := by
  rw [promoteRow]
  split <;> rfl

@[simp] theorem promoteRow_path (path : String) (row : ObjectRow) :
    (promoteRow path row).path = row.path := by
  rw [promoteRow]
  split <;> rfl

def promote (db : Closure) (path : String) : Closure where
  objects := db.objects.map (promoteRow path) (promoteRow_id path)
  unique := by
    simpa only [Table.map, List.map_map, Function.comp_def, promoteRow_path] using db.unique
  needs := db.needs
  segments := db.segments
  symbols := db.symbols

end Closure

/-! `_insert_object`. -/

/-- `_soname_of`. -/
def sonameOf : List LiefDynamicEntry → Except PyError (Option String)
  | [] => .ok none
  | ent :: rest =>
    if "SONAME".toList.isSuffixOf ent.tag.toList then
      match ent.name with
      | some name => .ok (some name)
      | none => .error .attributeError
    else sonameOf rest

/-- `_build_id`. -/
def buildIdOf (notes : List LiefNote) : Option String :=
  (notes.find? fun n => Py.isIn "BUILD_ID" (Py.upper n.type)).map fun n => Py.hex n.description

/-- The values bound by the INSERT into `objects`. -/
def objectColumns (path : String) (isRoot : Bool) (soname : Option String) (ehdr : Ehdr)
    (phnum : Nat) (notes : List LiefNote) : ObjectColumns where
  path := path
  soname := soname
  kind := if isRoot then .exe else .lib
  isRoot := if isRoot then 1 else 0
  machine := machineName ehdr.em
  buildId := buildIdOf notes
  et := ehdr.et
  em := ehdr.em
  entry := ehdr.entry
  phoff := ehdr.phoff
  phnum := phnum

def needsEntries (resolved : Dict String) (libraries : List String) : List NeedsEntry :=
  libraries.zipIdx.map fun lib => ⟨lib.2, lib.1, resolved.lookup lib.1⟩

/-- The row of one program header; the content is sliced again. -/
def closureSegment (data : Bytes) (p : Phdr) (i : Nat) : SegmentRow :=
  segmentRow i { p with
    content := if p.ptype = ptLoad then some (Py.getSlice data p.offset (p.offset + p.filesz))
    else none }

def segmentEntries (data : Bytes) (phdrs : List Phdr) : Bool → Except PyError (List SegmentRow)
  | true => phdrs.zipIdx.mapM fun p => insertSegment (closureSegment data p.1 p.2)
  | false => .ok []

def symbolEntry (sym : LiefSymbol) : Except PyError SymbolEntry :=
  if Storable sym.value ∧ Storable sym.size then
    .ok ⟨sym.name, none, sym.value, sym.size, enumName sym.type, enumName sym.binding,
      symbolDefined sym, symbolExported sym⟩
  else .error .overflowError

def symbolEntries (syms : List LiefSymbol) : Except PyError (List SymbolEntry) :=
  (syms.filter (·.name ≠ "")).mapM symbolEntry

/-- The database and the `seen` map. -/
structure Packing where
  db : Closure
  seen : Dict Int

/-- `_insert_object`, which returns the id and changes the database and `seen`. -/
def insertObject (host : Host) (withSegments : Bool) (path : String) (isRoot : Bool)
    (state : Packing) :
    Except PyError (Int × Packing) :=
  match state.seen.lookup path with
  | some oid => .ok (oid, if isRoot then { state with db := state.db.promote path } else state)
  | none => do
    let data ← orRaise .osError (host.files path)
    let (ehdr, phdrs) ← parseImage data
    let b ← orRaise .attributeError (host.lief path)
    let soname ← sonameOf b.dynamicEntries
    let db ← state.db.insertObjectRow (objectColumns path isRoot soname ehdr phdrs.length b.notes)
    let oid := state.db.objects.nextKey
    let resolved ← lddMap host path
    let segments ← segmentEntries data phdrs withSegments
    let symbols ← symbolEntries b.dynamicSymbols
    return (oid, {
      db := { db with
        needs := db.needs ++ (needsEntries resolved b.libraries).map (.mk oid)
        segments := db.segments ++ segments.map (.mk oid)
        symbols := db.symbols ++ symbols.map (.mk oid) }
      seen := state.seen.insert path oid })

/-! `build_closure`. -/

/-- The loop over the libraries of one root. -/
def libLoop (host : Host) (withSegments : Bool) : List String → Packing → Except PyError Packing
  | [], state => .ok state
  | lib :: rest, state => do
    let (_, state) ← insertObject host withSegments lib false state
    libLoop host withSegments rest state

/-- The loop over the roots, with the list of those that were skipped. -/
def rootLoop (host : Host) (withSegments : Bool) :
    List String → List String → Packing → Except PyError (List String × Packing)
  | [], skipped, state => .ok (skipped, state)
  | root :: rest, skipped, state =>
    if isElf host root then do
      let (_, state) ← insertObject host withSegments root true state
      let libs ← lddClosure host root
      let state ← libLoop host withSegments libs state
      rootLoop host withSegments rest skipped state
    else rootLoop host withSegments rest (skipped ++ [root]) state

structure ClosureStats where
  objects : Nat
  roots : Nat
  edges : Nat
  skipped : List String

/-- `build_closure`: the database that is committed, and what is returned. -/
def buildClosure (host : Host) (roots : List String) (withSegments : Bool) :
    Except PyError (Closure × ClosureStats) := do
  let wanted := roots.map host.realpath
  let (skipped, state) ← rootLoop host withSegments wanted [] ⟨.empty, ∅⟩
  let db := state.db
  return (db, ⟨db.objects.rows.length, db.objects.rows.countP (·.isRoot = 1), db.needs.length,
    skipped⟩)

end SelfDb
