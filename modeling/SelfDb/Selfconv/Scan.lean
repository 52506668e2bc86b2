import SelfDb.Loader.Providers
import SelfDb.Selfconv.Output

/-! `self scan`: the files that `_sniff` recognises become rows of the resolver
database, which outlives the scan. -/
namespace SelfDb
open Binary Isolation

namespace Py

/-- `os.path.join(a, b)`. -/
def pathJoin (a b : String) : String :=
  if b.toList.head? = some '/' then b
  else if a = "" ∨ a.toList.getLast? = some '/' then a ++ b
  else a ++ "/" ++ b

/-- The names of an absolute path, without `.` and `..`. -/
def normNames (names : List (List Char)) : List (List Char) :=
  names.foldl (fun done name =>
    if name = [] ∨ name = ['.'] then done
    else if name = ['.', '.'] then done.dropLast
    else done ++ [name]) []

/-- `os.path.normpath` of an absolute path: two slashes at its start are kept. -/
def normPath (path : String) : String :=
  let root := if path.toList.takeWhile (· = '/') = ['/', '/'] then ['/', '/'] else ['/']
  .ofList (root ++ ['/'].intercalate (normNames (path.toList.splitOn '/')))

/-- `os.path.abspath`. -/
def abspath (cwd path : String) : String := normPath (pathJoin cwd path)

/-- `struct.unpack_from(">I", data, offset)`. -/
def unpackBigEndian (data : Bytes) (offset : Nat) : Int := leValue (slice data offset 4).reverse

/-- `f"{value:08x}"`. -/
def format08x (value : Int) : String :=
  let minus := if value < 0 then ['-'] else []
  let digits := Nat.toDigits 16 value.natAbs
  .ofList (minus ++ List.replicate (8 - minus.length - digits.length) '0' ++ digits)

end Py

/-- What is read of a `lief.ELF.Binary`. -/
structure LiefHeader where
  dynamicEntries : List LiefDynamicEntry
  /-- `int(b.header.machine_type)` -/
  machineType : Int

/-- A connection for reading. -/
structure SelfReader where
  /-- PRAGMA application_id -/
  applicationId : Except PyError Int
  /-- SELECT key, value FROM self_meta -/
  selfMeta : Except PyError (String → Option Value)
  /-- The tables of `load_image`. -/
  database : Except PyError Database

/-- The files while a scan runs. -/
structure Disk where
  cwd : String
  isFile : String → Bool
  /-- `os.walk`: each directory with the names of its files. -/
  walk : String → List (String × List String)
  /-- `open(path, "rb").read(72)` -/
  head : String → Except PyError Bytes
  /-- `sqlite3.connect(uri, uri=True)` -/
  connect : String → Except PyError SelfReader
  /-- `lief.ELF.parse` -/
  lief : String → Except PyError (Option LiefHeader)

/-! `_sniff`. -/

/-- The values that `_sniff` returns, as the columns of `objects` store them. -/
structure Sniffed where
  kind : ProviderKind
  soname : Option String
  machine : Option String
  buildId : Option String
  deriving DecidableEq

/-- What a column of type TEXT stores. A BLOB is stored as it is: like NULL, it equals no text. -/
def Value.stored : Value → Option String
  | .blob _ => none
  | value => value.columnText

/-- `open_self`. -/
def openSelf (disk : Disk) (path : String) : Except PyError SelfReader := do
  let con ← disk.connect ("file:" ++ path ++ "?mode=ro")
  let appId ← con.applicationId
  Py.raiseIf (appId ≠ applicationId)
    (.valueError (path ++ ": application_id 0x" ++ Py.format08x appId ++ " is not 'SELF'"))
  return con

/-- The last SONAME entry. -/
def lastSoname (entries : List LiefDynamicEntry) : Except PyError (Option String) :=
  entries.foldlM (fun soname ent =>
    if "SONAME".toList.isSuffixOf ent.tag.toList then (orRaise .attributeError ent.name).map some
    else .ok soname) none

def sniff (disk : Disk) (path : String) : Except PyError (Option Sniffed) := do
  let head ← disk.head path
  if 72 ≤ head.length ∧ head.take 16 = sqliteMagic then
    if Py.unpackBigEndian head 68 ≠ applicationId then return none
    let con ← openSelf disk path
    let selfMeta ← con.selfMeta
    let column (key : String) : Option String := (selfMeta key).bind Value.stored
    return some ⟨.self, column "soname", column "machine", column "build_id"⟩
  else if head.take 4 = elfMagic then
    match ← disk.lief path with
    | none => return none
    | some b =>
      let soname ← lastSoname b.dynamicEntries
      return some ⟨.elf, soname, some (machineName b.machineType), none⟩
  else return none

/-! `cmd_scan`. -/

/-- The files that are listed for one root. -/
def rootEntries (disk : Disk) (root : String) : List String :=
  if disk.isFile root then [root] else (disk.walk root).flatMap fun dir =>
    dir.2.map (Py.pathJoin dir.1)

namespace ResolverDb

def empty : ResolverDb := ⟨.empty, List.nodup_nil⟩

/-- `DO UPDATE SET ...` of the row with the path. -/
def updateRow (path : String) (info : Sniffed) (row : ProviderRow) : ProviderRow :=
  if row.path = path then
    { row with soname := info.soname, machine := info.machine, buildId := info.buildId, kind :=
      info.kind }
  else row

@[simp] theorem updateRow_id (path : String) (info : Sniffed) (row : ProviderRow) :
    (updateRow path info row).id = row.id := by
  rw [updateRow]
  split <;> rfl

@[simp] theorem updateRow_path (path : String) (info : Sniffed) (row : ProviderRow) :
    (updateRow path info row).path = row.path := by
  rw [updateRow]
  split <;> rfl

/-- `INSERT INTO objects ... ON CONFLICT(path) DO UPDATE`. -/
def upsert (rdb : ResolverDb) (path : String) (info : Sniffed) : ResolverDb :=
  if known : path ∈ rdb.objects.rows.map (·.path) then {
    objects := rdb.objects.map (updateRow path info) (updateRow_id path info)
    uniquePaths := by
      simpa only [Table.map, List.map_map, Function.comp_def, updateRow_path] using
        rdb.uniquePaths }
  else {
    objects := rdb.objects.insert (fun id =>
      ⟨id, path, info.soname, info.machine, info.buildId, info.kind⟩) fun _ => rfl
    uniquePaths := by
      rw [Table.insert, List.map_append, List.map_singleton]
      refine List.nodup_append.mpr ⟨rdb.uniquePaths, List.nodup_singleton _,
        fun other member new last same => ?_⟩
      rw [same, List.mem_singleton.mp last] at member
      exact known member }

end ResolverDb

/-- One call of `cmd_scan`. -/
structure Scan where
  disk : Disk
  paths : List String
  /-- What SQLite raises until the commit is done. -/
  commit : Except PyError Unit
  close : Except PyError Unit

namespace Scan

def entries (scan : Scan) : List String := scan.paths.flatMap (rootEntries scan.disk)

/-- One iteration of the inner loop, with the count; an exception of `_sniff` is skipped. -/
def record (scan : Scan) (state : ResolverDb × Nat) (path : String) : ResolverDb × Nat :=
  match sniff scan.disk path with
  | .ok (some info) => (state.1.upsert (Py.abspath scan.disk.cwd path) info, state.2 + 1)
  | _ => state

end Scan

/-- `cmd_scan`, which prints the count. The state is what has been committed to the database. -/
def cmdScan (scan : Scan) : Attempt PyError ResolverDb Nat := do
  let rdb ← get
  let (rdb, count) := scan.entries.foldl scan.record (rdb, 0)
  Attempt.callLeaving scan.commit rdb
  Attempt.call scan.close
  return count

/-- The database after some scans into it. -/
def scans (rdb : ResolverDb) (history : List Scan) : ResolverDb :=
  history.foldl (fun rdb scan => ((cmdScan scan).run.run rdb).2) rdb

end SelfDb
