import SelfDb.Selfconv.Scan
import SelfDb.Sqlite.Uri

/-! `open_self` puts the path into a URI. Whether the database it opens is in the
file that was asked for. -/
namespace SelfDb
open Binary

/-- What a path is for the system. -/
def fsencode (path : String) : Bytes := path.toList.flatMap String.utf8EncodeChar

structure DiskFile where
  /-- `read(72)` -/
  head : Bytes
  /-- What SQLite finds in it. -/
  reader : SelfReader

def memoryName : Bytes := fsencode ":memory:"

def modeRo : Bytes := fsencode "mode=ro"

/-- The files by name, and SQLite, which opens a name with parameters. -/
structure FileTree where
  file : Bytes → Except PyError DiskFile
  openFile : Bytes → Bytes → Except PyError SelfReader
  /-- A slash may be repeated. -/
  slashes : ∀ rest, file ('/'.toUInt8 :: '/'.toUInt8 :: rest) = file ('/'.toUInt8 :: rest)
  named : ∀ name found, file name = .ok found → name ≠ [] ∧ 0 ∉ name
  readOnly : ∀ name found, name ≠ memoryName → file name = .ok found →
    openFile name modeRo = .ok found.reader

/-- `sqlite3.connect(uri, uri=True)`. -/
def FileTree.connect (tree : FileTree) (uri : String) : Except PyError SelfReader :=
  if 0 ∈ fsencode uri then .error (.valueError "embedded null character")
  else if (fsencode "file:").isPrefixOf (fsencode uri) then
    match SqliteUri.parse ((fsencode uri).drop 5) with
    | some (name, parameters) => tree.openFile name parameters
    | none => .error .operationalError
  else tree.openFile (fsencode uri) []

structure Disk.On (disk : Disk) (tree : FileTree) : Prop where
  head : ∀ path, disk.head path = (tree.file (fsencode path)).map DiskFile.head
  connect : ∀ uri, disk.connect uri = tree.connect uri

/-- The check of `open_self`. -/
def acceptSelf (path : String) (con : SelfReader) : Except PyError SelfReader := do
  let appId ← con.applicationId
  Py.raiseIf (appId ≠ applicationId)
    (.valueError (path ++ ": application_id 0x" ++ Py.format08x appId ++ " is not 'SELF'"))
  return con

/-- `self2elf.convert`: the bytes of the output file. -/
def self2elfPath (memory : Nat → Bool) (disk : Disk) (path : String) : Except PyError Bytes := do
  let con ← openSelf disk path
  let db ← con.database
  self2elf memory db

/-- The columns of a row of the kind 'self'. -/
def selfColumns (selfMeta : String → Option Value) : Sniffed :=
  let column (key : String) : Option String := (selfMeta key).bind Value.stored
  ⟨.self, column "soname", column "machine", column "build_id"⟩

/-- Whatever is done with a path is done with the file at that path. -/
structure OneFile (disk : Disk) (path : String) (file : DiskFile) : Prop where
  opened : openSelf disk path = acceptSelf path file.reader
  recorded : ∀ scan : Scan, scan.disk = disk → file.head.take 16 = sqliteMagic → ∀ state,
    scan.record state path = state ∨ ∃ selfMeta, file.reader.selfMeta = .ok selfMeta ∧
      scan.record state path = (state.1.upsert (Py.abspath disk.cwd path) (selfColumns selfMeta),
        state.2 + 1)
  converted : ∀ memory, self2elfPath memory disk path = (do
    let con ← acceptSelf path file.reader
    let db ← con.database
    self2elf memory db)

/-- No part of the path has a meaning of its own for SQLite. -/
structure UriPath (path : Bytes) : Prop where
  plain : SqliteUri.Plain path
  authority : ∀ rest, path = SqliteUri.slashes ++ rest → rest.head? = some '/'.toUInt8
  memory : path ≠ memoryName

theorem openSelf_eq (disk : Disk) (path : String) :
    openSelf disk path = disk.connect ("file:" ++ path ++ "?mode=ro") >>= acceptSelf path := rfl

theorem fsencode_append (first second : String) :
    fsencode (first ++ second) = fsencode first ++ fsencode second := by
  rw [fsencode, String.toList_append, List.flatMap_append]
  rfl

theorem fsencode_uri (path : String) :
    fsencode ("file:" ++ path ++ "?mode=ro") = fsencode "file:" ++
      (fsencode path ++ '?'.toUInt8 :: modeRo) := by
  rw [fsencode_append, fsencode_append, List.append_assoc]
  rfl

/-- What is opened for a path. -/
theorem connect_uri {tree : FileTree} {path : String} (plain : 0 ∉ fsencode path) :
    tree.connect ("file:" ++ path ++ "?mode=ro") =
      match SqliteUri.parse (fsencode path ++ '?'.toUInt8 :: modeRo) with
      | some (name, parameters) => tree.openFile name parameters
      | none => .error .operationalError := by
  have scheme : (0 : UInt8) ∉ fsencode "file:" := by decide
  have parameters : (0 : UInt8) ∉ '?'.toUInt8 :: modeRo := by decide
  have whole : (0 : UInt8) ∉ fsencode "file:" ++ (fsencode path ++ '?'.toUInt8 :: modeRo) := by
    simp only [List.mem_append, not_or]
    exact ⟨scheme, plain, parameters⟩
  rw [FileTree.connect, fsencode_uri, if_neg whole,
    if_pos (List.isPrefixOf_iff_prefix.mpr (List.prefix_append _ _))]
  rfl

/-! A path without a meaning of its own. -/

theorem FileTree.openFile_path {tree : FileTree} {path : Bytes} (uri : UriPath path)
    (present : tree.file path = .ok found) :
    (match SqliteUri.parse (path ++ '?'.toUInt8 :: modeRo) with
      | some (name, parameters) => tree.openFile name parameters
      | none => .error .operationalError) = .ok found.reader := by
  have ro : modeRo.takeWhile (· ≠ '#'.toUInt8) = modeRo := by decide
  by_cases double : SqliteUri.slashes.isPrefixOf path
  · obtain ⟨rest, rfl⟩ := List.isPrefixOf_iff_prefix.mp double
    obtain ⟨after, rfl⟩ : ∃ after, rest = '/'.toUInt8 :: after :=
      List.head?_eq_some_iff.mp (uri.authority rest rfl)
    have plain : SqliteUri.Plain ('/'.toUInt8 :: after) := uri.plain.tail.tail
    have single : tree.file ('/'.toUInt8 :: after) = .ok found := by
      rw [← present, ← tree.slashes, ← tree.slashes]
      rfl
    have other : '/'.toUInt8 :: after ≠ memoryName := fun memory =>
      absurd (congrArg List.head? memory) (by rw [List.head?_cons]; decide)
    have split := SqliteUri.parse_slashes (List.forall_mem_nil _) (after ++ '?'.toUInt8 :: modeRo)
    have name := SqliteUri.nameFrom_plain plain modeRo
    have parameters := SqliteUri.query_plain plain modeRo
    rw [List.cons_append] at name parameters
    rw [List.nil_append, if_pos (by decide), name, parameters, ro] at split
    rw [List.append_assoc, List.cons_append, split]
    exact tree.readOnly _ _ other single
  · rw [SqliteUri.parse_open double, SqliteUri.nameFrom_plain uri.plain,
      SqliteUri.query_plain uri.plain, ro]
    exact tree.readOnly _ _ uri.memory present

/-- Everything that is done with a path comes from what `open_self` opens. -/
theorem oneFile_of_opened {disk : Disk} (head : disk.head path = .ok file.head)
    (opened : openSelf disk path = acceptSelf path file.reader) : OneFile disk path file where
  opened
  recorded scan same magic state := by
    subst same
    have other : file.head.take 4 ≠ elfMagic := by
      rw [show (4 : Nat) = min 4 16 from rfl, ← List.take_take, magic]
      decide
    cases answer : sniff scan.disk path with
    | error e => exact .inl (by rw [Scan.record, answer])
    | ok info =>
      cases info with
      | none => exact .inl (by rw [Scan.record, answer])
      | some info =>
        refine .inr ?_
        rw [Scan.record, answer]
        rw [sniff, head, ok_bind, opened] at answer
        split at answer
        · split at answer
          · cases answer
          · obtain ⟨con, accepted, answer⟩ := bind_eq_ok_iff.mp answer
            obtain ⟨selfMeta, selected, columns⟩ := bind_eq_ok_iff.mp answer
            cases columns
            obtain ⟨appId, -, accepted⟩ := bind_eq_ok_iff.mp accepted
            obtain ⟨_, -, same⟩ := bind_eq_ok_iff.mp accepted
            cases same
            exact ⟨selfMeta, selected, rfl⟩
        · cases answer
  converted memory := by rw [self2elfPath, opened]

theorem oneFile_of_uriPath {disk : Disk} (on : disk.On tree)
    (present : tree.file (fsencode path) = .ok file)
    (uri : UriPath (fsencode path)) : OneFile disk path file := by
  refine oneFile_of_opened (by rw [on.head, present]; rfl) ?_
  rw [openSelf_eq, on.connect, connect_uri (tree.named _ _ present).2,
    FileTree.openFile_path uri present]
  rfl

/-! Any other path. -/

section Trees
variable (files : Bytes → Option DiskFile)

/-- The files are given by their names with one slash at the beginning, and SQLite
opens whatever name it is given. -/
def fileOf (name : Bytes) : Except PyError DiskFile :=
  if name ≠ [] ∧ 0 ∉ name then orRaise .osError (files (SqliteUri.collapse name))
    else .error .osError

def treeOf : FileTree where
  file := fileOf files
  openFile name _ :=
    if name = memoryName then .error .operationalError else (fileOf files name).map DiskFile.reader
  slashes rest := by
    rw [fileOf, fileOf, SqliteUri.collapse_slash, SqliteUri.collapse_slash,
      List.dropWhile_cons_of_pos (by decide)]
    simp
  named name found present := by
    rw [fileOf] at present
    split at present
    · next named => exact named
    · cases present
  readOnly name found other present := by rw [if_neg other, present]; rfl

def diskOf : Disk where
  cwd := "/"
  isFile _ := true
  walk _ := []
  head name := (fileOf files (fsencode name)).map DiskFile.head
  connect := (treeOf files).connect
  lief _ := .error .osError

theorem diskOf_on : (diskOf files).On (treeOf files) := ⟨fun _ => rfl, fun _ => rfl⟩

end Trees

/-- A file that `open_self` accepts. -/
def acceptedFile : DiskFile where
  head := []
  reader := ⟨.ok applicationId, .error .operationalError, .error .operationalError⟩

def loneFile (path name : Bytes) : Option DiskFile :=
  if name = SqliteUri.collapse path then some acceptedFile else none

theorem openSelf_lone {path : String} (plain : 0 ∉ fsencode path)
    (special : ¬ UriPath (fsencode path)) :
    ∀ con, openSelf (diskOf (loneFile (fsencode path))) path ≠ .ok con := by
  intro con opened
  obtain ⟨found, connected, -⟩ := bind_eq_ok_iff.mp opened
  change (treeOf (loneFile (fsencode path))).connect _ = _ at connected
  rw [connect_uri plain] at connected
  split at connected
  · next name parameters parsed =>
    change (if name = memoryName then _ else (fileOf _ name).map _) = _ at connected
    split at connected
    · cases connected
    · next memory =>
      obtain ⟨file, present, -⟩ := map_eq_ok_iff.mp connected
      rw [fileOf] at present
      split at present
      · rw [orRaise_eq_ok_iff, loneFile, Option.ite_none_right_eq_some] at present
        by_cases ordinary : SqliteUri.Plain (fsencode path) ∧
            ∀ rest, fsencode path = SqliteUri.slashes ++ rest → rest.head? = some '/'.toUInt8
        · refine special ⟨ordinary.1, ordinary.2, fun private_ => memory ?_⟩
          have itself : SqliteUri.parse (memoryName ++ '?'.toUInt8 :: modeRo) =
              some (memoryName, modeRo) := by decide
          rw [private_, itself] at parsed
          cases parsed
          rfl
        · exact absurd (congrArg List.length present.1)
            (SqliteUri.collapse_parse parsed ordinary).ne
      · cases present
  · cases connected

/-- `open_self` opens the file at the path it is given, whatever the files are. -/
theorem openSelf_oneFile_iff (path : String) :
    (∀ disk tree file, Disk.On disk tree → tree.file (fsencode path) = .ok file →
      OneFile disk path file) ↔
      0 ∈ fsencode path ∨ UriPath (fsencode path) := by
  constructor
  · intro one
    by_contra outside
    rw [not_or] at outside
    have nonempty : fsencode path ≠ [] := by
      intro empty
      rw [empty] at outside
      exact outside.2 ⟨⟨List.not_mem_nil, List.not_mem_nil,
        fun before c rest split => by simp at split⟩, nofun, by decide⟩
    have present : (treeOf (loneFile (fsencode path))).file (fsencode path) = .ok acceptedFile := by
      change fileOf _ _ = _
      rw [fileOf, if_pos ⟨nonempty, outside.1⟩, loneFile, if_pos rfl]
      rfl
    exact openSelf_lone outside.1 outside.2 _ (one _ _ _ (diskOf_on _) present).opened
  · rintro (nul | uri) disk tree file on present
    · exact absurd nul (tree.named _ _ present).2
    · exact oneFile_of_uriPath on present uri

/-- A SELF database with a soname. -/
def selfFile (soname : String) : DiskFile where
  head := sqliteMagic ++ List.replicate 52 0 ++ [83, 69, 76, 70]
  reader := ⟨.ok applicationId, .ok fun key => if key = "soname" then some (.text soname) else none,
    .error .operationalError⟩

def escapedFiles (name : Bytes) : Option DiskFile :=
  if name = fsencode "/l/%41" then some (selfFile "one.so")
  else if name = fsencode "/l/A" then some (selfFile "other.so")
  else none

/-- The row for `/l/%41` has the columns of `/l/A`. -/
theorem scan_escaped_records_other :
    (treeOf escapedFiles).file (fsencode "/l/%41") = .ok (selfFile "one.so") ∧
    sniff (diskOf escapedFiles) "/l/%41" = .ok (some ⟨.self, some "other.so", none, none⟩) ∧
    ¬ OneFile (diskOf escapedFiles) "/l/%41" (selfFile "one.so") := by
  refine ⟨rfl, rfl, fun one => ?_⟩
  have opened : Except.ok (selfFile "other.so").reader =
      acceptSelf "/l/%41" (selfFile "one.so").reader := one.opened
  have same := congrArg (fun con => con.selfMeta.map (· "soname")) (Except.ok.inj opened)
  exact absurd same (by decide)

end SelfDb
