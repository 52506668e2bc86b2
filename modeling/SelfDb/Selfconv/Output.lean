import SelfDb.Isolation.Atomicity
import SelfDb.Selfconv.Closure
import SelfDb.Selfconv.Link

/-! What `elf2self.convert` and `build_closure` do to the file at the output path. The
old file is removed first, the script commits each of its statements, and the rows
are in one transaction, which an exception rolls back. -/
namespace SelfDb
open Isolation

/-- What `schema.SCHEMA_SQL` creates, in order. -/
def schemaSql : List String :=
  ["self_meta", "segments", "needed", "dynamic_entries", "symbols", "idx_symbols_name",
    "relocations", "sections", "notes", "docs", "exports", "imports", "ldd"]

/-- What `CLOSURE_SCHEMA` creates. -/
def closureSchema : List String :=
  ["objects", "needs", "segments", "symbols", "idx_sym_name", "idx_needs_obj", "ldd", "exports",
    "imports"]

/-- `APPLICATION_ID`, which is 'SELF'. -/
def applicationId : Int := 0x53454C46

def formatVersion : Int := 1

/-- What has been committed to a database file. -/
structure Committed (ρ : Type) where
  created : List String
  applicationId : Int
  userVersion : Int
  rows : Option ρ
  vacuumed : Bool

namespace Committed

/-- The script has got so far; a new connection is at its start. -/
def scripted (created : List String) : Committed ρ := ⟨created, 0, 0, none, false⟩

def stamped (script : List String) : Committed ρ := ⟨script, SelfDb.applicationId, 0, none, false⟩

/-- Everything but the rows. -/
def identified (script : List String) : Committed ρ :=
  ⟨script, SelfDb.applicationId, formatVersion, none, false⟩

def filled (script : List String) (rows : ρ) (vacuumed : Bool) : Committed ρ :=
  ⟨script, SelfDb.applicationId, formatVersion, some rows, vacuumed⟩

end Committed

/-- What each call raises. `insert` is what LIEF or SQLite raises between the first
INSERT and the commit, apart from the values that SQLite refuses. -/
structure DatabaseCalls where
  remove : Except PyError Unit
  connect : Except PyError Unit
  pageSize : Except PyError Unit
  create : String → Except PyError Unit
  applicationId : Except PyError Unit
  userVersion : Except PyError Unit
  insert : Except PyError Unit
  commit : Except PyError Unit
  vacuum : Except PyError Unit
  close : Except PyError Unit

/-- The state is the file at the output path. -/
abbrev Writing := Attempt PyError (Option Bytes)

section
open Attempt
variable (image : Committed ρ → Bytes) (calls : DatabaseCalls)

/-- `if os.path.exists(out): os.remove(out)`. -/
def removeOld : Writing Unit := do
  let old ← get
  if old.isSome then callLeaving calls.remove none else pure ()

/-- From `os.path.exists` to `PRAGMA user_version`. -/
def freshDatabase (script : List String) : Writing Unit := do
  removeOld calls
  callLeaving calls.connect (some (image (.scripted [])))
  call calls.pageSize
  each calls.create (fun created => some (image (.scripted created))) [] script
  callLeaving calls.applicationId (some (image (.stamped script)))
  callLeaving calls.userVersion (some (image (.identified script)))

/-- The rows, the commit, the VACUUM, and the calls after it. -/
def writeRows (script : List String) (rows : Except PyError α) (stored : α → ρ)
    (last : Except PyError Unit) :
    Writing α := do
  let result ← call (calls.insert >>= fun _ => rows)
  callLeaving calls.commit (some (image (.filled script (stored result) false)))
  callLeaving calls.vacuum (some (image (.filled script (stored result) true)))
  call last
  return result

/-- Both, and what is returned. -/
def writeDatabase (script : List String) (rows : Except PyError α) (stored : α → ρ)
    (last : Except PyError Unit) (view : α → β) : Writing β := do
  freshDatabase image calls script
  let result ← writeRows image calls script rows stored last
  return view result

end

/-! `elf2self.convert`. -/

/-- What is known of the ELF file. -/
structure ElfSource where
  importLief : Except PyError Unit
  /-- `open(elf_path, "rb").read()` -/
  data : Except PyError Bytes
  /-- `lief.ELF.parse(elf_path)` -/
  lief : Except PyError (Option LiefBinary)
  /-- `os.access`, and `os.stat` and `os.chmod` for an executable. -/
  chmod : Except PyError Unit

/-- What `convert` reads and checks before it looks at the output path. -/
def ElfSource.read (source : ElfSource) : Except PyError (Bytes × LiefBinary) := do
  source.importLief
  let data ← source.data
  let _ ← parseImage data
  let b ← source.lief
  let b ← orRaise (.valueError "LIEF failed to parse") b
  return (data, b)

/-- `elf2self.convert`. -/
def convertFile (image : Committed SelfFile → Bytes) (calls : DatabaseCalls) (source : ElfSource)
    (withSections : Bool) : Writing Unit := do
  let (data, b) ← Attempt.call source.read
  writeDatabase image calls schemaSql (elf2self (some b) withSections data) id
    (calls.close >>= fun _ => source.chmod) fun _ => ()

/-! `build_closure`. -/

/-- `build_closure`. `start` is what `import lief` or `os.path.realpath` raises, and
`counts` what the SELECT statements after the VACUUM raise. The host is asked once
the old file is gone. -/
def closureFile (image : Committed Closure → Bytes) (calls : DatabaseCalls)
    (start counts : Except PyError Unit)
    (host : Host) (roots : List String) (withSegments : Bool) : Writing ClosureStats := do
  Attempt.call start
  writeDatabase image calls closureSchema (buildClosure host roots withSegments) Prod.fst
    (counts >>= fun _ => calls.close) Prod.snd

end SelfDb
