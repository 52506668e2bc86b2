import SelfDb.Loader.Native

/-! `loader/selfld.c`: the objects of a program are mapped, their exports go
into one table, and every relocation is bound before the program starts. -/
namespace SelfDb
open Paging Binary

def r64 : Int := 1
def rGlobDat : Int := 6
def rJumpSlot : Int := 7
def rRelative : Int := 8

/-- `struct sym`; the list is linked by `next`. -/
structure Sym where
  name : String
  addr : Nat
  deriving DecidableEq

/-- A NULL from `malloc` or `strdup` is written through or compared. -/
def exportAdd (os : Os) (name : String) (addr : Nat) (syms : List Sym) : Run (List Sym) :=
  if os.malloc 24 ∧ os.malloc (name.utf8ByteSize + 1) then .ok (⟨name, addr⟩ :: syms)
  else .error .fault

def exportFind : List Sym → String → Nat
  | [], _ => 0
  | s :: next, name => if s.name = name then s.addr else exportFind next name

/-- `struct object` of this loader. -/
structure SelfObject where
  conn : Connection
  loadBias : Nat
  entry : Nat

/-- The resolver database: the paths of a soname, and the `preload` table. -/
structure Resolver where
  objectPath : String → Query String
  preload : Query String

/-- What a run finds outside: `SELF_SYSTEM_DB` if it is set, and the files that
`self_db_open` accepts. A NULL path is one that no file has. -/
structure World where
  os : Os
  files : String → Option Connection
  resolver : Option Resolver

/-- The address space and `g_syms`. -/
structure Linking where
  memory : Memory
  syms : List Sym

/-- `if (buf) memcpy(dest, buf, filesz)`. -/
def copyBuf (mem : Memory) (dest : Nat) (buf : Option Bytes) (filesz : Nat) : Run Memory :=
  match buf with
  | some bytes => memcpy mem dest bytes filesz
  | none => .ok mem

/-- One step of the mapping loop; the result of `mprotect` is not looked at. -/
def mapObjectRow (os : Os) (bias : Nat) (R : SegmentRow) (mem : Memory) : Run Memory := do
  let buf ← copyBlob os R.content
  let start := alignDown (wrap (bias + sizeT R.vaddr))
  let stop := alignUp (wrap (wrap (bias + sizeT R.vaddr) + sizeT R.memsz))
  let mem ← orDie .mapSegment (mmapFixed os mem start (sub64 stop start))
  let mem ← copyBuf mem (wrap (bias + sizeT R.vaddr)) buf (sizeT R.filesz)
  let prot : Prot := ⟨columnInt R.r.columnInt64 ≠ 0, true, columnInt R.x.columnInt64 ≠ 0⟩
  return (mprotect os mem start (sub64 stop start) prot).getD mem

def exportLoop (os : Os) (bias : Nat) : List (String × Int) → List Sym → Run (List Sym)
  | [], syms => .ok syms
  | (name, value) :: rest, syms =>
    if name = "" then exportLoop os bias rest syms
    else do
      let syms ← exportAdd os name (wrap (bias + sizeT value)) syms
      exportLoop os bias rest syms

/-- `map_object`; `slot` is the first write through `obj`. -/
def mapObject (world : World) (path : String) (slot : Run Unit) (state : Linking) :
    Run (SelfObject × Linking) := do
  let conn ← orDie (.cannotOpen path) (world.files path)
  slot
  let entry := selfGetInt conn .entry
  let (minVaddr, maxVaddr) := boundsLoop conn.loadBounds.rows (2 ^ 64 - 1, 0)
  let (bias, mem) ← reserveSpan world.os minVaddr maxVaddr true state.memory
  let mem ← conn.loadSegments.rows.foldlM (fun mem R => mapObjectRow world.os bias R mem) mem
  let syms ← exportLoop world.os bias conn.exports.rows state.syms
  return (⟨conn, bias, (entry.map fun value => wrap (bias + sizeT value)).getD 0⟩, ⟨mem, syms⟩)

/-- The value of a relocation, the `switch` of `relocate`. -/
def relocValue (syms : List Sym) (bias : Nat) (r : BoundRelocation) : Run Nat :=
  let rtype := columnInt r.rtype
  if rtype = rRelative then .ok (wrap (bias + sizeT r.addend))
  else if rtype = rGlobDat ∨ rtype = rJumpSlot ∨ rtype = r64 then
    let s := match r.name with
      | some name => exportFind syms name
      | none => 0
    if s = 0 then .error (.die (.unresolved r.name))
    else .ok (wrap (s + if rtype = rJumpSlot then 0 else sizeT r.addend))
  else .error (.die (.unhandled rtype))

def relocateRow (syms : List Sym) (bias : Nat) (mem : Memory) (r : BoundRelocation) :
    Run Memory := do
  let value ← relocValue syms bias r
  memcpy mem (wrap (bias + sizeT r.offset)) (leBytes 8 value) 8

def relocate (syms : List Sym) (mem : Memory) (obj : SelfObject) : Run Memory :=
  obj.conn.relocations.rows.foldlM (relocateRow syms obj.loadBias) mem

/-- The size of `libs`. -/
def maxLibs : Nat := 32

def libSlot (nlibs : Nat) : Run Unit := if nlibs < maxLibs then .ok () else .error .fault

/-- The loop over NEEDED names and the one over preload rows: each maps the
object at the path of its row into the next slot of `libs`. -/
def libsLoop (world : World) (pathOf : String → Run String) :
    List String → List SelfObject → Linking → Run (List SelfObject × Linking)
  | [], libs, state => .ok (libs, state)
  | row :: rest, libs, state => do
    let path ← pathOf row
    let (lib, state) ← mapObject world path (libSlot libs.length) state
    libsLoop world pathOf rest (libs ++ [lib]) state

/-- `SELECT path FROM objects WHERE soname=? LIMIT 1`. -/
def resolveNeeded (world : World) (soname : String) : Run String :=
  orDie (.cannotResolve soname) (world.resolver.bind fun rdb => (rdb.objectPath soname).rows.head?)

def preloadPaths (world : World) : List String :=
  (world.resolver.map fun rdb => rdb.preload.rows).getD []

/-- What is left when all objects are relocated. -/
structure Linked where
  main : SelfObject
  libs : List SelfObject
  syms : List Sym
  memory : Memory

/-- `run_selfld` up to the initial stack. -/
def runSelfld (world : World) (maindb : Connection) (path : String) (mem : Memory) :
    Run Linked := do
  let em ← selfMetaInt maindb .em
  orDie (.machine em) (if em = emX86_64 then some () else none)
  let (main, state) ← mapObject world path (.ok ()) ⟨mem, []⟩
  let (libs, state) ← libsLoop world (resolveNeeded world) main.conn.needed.rows [] state
  let (libs, state) ← libsLoop world .ok (preloadPaths world) libs state
  let mem ← libs.foldlM (relocate state.syms) state.memory
  let mem ← relocate state.syms mem main
  return ⟨main, libs, state.syms, mem⟩

/-- `1 << 20`. -/
def selfldStackSize : Nat := 2 ^ 20

/-- `run_selfld` up to the jump; `build_stack` only stores into the stack. -/
def enterSelfld (world : World) (maindb : Connection) (path : String) (mem : Memory) :
    Run (Linked × Memory) := do
  let out ← runSelfld world maindb path mem
  let mem ← mapStack world.os selfldStackSize out.memory
  return (out, mem)

end SelfDb
