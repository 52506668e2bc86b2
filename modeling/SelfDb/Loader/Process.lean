import SelfDb.Loader.Image
import SelfDb.Paging.Memory

/-! What `native.c` and `selfld.c` share: the answers of the kernel and of the
allocator, the ways a loader stops, and the copies into mapped memory. The
memory of the loader itself is not part of the modelled address space. -/
namespace SelfDb
open Paging

/-- `reserve` answers an `mmap` without address, `grants` one with MAP_FIXED.
The kernel refuses a zero length before either is asked. -/
structure Os where
  reserve : Memory → Nat → Option Nat
  grants : Memory → Nat → Nat → Bool
  protects : Memory → Nat → Nat → Bool
  malloc : Nat → Bool

/-- The calls of `die`. -/
inductive Die where
  | missingKey (key : MetaKey)
  | machine (em : Int)
  | reserveSpan
  | mapSegment
  | protectSegment
  | cannotOpen (path : String)
  | cannotResolve (soname : String)
  | unresolved (name : Option String)
  | unhandled (rtype : Int)
  | openInterp (path : String)
  | mapInterp
  | notInterp (path : String)
  | mapStack
  deriving DecidableEq

/-- A run that does not go on: `die`, or an access outside every object. -/
inductive Stop where
  | die (why : Die)
  | fault
  deriving DecidableEq

abbrev Run := Except Stop

def selfMetaInt (conn : Connection) (key : MetaKey) : Run Int :=
  match selfGetInt conn key with
  | some value => .ok value
  | none => .error (.die (.missingKey key))

/-- `sqlite3_column_int`: the low 32 bits. -/
def columnInt (value : Int) : Int := Int.bmod value (2 ^ 32)

def protOf (r w x : Int) : Prot := ⟨columnInt r ≠ 0, columnInt w ≠ 0, columnInt x ≠ 0⟩

/-- `mmap(NULL, len, PROT_NONE, MAP_PRIVATE | MAP_ANONYMOUS, -1, 0)`. -/
def mmapAnywhere (os : Os) (mem : Memory) (length : Nat) : Option (Nat × Memory) :=
  if length = 0 then none
  else (os.reserve mem length).map fun base => (base, mem.mapAnonymous base length .noAccess)

/-- `mmap` of writable anonymous pages with MAP_FIXED. -/
def mmapFixed (os : Os) (mem : Memory) (start length : Nat) : Option Memory :=
  if length = 0 then none
  else if os.grants mem start length then some (mem.mapAnonymous start length .readWrite) else none

/-- `mmap` of a stack: writable anonymous pages where the kernel chooses. -/
def mapStack (os : Os) (length : Nat) (mem : Memory) : Run Memory :=
  match os.reserve mem length with
  | some base => .ok (mem.mapAnonymous base length .readWrite)
  | none => .error (.die .mapStack)

def mprotect (os : Os) (mem : Memory) (start length : Nat) (prot : Prot) : Option Memory :=
  if os.protects mem start length then some (mem.protect start length prot) else none

def memcpy (mem : Memory) (dest : Nat) (src : Bytes) (count : Nat) : Run Memory :=
  if count ≤ src.length ∧ ∀ k < count, mem.Writable (wrap (dest + k)) then
    .ok (mem.copy dest (src.take count))
  else .error .fault

/-- `if (blob && blen) { buf = malloc(blen); memcpy(buf, blob, blen); }`. -/
def copyBlob (os : Os) (content : Option Bytes) : Run (Option Bytes) :=
  if content.getD [] = [] then .ok none
  else if os.malloc (content.getD []).length then .ok content else .error .fault

def orDie (why : Die) : Option α → Run α
  | some a => .ok a
  | none => .error (.die why)

/-- The bounds pass: the smallest `vaddr` and the largest end, in `uint64_t`. -/
def boundsLoop : List (Int × Int) → Nat × Nat → Nat × Nat
  | [], bounds => bounds
  | (vaddr, memsz) :: rest, (low, high) =>
    let v := sizeT vaddr
    let last := wrap (v + sizeT memsz)
    boundsLoop rest (if v < low then v else low, if last > high then last else high)

end SelfDb
