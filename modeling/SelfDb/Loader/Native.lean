import SelfDb.Loader.Process

/-! `map_program` of `loader/native.c`: the program is mapped from its rows. -/
namespace SelfDb
open Paging

/-- `struct object`. -/
structure NativeObject where
  loadBias : Nat
  entry : Nat
  phdr : Nat
  phnum : Int
  phent : Int

/-- `if (filesz && src) memcpy(dest, src, filesz)`. -/
def copySegment (mem : Memory) (dest : Nat) (src : Option Bytes) (filesz : Nat) : Run Memory :=
  match src with
  | some bytes => if filesz ≠ 0 then memcpy mem dest bytes filesz else .ok mem
  | none => .ok mem

def mapSegment (os : Os) (loadBias vaddr filesz memsz : Nat) (src : Option Bytes) (prot : Prot)
    (mem : Memory) : Run Memory := do
  let start := alignDown (wrap (loadBias + vaddr))
  let stop := alignUp (wrap (wrap (loadBias + vaddr) + memsz))
  let mem ← orDie .mapSegment (mmapFixed os mem start (sub64 stop start))
  let mem ← copySegment mem (wrap (loadBias + vaddr)) src filesz
  orDie .protectSegment (mprotect os mem start (sub64 stop start) prot)

/-- The load bias of a span that is reserved, or zero for fixed addresses. -/
def reserveSpan (os : Os) (minVaddr maxVaddr : Nat) (isPie : Bool) (mem : Memory) :
    Run (Nat × Memory) :=
  if isPie then do
    let lo := alignDown minVaddr
    let hi := alignUp maxVaddr
    let (base, mem) ← orDie .reserveSpan (mmapAnywhere os mem (sub64 hi lo))
    return (sub64 base lo, mem)
  else .ok (0, mem)

/-- Where the header table lands if the file range of the row holds `phoff`. -/
def phdrIn (bias : Nat) (phoff : Int) (R : SegmentRow) (phdr : Nat) : Nat :=
  if sizeT R.offset ≤ sizeT phoff ∧ sizeT phoff < wrap (sizeT R.offset + sizeT R.filesz) then
    wrap (bias + sizeT R.vaddr + sub64 (sizeT phoff) (sizeT R.offset))
  else phdr

/-- The second pass of `map_program`. -/
def mapLoop (os : Os) (bias : Nat) (phoff : Int) : List SegmentRow → Nat → Memory →
    Run (Nat × Memory)
  | [], phdr, mem => .ok (phdr, mem)
  | R :: rest, phdr, mem => do
    let buf ← copyBlob os R.content
    let mem ← mapSegment os bias (sizeT R.vaddr) (sizeT R.filesz) (sizeT R.memsz) buf
      (protOf R.r.columnInt64 R.w.columnInt64 R.x.columnInt64) mem
    mapLoop os bias phoff rest (phdrIn bias phoff R phdr) mem

def mapProgram (os : Os) (conn : Connection) (mem : Memory) : Run (NativeObject × Memory) := do
  let et ← selfMetaInt conn .et
  let entry ← selfMetaInt conn .entry
  let phoff ← selfMetaInt conn .phoff
  let (minVaddr, maxVaddr) := boundsLoop conn.loadBounds.rows (2 ^ 64 - 1, 0)
  let (bias, mem) ← reserveSpan os minVaddr maxVaddr (et = etDyn) mem
  let (phdr, mem) ← mapLoop os bias phoff conn.loadSegments.rows 0 mem
  let phnum ← selfMetaInt conn .phnum
  let phent ← selfMetaInt conn .phentsize
  return (⟨bias, wrap (bias + sizeT entry), phdr, phnum, phent⟩, mem)

end SelfDb
