import SelfDb.Loader.Native
import SelfDb.Paging.Layers
import SelfDb.Selfconv.Convert

/-! `run_native` of `loader/native.c`: the program is mapped from its rows, the
ELF interpreter from its file, and both start on a new stack. -/
namespace SelfDb
open Paging Binary

/-- `self_get_text`; `strdup` copies up to a NUL. -/
def selfGetText (conn : Connection) (key : MetaKey) : Option String :=
  ((conn.metaValue key).rows.head?.bind Value.columnText).map fun text =>
    .ofList (text.toList.takeWhile (· ≠ '\x00'))

/-- A file in memory: the last page is filled up with zeros. -/
def filePages (file : Bytes) : Bytes :=
  file ++ List.replicate (pageCeil file.length - file.length) 0

/-- `mmap(NULL, st_size, PROT_READ, MAP_PRIVATE, fd, 0)`. -/
def mmapFile (os : Os) (mem : Memory) (file : Bytes) : Option (Nat × Memory) :=
  if file.length = 0 then none
  else (os.reserve mem file.length).map fun base =>
    (base, mem.lay ⟨base, file.length, .readOnly, base, filePages file⟩)

/-- `ph[i]` if it is a PT_LOAD entry. Beyond its pages the file cannot be read. -/
def interpEntry (pages : Bytes) (start : Nat) : Run (Option RawPhdr) :=
  if start + 4 ≤ pages.length then
    if readField pages start 4 = ptLoad then
      if start + 48 ≤ pages.length then .ok (some (RawPhdr.read pages start)) else .error .fault
    else .ok none
  else .error .fault

/-- The PT_LOAD entries of an interpreter. -/
def interpLoads (pages : Bytes) : Run (List RawPhdr) := do
  let eh := RawEhdr.read pages
  let entries ← (List.range eh.phnum.toNat).mapM fun i =>
    interpEntry pages (eh.phoff.toNat + i * phdrSize)
  return entries.reduceOption

/-- `prot_of(p_flags & PF_R, p_flags & PF_W, p_flags & PF_X)`. -/
def phdrProt (h : RawPhdr) : Prot := protOf (flag h.flags pfR) (flag h.flags pfW) (flag h.flags pfX)

/-- One PT_LOAD entry of the interpreter; the source is `file + p_offset`. -/
def mapInterpSegment (os : Os) (bias : Nat) (pages : Bytes) (mem : Memory) (h : RawPhdr) :
    Run Memory :=
  mapSegment os bias (sizeT h.vaddr) (sizeT h.filesz) (sizeT h.memsz)
    (some (pages.drop (sizeT h.offset))) (phdrProt h) mem

structure InterpObject where
  loadBias : Nat
  entry : Nat

/-- `map_interp`; a path that cannot be opened or examined has no file. -/
def mapInterp (os : Os) (files : String → Option Bytes) (path : String) (mem : Memory) :
    Run (InterpObject × Memory) := do
  let file ← orDie (.openInterp path) (files path)
  let (base, mem) ← orDie .mapInterp (mmapFile os mem file)
  let pages := filePages file
  orDie (.notInterp path) (if pages.take 4 = elfMagic then some () else none)
  let loads ← interpLoads pages
  let (minVaddr, maxVaddr) := boundsLoop (loads.map fun h => (h.vaddr, h.memsz)) (2 ^ 64 - 1, 0)
  let (bias, mem) ← reserveSpan os minVaddr maxVaddr true mem
  let mem ← loads.foldlM (mapInterpSegment os bias pages) mem
  return (⟨bias, wrap (bias + sizeT (RawEhdr.read pages).entry)⟩, mem.unmap base file.length)

def mapInterpIf (os : Os) (files : String → Option Bytes) (interp : Option String) (mem : Memory) :
    Run (Option InterpObject × Memory) :=
  match interp with
  | none => .ok (none, mem)
  | some path => do
    let (object, mem) ← mapInterp os files path mem
    return (some object, mem)

/-- What `run_native` jumps into. -/
structure NativeStart where
  exe : NativeObject
  interp : Option InterpObject
  memory : Memory

/-- `8UL << 20`. -/
def nativeStackSize : Nat := 8 * 2 ^ 20

/-- `run_native`; `build_stack` only stores into the stack. -/
def runNative (os : Os) (files : String → Option Bytes) (conn : Connection) (mem : Memory) :
    Run NativeStart := do
  let em ← selfMetaInt conn .em
  orDie (.machine em) (if em = emX86_64 then some () else none)
  let (exe, mem) ← mapProgram os conn mem
  let (interp, mem) ← mapInterpIf os files (selfGetText conn .interp) mem
  let mem ← mapStack os nativeStackSize mem
  return ⟨exe, interp, mem⟩

end SelfDb
