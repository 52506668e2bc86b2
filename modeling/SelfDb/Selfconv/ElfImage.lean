import SelfDb.Selfconv.Python

/-! `selfconv/elfimage.py`: the raw ELF64 image. `memory` says which bytearray
sizes the interpreter can allocate. -/
namespace SelfDb
open Binary

/-- `PT_NAMES.get(ptype, "other")`. -/
def typeName (ptype : Int) : SegmentType :=
  if ptype = 1 then .load
  else if ptype = 2 then .dynamic
  else if ptype = 3 then .interp
  else if ptype = 4 then .note
  else if ptype = 6 then .phdr
  else if ptype = 7 then .tls
  else if ptype = 0x6474E550 then .ehFrame
  else if ptype = 0x6474E551 then .stack
  else if ptype = 0x6474E552 then .relro
  else if ptype = 0x6474E553 then .property
  else .other

/-- `EM_NAMES`, and the name of a machine it does not list. -/
def machineName (em : Int) : String :=
  if em = 3 then "i386"
  else if em = 40 then "arm"
  else if em = 62 then "x86_64"
  else if em = 183 then "aarch64"
  else if em = 243 then "riscv64"
  else "em" ++ toString em

/-- `serialize_image` reads neither `phentsize` nor `phnum`, so they may be any value. -/
structure Ehdr where
  et : Int
  em : Int
  entry : Int
  phoff : Int
  eflags : Int
  phentsize : Value
  phnum : Value
  osabi : Int
  deriving DecidableEq

structure Phdr where
  ptype : Int
  flags : Int
  offset : Int
  vaddr : Int
  filesz : Int
  memsz : Int
  align : Int
  content : Option Bytes
  deriving DecidableEq

def elfMagic : Bytes := [0x7f, 0x45, 0x4c, 0x46]

/-- `struct.unpack_from(EHDR_FMT, data)`. -/
def unpackEhdr (data : Bytes) : Except PyError RawEhdr :=
  if ehdrSize ≤ data.length then .ok (RawEhdr.read data) else .error .structError

/-- `struct.unpack_from(PHDR_FMT, data, offset)`. -/
def unpackPhdr (data : Bytes) (offset : Int) : Except PyError RawPhdr :=
  if 0 ≤ offset ∧ offset + phdrSize ≤ data.length then .ok (RawPhdr.read data offset.toNat)
  else .error .structError

/-- One iteration of the program header loop of `parse_image`. -/
def parsePhdr (data : Bytes) (phoff : Int) (i : Nat) : Except PyError Phdr := do
  let h ← unpackPhdr data (phoff + i * phdrSize)
  let content := if h.type = ptLoad then some (Py.getSlice data h.offset (h.offset + h.filesz))
    else none
  return ⟨h.type, h.flags, h.offset, h.vaddr, h.filesz, h.memsz, h.align, content⟩

def parseImage (data : Bytes) : Except PyError (Ehdr × List Phdr) := do
  Py.raiseIf (data.take 4 ≠ elfMagic) (.valueError "not an ELF file")
  Py.raiseIf ((← Py.index data 4) ≠ 2) (.valueError "only ELF64 little-endian is supported")
  Py.raiseIf ((← Py.index data 5) ≠ 1) (.valueError "only ELF64 little-endian is supported")
  let h ← unpackEhdr data
  let osabi ← Py.index data 7
  let phdrs ← (List.range h.phnum.toNat).mapM (parsePhdr data h.phoff)
  return (⟨h.type, h.machine, h.entry, h.phoff, h.flags, .integer h.phentsize, .integer h.phnum,
    osabi.toNat⟩, phdrs)

/-- `max(p.offset + p.filesz for p in phdrs)`. -/
def maxExtent : List Phdr → Except PyError Int
  | [] => .error (.valueError "max() arg is an empty sequence")
  | p :: rest =>
    .ok (rest.foldl (fun size q => max size (q.offset + q.filesz)) (p.offset + p.filesz))

/-- The slice assignments of the contents, in row order. -/
def layContents (img : Bytes) (phdrs : List Phdr) : Bytes :=
  phdrs.foldl (fun img p =>
    match p.content with
    | some content => Py.setSlice img p.offset (p.offset + p.filesz) content
    | none => img) img

/-- The arguments of `struct.pack_into(EHDR_FMT, ...)`. -/
def Ehdr.raw (ehdr : Ehdr) (count : Nat) : RawEhdr where
  ident := elfMagic ++ [2, 1, 1, UInt8.ofNat ehdr.osabi.toNat] ++ List.replicate 8 0
  type := ehdr.et
  machine := ehdr.em
  version := 1
  entry := ehdr.entry
  phoff := ehdr.phoff
  shoff := 0
  flags := ehdr.eflags
  ehsize := ehdrSize
  phentsize := phdrSize
  phnum := count
  shentsize := 0
  shnum := 0
  shstrndx := 0

/-- The arguments of `struct.pack_into(PHDR_FMT, ...)`: `p_paddr` is `p_vaddr`. -/
def Phdr.raw (p : Phdr) : RawPhdr :=
  ⟨p.ptype, p.flags, p.offset, p.vaddr, p.vaddr, p.filesz, p.memsz, p.align⟩

def packEhdr (ehdr : Ehdr) (count : Nat) (img : Bytes) : Except PyError Bytes := do
  Py.raiseIf (¬ (0 ≤ ehdr.osabi ∧ ehdr.osabi < 256)) (.valueError "bytes must be in range(0, 256)")
  let fields ← Py.structPack (ehdr.raw count).fields
  Py.packInto img 0 ((ehdr.raw count).ident ++ fields)

def packPhdrs (phoff : Int) : Nat → List Phdr → Bytes → Except PyError Bytes
  | _, [], img => return img
  | i, p :: rest, img => do
    let packed ← Py.structPack p.raw.fields
    let img ← Py.packInto img (phoff + i * phdrSize) packed
    packPhdrs phoff (i + 1) rest img

def serializeImage (memory : Nat → Bool) (ehdr : Ehdr) (phdrs : List Phdr) :
    Except PyError Bytes := do
  let extent ← maxExtent phdrs
  let size := max (max extent ehdrSize) (ehdr.phoff + phdrs.length * phdrSize)
  Py.raiseIf (memory size.toNat = false) .memoryError
  let img := layContents (List.replicate size.toNat 0) phdrs
  let img ← packEhdr ehdr phdrs.length img
  packPhdrs ehdr.phoff 0 phdrs img

end SelfDb
