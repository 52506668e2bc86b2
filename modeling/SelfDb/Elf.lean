import SelfDb.Binary.Record

/-! The two ELF64 little-endian records. The Python `struct` formats and the
packed C structs lay out the same fields at the same offsets. -/
namespace SelfDb
open Binary

abbrev Bytes := List UInt8

def ehdrSize : Nat := 64
def phdrSize : Nat := 56

def ptLoad : Int := 1
def ptInterp : Int := 3

def pfX : Nat := 1
def pfW : Nat := 2
def pfR : Nat := 4

def emX86_64 : Int := 62
def etExec : Int := 2
def etDyn : Int := 3

/-- `EHDR_FMT = "<16sHHIQQQIHHHHHH"`. -/
structure RawEhdr where
  ident : Bytes
  type : Int
  machine : Int
  version : Int
  entry : Int
  phoff : Int
  shoff : Int
  flags : Int
  ehsize : Int
  phentsize : Int
  phnum : Int
  shentsize : Int
  shnum : Int
  shstrndx : Int
  deriving DecidableEq

/-- `PHDR_FMT = "<IIQQQQQQ"`. -/
structure RawPhdr where
  type : Int
  flags : Int
  offset : Int
  vaddr : Int
  paddr : Int
  filesz : Int
  memsz : Int
  align : Int
  deriving DecidableEq

namespace RawEhdr

def fields (h : RawEhdr) : List (Nat × Int) :=
  [(2, h.type), (2, h.machine), (4, h.version), (8, h.entry), (8, h.phoff), (8, h.shoff),
    (4, h.flags), (2, h.ehsize), (2, h.phentsize), (2, h.phnum), (2, h.shentsize),
    (2, h.shnum), (2, h.shstrndx)]

def bytes (h : RawEhdr) : Bytes := h.ident ++ record h.fields

def read (data : Bytes) : RawEhdr where
  ident := slice data 0 16
  type := readField data 16 2
  machine := readField data 18 2
  version := readField data 20 4
  entry := readField data 24 8
  phoff := readField data 32 8
  shoff := readField data 40 8
  flags := readField data 48 4
  ehsize := readField data 52 2
  phentsize := readField data 54 2
  phnum := readField data 56 2
  shentsize := readField data 58 2
  shnum := readField data 60 2
  shstrndx := readField data 62 2

theorem width (h : RawEhdr) : 16 + (widths h.fields).sum = ehdrSize := by
  simp [widths, fields, ehdrSize]

theorem bytes_length {h : RawEhdr} (ident : h.ident.length = 16) : h.bytes.length = ehdrSize := by
  simp [bytes, ident, widths, fields, ehdrSize]

theorem read_fields (data : Bytes) : (read data).fields = readRecord
    (widths (read data).fields) data 16 :=
  rfl

theorem ext_fields {a b : RawEhdr} (ident : a.ident = b.ident) (same : a.fields = b.fields) :
    a = b := by
  cases a
  cases b
  simp_all [fields]

/-- Decoding the header region of an image that starts with an encoded header. -/
theorem read_of_slice {data : Bytes} {h : RawEhdr} (ident : h.ident.length = 16)
    (representable : Representable h.fields) (holds : slice data 0 ehdrSize = h.bytes) :
    read data = h := by
  have parts : slice data 0 16 = h.ident ∧
      slice data 16 (widths h.fields).sum = record h.fields := by
    have total := congrArg List.length holds
    rw [bytes_length ident, slice_length] at total
    rw [← h.width, slice_add, bytes] at holds
    apply List.append_inj holds
    rw [slice_length, ident]
    simp only [ehdrSize] at total
    omega
  apply ext_fields parts.1
  rw [read_fields]
  exact readRecord_of_slice representable parts.2

theorem read_representable {data : Bytes} (inside : ehdrSize ≤ data.length) :
    Representable (read data).fields := by
  rw [← (read data).width] at inside
  rw [read_fields]
  exact readRecord_representable inside

end RawEhdr

namespace RawPhdr

def fields (h : RawPhdr) : List (Nat × Int) :=
  [(4, h.type), (4, h.flags), (8, h.offset), (8, h.vaddr), (8, h.paddr), (8, h.filesz),
    (8, h.memsz), (8, h.align)]

def bytes (h : RawPhdr) : Bytes := record h.fields

def read (data : Bytes) (start : Nat) : RawPhdr where
  type := readField data start 4
  flags := readField data (start + 4) 4
  offset := readField data (start + 8) 8
  vaddr := readField data (start + 16) 8
  paddr := readField data (start + 24) 8
  filesz := readField data (start + 32) 8
  memsz := readField data (start + 40) 8
  align := readField data (start + 48) 8

theorem width (h : RawPhdr) : (widths h.fields).sum = phdrSize := by
  simp [widths, fields, phdrSize]

@[simp] theorem bytes_length (h : RawPhdr) : h.bytes.length = phdrSize := by
  rw [bytes, record_length, width]

theorem read_fields (data : Bytes) (start : Nat) :
    (read data start).fields = readRecord (widths (read data start).fields) data start := rfl

theorem ext_fields {a b : RawPhdr} (same : a.fields = b.fields) : a = b := by
  cases a
  cases b
  simp_all [fields]

theorem read_of_slice {data : Bytes} {start : Nat} {h : RawPhdr}
    (representable : Representable h.fields) (holds : slice data start phdrSize = h.bytes) :
    read data start = h := by
  apply ext_fields
  rw [read_fields]
  exact readRecord_of_slice representable holds

theorem bytes_read {data : Bytes} {start : Nat} (inside : start + phdrSize ≤ data.length) :
    (read data start).bytes = slice data start phdrSize := by
  rw [← (read data start).width] at inside ⊢
  rw [bytes, read_fields]
  exact record_readRecord inside

theorem read_representable {data : Bytes} {start : Nat} (inside : start + phdrSize ≤ data.length) :
    Representable (read data start).fields := by
  rw [← (read data start).width] at inside
  rw [read_fields]
  exact readRecord_representable inside

end RawPhdr

end SelfDb
