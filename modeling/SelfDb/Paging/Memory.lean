import Mathlib.Algebra.Order.Ring.Int
import Mathlib.Data.List.Basic

/-! A 64-bit address space of 4096-byte pages: unsigned address arithmetic,
page rounding, and the effect of mappings, copies and protections. Addresses
are natural numbers below 2^64. -/
namespace Paging

def pageSize : Nat := 4096

/-- The value of an unsigned 64-bit computation. -/
def wrap (n : Nat) : Nat := n % 2 ^ 64

/-- Unsigned subtraction; the second operand is an address. -/
def sub64 (a b : Nat) : Nat := wrap (a + (2 ^ 64 - b))

def alignDown (a : Nat) : Nat := a - a % pageSize

/-- The page boundary at or above `a`, without wrapping. -/
def pageCeil (a : Nat) : Nat := alignDown (a + (pageSize - 1))

/-- `alignUp` as computed: the addition wraps. -/
def alignUp (a : Nat) : Nat := alignDown (wrap (a + pageSize - 1))

theorem alignDown_le (a : Nat) : alignDown a ≤ a := Nat.sub_le _ _

theorem alignDown_mod (a : Nat) : alignDown a % pageSize = 0 := by
  simp only [alignDown, pageSize]
  omega

theorem le_pageCeil (a : Nat) : a ≤ pageCeil a := by
  simp only [pageCeil, alignDown, pageSize]
  omega

/-- Rounding commutes with wrapping: 2^64 is a whole number of pages. -/
theorem alignDown_wrap (a : Nat) : alignDown (wrap a) = wrap (alignDown a) := by
  simp only [alignDown, wrap, pageSize]
  omega

theorem alignUp_wrap (a : Nat) : alignUp (wrap a) = wrap (pageCeil a) := by
  simp only [alignUp, pageCeil, alignDown, wrap, pageSize]
  omega

theorem alignDown_add {bias : Nat} (page : bias % pageSize = 0) (a : Nat) :
    alignDown (bias + a) = bias + alignDown a := by
  simp only [alignDown, pageSize] at page ⊢
  omega

theorem pageCeil_add {bias : Nat} (page : bias % pageSize = 0) (a : Nat) :
    pageCeil (bias + a) = bias + pageCeil a := by
  simp only [pageCeil, alignDown, pageSize] at page ⊢
  omega

theorem wrap_lt (n : Nat) : wrap n < 2 ^ 64 := Nat.mod_lt _ (by decide)

theorem wrap_wrap_add (a b : Nat) : wrap (wrap a + b) = wrap (a + b) := by
  simp only [wrap]
  omega

theorem sub64_wrap {a b : Nat} (le : b ≤ a) : sub64 (wrap a) (wrap b) = wrap (a - b) := by
  simp only [sub64, wrap]
  omega

theorem sub64_page {a b : Nat} (pageA : a % pageSize = 0) (pageB : b % pageSize = 0) :
    sub64 a b % pageSize = 0 := by
  simp only [sub64, wrap, pageSize] at pageA pageB ⊢
  omega

theorem wrap_sub64_add {a b : Nat} (smallA : a < 2 ^ 64) (smallB : b < 2 ^ 64) :
    wrap (sub64 a b + b) = a := by
  simp only [sub64, wrap]
  omega

/-- Distances do not change when both addresses move. -/
theorem sub64_shift (bias u : Nat) {v : Nat} (small : v < 2 ^ 64) :
    sub64 (wrap (bias + u)) (wrap (bias + v)) = sub64 (wrap u) v := by
  simp only [sub64, wrap]
  omega

/-- The page range computed for `size` bytes at `start`, after a bias of whole pages. -/
theorem span_length {bias : Nat} (page : bias % pageSize = 0) (start size : Nat) :
    sub64 (alignUp (wrap (wrap (bias + start) + size))) (alignDown (wrap (bias + start))) =
      wrap (pageCeil (start + size) - alignDown start) := by
  have low := alignDown_le start
  have high := le_pageCeil (start + size)
  rw [wrap_wrap_add, alignUp_wrap, alignDown_wrap, Nat.add_assoc, pageCeil_add page,
    alignDown_add page, sub64_wrap (by omega), Nat.add_sub_add_left]

structure Prot where
  read : Bool
  write : Bool
  exec : Bool
  deriving DecidableEq

namespace Prot

def noAccess : Prot := ⟨false, false, false⟩
def readWrite : Prot := ⟨true, true, false⟩
def readOnly : Prot := ⟨true, false, false⟩

end Prot

/-- Bytes by address, protections by page; a page without one is not mapped. -/
structure Memory where
  byte : Nat → UInt8
  prot : Nat → Option Prot

def InSpan (start length a : Nat) : Prop := start ≤ a ∧ a < start + length

instance (start length a : Nat) : Decidable (InSpan start length a) :=
  inferInstanceAs (Decidable (_ ∧ _))

theorem inSpan_iff_sub64 {start length a : Nat} (room : start + length ≤ 2 ^ 64)
    (first : start < 2 ^ 64)
    (small : a < 2 ^ 64) : InSpan start length a ↔ sub64 a start < length := by
  simp only [InSpan, sub64, wrap]
  omega

/-- A span of whole pages holds the begin of each page it meets. -/
theorem inSpan_page (page : start % pageSize = 0) (inside : InSpan start length a) :
    InSpan start length (a / pageSize * pageSize) := by
  simp only [InSpan, pageSize] at page inside ⊢
  omega

namespace Memory

/-- Change the protection of the pages that begin in a span. -/
def protect (mem : Memory) (start length : Nat) (prot : Prot) : Memory :=
  { mem with prot := fun page =>
      if InSpan start length (page * pageSize) then some prot else mem.prot page }

/-- Pages that begin in a span are no longer mapped. -/
def unmap (mem : Memory) (start length : Nat) : Memory :=
  { mem with prot := fun page =>
      if InSpan start length (page * pageSize) then none else mem.prot page }

/-- Fresh anonymous pages over whatever was mapped in the span. -/
def mapAnonymous (mem : Memory) (start length : Nat) (prot : Prot) : Memory :=
  { mem.protect start length prot with
    byte := fun a => if InSpan start length a then 0 else mem.byte a }

/-- Bytes at `dest` and the following addresses, which may wrap. -/
def copy (mem : Memory) (dest : Nat) (bytes : List UInt8) : Memory :=
  { mem with byte := fun a => bytes[sub64 a dest]?.getD (mem.byte a) }

def Writable (mem : Memory) (a : Nat) : Prop :=
  (mem.prot (a / pageSize)).any (·.write) = true

instance (mem : Memory) (a : Nat) : Decidable (mem.Writable a) :=
  inferInstanceAs (Decidable (_ = _))

@[simp] theorem protect_byte (mem : Memory) (start length : Nat) (prot : Prot) :
    (mem.protect start length prot).byte = mem.byte := rfl

@[simp] theorem copy_nil (mem : Memory) (dest : Nat) : mem.copy dest [] = mem := rfl

theorem mapAnonymous_writable {start length : Nat} (page : start % pageSize = 0)
    (inside : InSpan start length a) (mem : Memory) :
    (mem.mapAnonymous start length .readWrite).Writable a := by
  simp only [Writable, mapAnonymous, protect, if_pos (inSpan_page page inside)]
  rfl

end Memory

/-! Virtual addresses `lo ≤ u < hi` moved by a bias of whole pages. -/

structure Placed (bias lo hi : Nat) : Prop where
  page : bias % pageSize = 0
  loPage : lo % pageSize = 0
  room : wrap (bias + lo) + (hi - lo) ≤ 2 ^ 64

namespace Placed

/-- The moved range does not wrap. -/
theorem address (placed : Placed bias lo hi) (low : lo ≤ u) (high : u < hi) :
    wrap (bias + u) = wrap (bias + lo) + (u - lo) := by
  have room := placed.room
  simp only [wrap] at room ⊢
  omega

theorem sub_of_le (placed : Placed bias lo hi) (low : lo ≤ v) (le : v ≤ u) (high : u < hi) :
    sub64 (wrap (bias + u)) (wrap (bias + v)) = u - v := by
  rw [placed.address (Nat.le_trans low le) high, placed.address low (by omega)]
  have room := placed.room
  simp only [sub64]
  rw [show wrap (bias + lo) + (u - lo) + (2 ^ 64 - (wrap (bias + lo) + (v - lo))) =
    2 ^ 64 + (u - v) by omega]
  simp only [wrap] at room ⊢
  omega

theorem sub_of_lt (placed : Placed bias lo hi) (low : lo ≤ u) (lt : u < v) (high : v < hi) :
    sub64 (wrap (bias + u)) (wrap (bias + v)) = 2 ^ 64 - (v - u) := by
  rw [placed.address low (by omega), placed.address (by omega) high]
  have room := placed.room
  simp only [sub64]
  rw [show wrap (bias + lo) + (u - lo) + (2 ^ 64 - (wrap (bias + lo) + (v - lo))) =
    2 ^ 64 - (v - u) by omega]
  exact Nat.mod_eq_of_lt (by omega)

/-- A copy in the moved range shifts with it. -/
theorem copy_byte (placed : Placed bias lo hi) (lowU : lo ≤ u) (highU : u < hi) (lowV : lo ≤ v)
    {bytes : List UInt8} (fits : v + bytes.length ≤ hi) (mem : Memory) :
    (mem.copy (wrap (bias + v)) bytes).byte (wrap (bias + u)) =
      if v ≤ u then bytes[u - v]?.getD (mem.byte (wrap (bias + u)))
      else mem.byte (wrap (bias + u)) := by
  cases bytes with
  | nil => simp
  | cons b bytes =>
    simp only [List.length_cons] at fits
    simp only [Memory.copy]
    split
    · rw [placed.sub_of_le lowV ‹_› highU]
    · have room := placed.room
      rw [placed.sub_of_lt lowU (by omega) (by omega), List.getElem?_eq_none (by
        simp only [List.length_cons]
        omega)]
      rfl

theorem inSpan_iff (placed : Placed bias lo hi) (lowU : lo ≤ u) (highU : u < hi) (lowV : lo ≤ v)
    (fits : v + length ≤ hi) (positive : 0 < length) :
    InSpan (wrap (bias + v)) length (wrap (bias + u)) ↔ InSpan v length u := by
  simp only [InSpan]
  rw [placed.address lowU highU, placed.address lowV (by omega)]
  omega

end Placed

end Paging
