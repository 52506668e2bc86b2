import Mathlib.Data.Int.ModEq
import SelfDb.Loader.Hole

/-! What becomes of the alignment that a segment asks for. `mmap` answers a page
boundary, and the loaders take whatever it answers. -/
namespace SelfDb
open Paging

theorem wrap_modEq (n : Nat) : (wrap n : Int) ≡ n [ZMOD 2 ^ 64] := by
  simp only [wrap, Int.ModEq]
  omega

theorem sizeT_modEq (value : Int) : (sizeT value : Int) ≡ value [ZMOD 2 ^ 64] := by
  simp only [sizeT, Int.ModEq]
  omega

theorem sub64_modEq {a b : Nat} (small : b ≤ 2 ^ 64) : (sub64 a b : Int) ≡ a - b [ZMOD 2 ^ 64] := by
  simp only [sub64, wrap, Int.ModEq]
  omega

def PowerOfTwo (align : Int) : Prop := ∃ k : Nat, align = 2 ^ k

/-- Every load row is at its address modulo its alignment. -/
def KeepsAlignment (bias : Nat) (rows : List SegmentRow) : Prop :=
  ∀ R ∈ rows, PowerOfTwo R.align → (wrap (bias + sizeT R.vaddr) : Int) ≡ R.vaddr [ZMOD R.align]

/-- The base is as good as the lowest page for all alignments above a page. -/
def BaseAligned (db : Database) (base : Nat) : Prop :=
  ∀ R ∈ db.loadRows, PowerOfTwo R.align → pageSize < R.align →
    (base : Int) ≡ lowPage db.loads [ZMOD R.align]

/-- An address moves by the distance from the lowest page to the base. -/
theorem moved_modEq (loads : List (Int × Int)) (base : Nat) (vaddr : Int) :
    (wrap (biasAt loads base + sizeT vaddr) : Int) ≡ base - lowPage loads + vaddr
    [ZMOD 2 ^ 64] := by
  refine (wrap_modEq _).trans ?_
  push_cast
  exact (sub64_modEq (lowPage_lt loads).le).add (sizeT_modEq vaddr)

/-- Alignments that a column can hold divide the size of the address space. -/
theorem PowerOfTwo.dvd (power : PowerOfTwo align) (stored : Storable align) : align ∣ 2 ^ 64 := by
  obtain ⟨k, rfl⟩ := power
  have bound : (2 : Int) ^ k < 2 ^ 63 := stored.2
  have small := (pow_lt_pow_iff_right₀ (by norm_num)).mp bound
  exact pow_dvd_pow 2 (by omega)

/-- Up to one page an alignment is kept by all page boundaries. -/
theorem PowerOfTwo.dvd_page (power : PowerOfTwo align) (small : align ≤ pageSize) :
    align ∣ pageSize := by
  obtain ⟨k, rfl⟩ := power
  have bound : (2 : Int) ^ k ≤ 2 ^ 12 := small
  exact pow_dvd_pow 2 ((pow_le_pow_iff_right₀ (by norm_num)).mp bound)

theorem keepsAlignment_iff (db : Database) (page : base % pageSize = 0) :
    KeepsAlignment (biasAt db.loads base) db.loadRows ↔ BaseAligned db base := by
  refine forall₃_congr fun R member (power : PowerOfTwo R.align) => ?_
  have stored : Storable R.align := by
    refine (db.segmentsStored R (List.mem_filter.mp member).1).columns _ ?_
    simp
  have moved := (moved_modEq db.loads base R.vaddr).of_dvd (power.dvd stored)
  have same : (wrap (biasAt db.loads base + sizeT R.vaddr) : Int) ≡ R.vaddr [ZMOD R.align] ↔
      (base : Int) ≡ lowPage db.loads [ZMOD R.align] := by
    rw [Int.modEq_comm (a := (base : Int)), Int.modEq_iff_dvd (a := (lowPage db.loads : Int)),
      ← Int.add_modEq_right_iff (b := R.vaddr)]
    exact ⟨moved.symm.trans, moved.trans⟩
  rw [same]
  refine ⟨fun aligned _ => aligned, fun aligned => ?_⟩
  by_cases small : R.align ≤ pageSize
  · have pages : (base : Int) ≡ lowPage db.loads [ZMOD pageSize] :=
      Int.natCast_modEq_iff.mpr (page.trans (alignDown_mod _).symm)
    exact pages.of_dvd (power.dvd_page small)
  · exact aligned (not_le.mp small)

/-- Two neighbouring pages are both good for an alignment of at most a page only. -/
theorem le_page_of_modEq {a align : Int} (first : (0 : Int) ≡ a [ZMOD align])
    (second : (pageSize : Int) ≡ a [ZMOD align]) : align ≤ pageSize :=
  Int.le_of_dvd (by decide) (Int.modEq_zero_iff_dvd.mp (second.trans first.symm))

theorem holeLength_le (loads : List (Int × Int)) : holeLength loads ≤ 2 ^ 64 - pageSize := by
  simp only [holeLength, spanLength, sub64, alignUp, alignDown, wrap, pageSize]
  omega

/-- No base does harm exactly when no row asks for more than a page. -/
theorem forall_baseAligned_iff (db : Database) :
    (∀ base, base % pageSize = 0 → base + holeLength db.loads ≤ 2 ^ 64 → BaseAligned db base) ↔
      ∀ R ∈ db.loadRows, PowerOfTwo R.align → R.align ≤ pageSize := by
  constructor
  · intro all R member power
    by_contra large
    have room := holeLength_le db.loads
    have first := all 0 (by decide) (by simp only [pageSize] at room; omega) R member power
      (not_le.mp large)
    have second := all pageSize (by decide)
      (by simp only [pageSize] at room ⊢; omega) R member power
      (not_le.mp large)
    exact large (le_page_of_modEq first second)
  · intro small base _ _ R member power large
    exact absurd (small R member power) (not_le.mpr large)

/-- In a run of either loader on a position-independent program, all alignments
are kept exactly when the answer of `mmap` happens to be good for those above a
page. Every answer is good exactly when there are none of these. -/
theorem alignment_survives_iff (db : Database) :
    (∀ {os mem base after exe final}, selfGetInt db.connect .et = some etDyn → base % pageSize = 0 →
      mmapAnywhere os mem (holeLength db.loads) = some (base, after) →
      mapProgram os db.connect mem = .ok (exe, final) →
        (KeepsAlignment exe.loadBias db.loadRows ↔ BaseAligned db base)) ∧
    (∀ {world path slot state base after obj final}, world.files path = some db.connect →
      base % pageSize = 0 →
      mmapAnywhere world.os state.memory (holeLength db.loads) = some (base, after) →
      mapObject world path slot state = .ok (obj, final) →
        (KeepsAlignment obj.loadBias db.loadRows ↔ BaseAligned db base)) ∧
    ((∀ base, base % pageSize = 0 → base + holeLength db.loads ≤ 2 ^ 64 → BaseAligned db base) ↔
      ∀ R ∈ db.loadRows, PowerOfTwo R.align → R.align ≤ pageSize) := by
  refine ⟨?_, ?_, forall_baseAligned_iff db⟩
  · intro os mem base after exe final dyn page chosen mapped
    rw [mapProgram_bias dyn chosen mapped, keepsAlignment_iff db page]
  · intro world path slot state base after obj final opened page chosen mapped
    rw [mapObject_bias opened chosen mapped, keepsAlignment_iff db page]

/-- A row that asks for 2 MiB, with its address congruent to its offset. -/
def largePage : Database where
  selfMeta key := some
    (metaTable ⟨etDyn, emX86_64, 0x1000, ehdrSize, 0, .integer phdrSize, .integer 2, 0⟩ 1 none key)
  segments := ⟨[{ codeRow 0x1000 with offset := 0x1000, align := 0x200000 }],
    List.pairwise_singleton _ _⟩
  needed := .empty
  symbols := .empty
  relocations := .empty
  metaStored := insertMeta_stored (if_pos (by decide))
  segmentsStored := by decide

def largePageWorld : World where
  os := .lowest
  files path := if path = "/main.self" then some largePage.connect else none
  resolver := none

theorem largePage_loads : ∃ R ∈ largePage.loadRows, R.align = 2 ^ 21 ∧ R.vaddr = 0x1000 := by decide

theorem not_keepsAlignment_largePage : ¬ KeepsAlignment 0xfff000 largePage.loadRows := by
  intro keeps
  obtain ⟨R, member, align, vaddr⟩ := largePage_loads
  have kept := keeps R member ⟨21, align⟩
  rw [align, vaddr] at kept
  exact absurd kept (by decide)

/-- The kernel answers 16 MiB for the page at 0x1000. -/
theorem alignment_lost :
    (∃ exe final, mapProgram .lowest largePage.connect unmappedSpace = .ok (exe, final) ∧
      ¬ KeepsAlignment exe.loadBias largePage.loadRows) ∧
    ∃ obj final, mapObject largePageWorld "/main.self" (.ok ()) ⟨unmappedSpace, []⟩ = .ok
      (obj, final) ∧
      ¬ KeepsAlignment obj.loadBias largePage.loadRows := by
  have program : ∃ run, mapProgram .lowest largePage.connect unmappedSpace = .ok run ∧
      run.1.loadBias = 0xfff000 :=
    exists_of_map_decide (by decide +kernel)
  have object : ∃ run, mapObject largePageWorld "/main.self" (.ok ()) ⟨unmappedSpace, []⟩ =
      .ok run ∧
      run.1.loadBias = 0xfff000 := exists_of_map_decide (by decide +kernel)
  obtain ⟨⟨exe, final⟩, mapped, bias⟩ := program
  obtain ⟨⟨obj, state⟩, mapped', bias'⟩ := object
  exact ⟨⟨exe, final, mapped, bias ▸ not_keepsAlignment_largePage⟩, obj, state, mapped',
    bias' ▸ not_keepsAlignment_largePage⟩

end SelfDb
