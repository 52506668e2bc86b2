import SelfDb.Loader.Program
import SelfDb.Paging.Frame

/-! What has been loaded stays: a reservation, and all that is laid into it, leaves alone the
pages that were mapped before. -/
namespace SelfDb
open Paging Binary

/-! One row where it is placed. -/

theorem layer_start (placed : Placed bias lo hi) {R : SegmentRow} (loadable : R.Loadable) :
    (R.layer bias prot).start = wrap (bias + alignDown R.start) := by
  change alignDown (wrap (bias + sizeT R.vaddr)) = _
  rw [loadable.words.1, alignDown_wrap, alignDown_add placed.page]

theorem layer_length (placed : Placed bias lo hi) {R : SegmentRow} (loadable : R.Loadable) :
    (R.layer bias prot).length = pageCeil (R.start + R.size) - alignDown R.start := by
  have length := span_length placed.page (sizeT R.vaddr) (sizeT R.memsz)
  rw [loadable.words.1, loadable.words.2.2, segment_pages loadable.bounds.2.1] at length
  change sub64 (alignUp (wrap (wrap (bias + sizeT R.vaddr) + sizeT R.memsz)))
    (alignDown (wrap (bias + sizeT R.vaddr))) = _
  rw [loadable.words.1, loadable.words.2.2, length]

theorem layer_room (placed : Placed bias lo hi) {R : SegmentRow} (loadable : R.Loadable)
    (within : R.Within lo hi) :
    (R.layer bias prot).start + (R.layer bias prot).length ≤ 2 ^ 64 := by
  rw [layer_start placed loadable, layer_length placed loadable]
  by_cases pages : R.HasPages
  · exact (segment_placed placed within.1 within.2 pages).2
  · have small := wrap_lt (bias + alignDown R.start)
    rw [SegmentRow.HasPages] at pages
    omega

/-- The content of a row is on its pages. -/
theorem layer_inSpan (placed : Placed bias lo hi) {R : SegmentRow} (loadable : R.Loadable)
    (within : R.Within lo hi) (small : a < 2 ^ 64)
    (reached : (R.layer bias prot).byteAt a ≠ none) :
    InSpan (R.layer bias prot).start (R.layer bias prot).length a := by
  rw [Layer.byteAt, Ne, Option.or_eq_none_iff, not_and_or] at reached
  rcases reached with copied | mapped
  · obtain ⟨vaddr, filesz, _⟩ := loadable.words
    have content : (R.layer bias prot).content = ⟨wrap (bias + R.start), R.bytes⟩ := by
      change (⟨wrap (bias + sizeT R.vaddr), R.bytes.take (sizeT R.filesz)⟩ : Store) = _
      rw [vaddr, filesz, List.take_length]
    rw [content, Store.byteAt, List.getElem?_eq_none_iff, not_le] at copied
    have bound : sub64 a (wrap (bias + R.start)) < R.size :=
      lt_of_lt_of_le copied loadable.bounds.2.2
    have pages : R.HasPages := (R.hasPages_iff).mpr fun empty => by omega
    have inside := segment_inSpan placed within.1 within.2 pages bound
    rw [Nat.add_comm (wrap (bias + R.start)), wrap_sub64_add small (wrap_lt _)] at inside
    rw [layer_start placed loadable, layer_length placed loadable]
    exact inside
  · by_contra off
    exact mapped (if_neg off)

/-! All rows of an object. -/

/-- The rows were laid, with one protection or another. -/
def RowsAre (bias : Nat) (rows : List SegmentRow) (layers : List Layer) : Prop :=
  layers.map bare = rows.map fun R => R.layer bias .noAccess

theorem rowsAre_asked (bias : Nat) (rows : List SegmentRow) :
    RowsAre bias rows (askedLayers bias rows) := by
  rw [RowsAre, askedLayers, List.map_map]
  rfl

/-- Every row is placed. -/
def RowsPlaced (bias : Nat) (rows : List SegmentRow) : Prop :=
  bias % pageSize = 0 ∧ ∀ R ∈ rows, ∃ lo hi, Placed bias lo hi ∧ R.Within lo hi

theorem RowsAre.byteAt (are : RowsAre bias rows layers) (loadable : ∀ R ∈ rows, R.Loadable)
    (placed : RowsPlaced bias rows) (u : Nat) :
    lastAt (layers.map Layer.byteAt) (wrap (bias + u)) = imageByte rows u := by
  rw [map_byteAt_bare, are]
  refine rows_byteAt placed.1 (fun _ => .noAccess) (fun R member prot => ?_) u
  obtain ⟨lo, hi, here, within⟩ := placed.2 R member
  exact layer_room here (loadable R member) within

/-- A byte comes from one of the rows. -/
theorem exists_row (loadable : ∀ R ∈ rows, R.Loadable) (placed : RowsPlaced bias rows)
    (found : imageByte rows u = some b) :
    ∃ R ∈ rows, (R.layer bias .noAccess).byteAt (wrap (bias + u)) ≠ none := by
  have decides := ((rowsAre_asked bias rows).byteAt loadable placed u).trans found
  by_contra nowhere
  push Not at nowhere
  have none : lastAt ((askedLayers bias rows).map Layer.byteAt) (wrap (bias + u)) = none := by
    rw [map_byteAt_bare, rowsAre_asked, lastAt_eq_none_iff, List.forall_mem_map,
      List.forall_mem_map]
    exact nowhere
  rw [none] at decides
  cases decides

/-- Where the rows put a byte, the byte is there, on a page that is mapped. -/
theorem RowsAre.resident (are : RowsAre bias rows layers) (loadable : ∀ R ∈ rows, R.Loadable)
    (placed : RowsPlaced bias rows) (found : imageByte rows u = some b) (mem : Memory) :
    Resident (layers.foldl Memory.lay mem) (wrap (bias + u)) b := by
  refine ⟨?_, (Memory.foldl_lay_mapped _ _ _).mpr (.inr ?_)⟩
  · rw [Memory.foldl_lay_byte, (are.byteAt loadable placed u).trans found]
    rfl
  · rw [exists_onPage_bare, are]
    obtain ⟨R, member, here⟩ := exists_row loadable placed found
    obtain ⟨lo, hi, place, within⟩ := placed.2 R member
    have inside := layer_inSpan place (loadable R member) within (wrap_lt _) here
    exact ⟨_, List.mem_map_of_mem member, inSpan_page (alignDown_mod _) inside⟩

/-- Addresses and pages that the rows do not reach are left alone. -/
theorem RowsAre.untouched (are : RowsAre bias rows layers)
    (off : ∀ R ∈ rows, (R.layer bias .noAccess).byteAt a = none)
    (page : ∀ R ∈ rows, (R.layer bias .noAccess).byteAt (a / pageSize * pageSize) = none)
    (mem : Memory) : Untouched mem (layers.foldl Memory.lay mem) a := by
  refine ⟨?_, foldl_lay_kept (fun layer member on => ?_) mem⟩
  · have none : lastAt (layers.map Layer.byteAt) a = none := by
      rw [map_byteAt_bare, are, lastAt_eq_none_iff, List.forall_mem_map, List.forall_mem_map]
      exact off
    rw [Memory.foldl_lay_byte, none]
    rfl
  · have laid : bare layer ∈ rows.map fun R => R.layer bias .noAccess :=
      are ▸ List.mem_map_of_mem member
    obtain ⟨R, listed, same⟩ := List.mem_map.mp laid
    have here := page R listed
    rw [same, Layer.byteAt, Option.or_eq_none_iff] at here
    have inside : InSpan (bare layer).start (bare layer).length (a / pageSize * pageSize) := on
    rw [if_pos inside] at here
    cases here.2

/-! Reservations. -/

/-- Where the kernel chooses, no page was mapped. -/
theorem Os.Fresh.page {os : Os} (fresh : os.Fresh) (reserved : os.reserve mem length = some base)
    (mapped : IsMapped mem a) : ¬ InSpan base length (a / pageSize * pageSize) := by
  intro inside
  rw [IsMapped, fresh.unmapped reserved inside] at mapped
  cases mapped

/-- Anonymous pages are mapped there. -/
theorem Os.Fresh.untouched {os : Os} (fresh : os.Fresh)
    (reserved : os.reserve mem length = some base) (mapped : IsMapped mem a) (prot : Prot)
    (dest : Nat) : Untouched mem (mem.lay ⟨base, length, prot, ⟨dest, []⟩⟩) a := by
  have off : (⟨base, length, prot, ⟨dest, []⟩⟩ : Layer).byteAt a = none :=
    if_neg (fresh.outside reserved mapped)
  exact .lay off (fresh.page reserved mapped) mem

def loadsOf (rows : List SegmentRow) : List (Int × Int) := rows.map fun R => (R.vaddr, R.memsz)

/-- A reservation places the rows, and they do not reach out of it. -/
structure RowsReserved (os : Os) (mem : Memory) (rows : List SegmentRow) (bias base : Nat) :
    Prop where
  reserved : os.reserve mem (holeLength (loadsOf rows)) = some base
  placed : RowsPlaced bias rows
  off : ∀ a < 2 ^ 64, ¬ InSpan base (holeLength (loadsOf rows)) a →
    ∀ R ∈ rows, (R.layer bias .noAccess).byteAt a = none

theorem rowsReserved_at {os : Os} (fresh : os.Fresh) {rows : List SegmentRow}
    (loadable : ∀ R ∈ rows, R.Loadable) (positive : holeLength (loadsOf rows) ≠ 0)
    (chosen : os.reserve mem (holeLength (loadsOf rows)) = some base) :
    RowsReserved os mem rows (biasAt (loadsOf rows) base) base := by
  have small : ∀ load ∈ loadsOf rows, SmallLoad load := by
    rw [loadsOf, List.forall_mem_map]
    intro R member
    have fits := loadable R member
    have columns := fits.stored.columns
    simp only [List.forall_mem_cons, Storable] at columns
    have content := fits.content
    have sizes := fits.sizes
    exact ⟨⟨fits.vaddr, columns.2.2.2.1.2⟩, by omega, columns.2.2.2.2.2.1.2⟩
  have page := fresh.aligned chosen
  have room := fresh.room chosen
  have hole := fitsHole small page positive room
  refine ⟨chosen, ⟨hole.page, fun R member => ?_⟩, fun a below outside R member => ?_⟩
  all_goals
    have listed : (R.vaddr, R.memsz) ∈ loadsOf rows := List.mem_map_of_mem member
    obtain ⟨hi, placed, -, -, low, high⟩ := hole_placed small listed page positive room
    have words := (loadable R member).words
    rw [words.1] at low high
    rw [words.2.2] at high
  · exact ⟨_, hi, placed, low, high⟩
  · by_contra reached
    exact outside (hole.ranges _ listed a
      (layer_inSpan placed (loadable R member) ⟨low, high⟩ below reached))

theorem rowsReserved {os : Os} (fresh : os.Fresh) {rows : List SegmentRow}
    (loadable : ∀ R ∈ rows, R.Loadable)
    (reserved : reserveSpan os (boundsLoop (loadsOf rows) (2 ^ 64 - 1, 0)).1
      (boundsLoop (loadsOf rows) (2 ^ 64 - 1, 0)).2 true mem = .ok (bias, after)) :
    ∃ base, RowsReserved os mem rows bias base ∧
      after = mem.lay (reservedLayer base (holeLength (loadsOf rows))) := by
  have positive : holeLength (loadsOf rows) ≠ 0 := reserveSpan_span reserved
  obtain ⟨base, chosen, rfl, rfl⟩ := reserveSpan_laid reserved
  exact ⟨base, rowsReserved_at fresh loadable positive chosen, rfl⟩

/-- The reservation and the rows in it leave mapped pages alone. -/
theorem RowsReserved.untouched {os : Os} (fresh : os.Fresh) {rows : List SegmentRow}
    (held : RowsReserved os mem rows bias base) (are : RowsAre bias rows layers)
    (small : a < 2 ^ 64) (mapped : IsMapped mem a) :
    Untouched mem
      (layers.foldl Memory.lay (mem.lay (reservedLayer base (holeLength (loadsOf rows))))) a := by
  have below : a / pageSize * pageSize < 2 ^ 64 := (Nat.div_mul_le_self a pageSize).trans_lt small
  refine (fresh.untouched held.reserved mapped .noAccess 0).trans (are.untouched ?_ ?_ _)
  · exact held.off a small (fresh.outside held.reserved mapped)
  · exact held.off _ below (fresh.page held.reserved mapped)

end SelfDb
