import SelfDb.Loader.SelfLdProofs
import SelfDb.Paging.Layers

/-! What the loaders lay into the address space: a reservation, and over it the
load rows in order. -/
namespace SelfDb
open Paging Binary

/-- The pages and the content of one segment at a load bias. -/
def segmentLayer (bias vaddr filesz memsz : Nat) (bytes : Bytes) (prot : Prot) : Layer where
  start := alignDown (wrap (bias + vaddr))
  length := sub64 (alignUp (wrap (wrap (bias + vaddr) + memsz))) (alignDown (wrap (bias + vaddr)))
  prot := prot
  content := ⟨wrap (bias + vaddr), bytes.take filesz⟩

/-- A reservation without content. -/
def reservedLayer (base length : Nat) : Layer := ⟨base, length, .noAccess, ⟨0, []⟩⟩

namespace SegmentRow

def layer (bias : Nat) (prot : Prot) (R : SegmentRow) : Layer :=
  segmentLayer bias (sizeT R.vaddr) (sizeT R.filesz) (sizeT R.memsz) R.bytes prot

/-- What `map_object` asks for: the row's protection and always PROT_WRITE. -/
def softProt (R : SegmentRow) : Prot :=
  ⟨columnInt R.r.columnInt64 ≠ 0, true, columnInt R.x.columnInt64 ≠ 0⟩

end SegmentRow

theorem mmapFixed_inv (mapped : mmapFixed os mem start length = some after) :
    length ≠ 0 ∧ after = mem.mapAnonymous start length .readWrite := by
  rw [mmapFixed] at mapped
  split at mapped
  · cases mapped
  · split at mapped
    · exact ⟨‹length ≠ 0›, (Option.some.inj mapped).symm⟩
    · cases mapped

theorem mapStack_inv (mapped : mapStack os length mem = .ok after) :
    ∃ base, os.reserve mem length = some base ∧
      after = mem.mapAnonymous base length .readWrite := by
  rw [mapStack] at mapped
  split at mapped
  · exact ⟨_, ‹_›, (Except.ok.inj mapped).symm⟩
  · cases mapped

theorem memcpy_inv (copied : memcpy mem dest src count = .ok after) :
    after = mem.store ⟨dest, src.take count⟩ := by
  rw [memcpy] at copied
  split at copied
  · exact (Except.ok.inj copied).symm
  · cases copied

theorem copySegment_inv (copied : copySegment mem dest src filesz = .ok after) :
    after = mem.store ⟨dest, (src.getD []).take filesz⟩ := by
  cases src with
  | none =>
    cases copied
    rw [Option.getD_none, List.take_nil]
    rfl
  | some bytes =>
    simp only [copySegment] at copied
    split at copied
    · exact memcpy_inv copied
    · rename_i zero
      cases copied
      rw [not_not.mp zero]
      rfl

theorem copyBuf_inv (copied : copyBuf mem dest buf filesz = .ok after) :
    after = mem.store ⟨dest, (buf.getD []).take filesz⟩ := by
  cases buf with
  | none =>
    cases copied
    rw [Option.getD_none, List.take_nil]
    rfl
  | some bytes => exact memcpy_inv copied

/-- The last protection of a span is the only one that is left. -/
theorem protect_store_mapAnonymous (mem : Memory) (start length : Nat) (first last : Prot)
    (w : Store) :
    ((mem.mapAnonymous start length first).store w).protect start length last =
      mem.lay ⟨start, length, last, w⟩ := by
  apply Memory.ext_prot
  · intro a
    rfl
  · funext page
    simp only [Memory.protect, Memory.lay, Memory.mapAnonymous, Memory.store_prot]
    split <;> rfl

theorem mapSegment_inv
    (mapped : mapSegment os bias vaddr filesz memsz src prot mem = .ok after) :
    after = mem.lay (segmentLayer bias vaddr filesz memsz (src.getD []) prot) ∧
      (segmentLayer bias vaddr filesz memsz (src.getD []) prot).length ≠ 0 := by
  simp only [mapSegment, bind_eq_ok_iff, orDie_eq_ok_iff, mprotect, Option.ite_none_right_eq_some,
    Option.some.injEq] at mapped
  obtain ⟨_, fixed, _, copied, _, rfl⟩ := mapped
  obtain ⟨positive, rfl⟩ := mmapFixed_inv fixed
  rw [copySegment_inv copied, protect_store_mapAnonymous]
  exact ⟨rfl, positive⟩

/-- The layer of a load row, writable; its protection is not certain when the
kernel may refuse `mprotect`. -/
def RowLaid (os : Os) (bias : Nat) (R : SegmentRow) (layer : Layer) : Prop :=
  layer.length ≠ 0 ∧ ∃ prot, layer = R.layer bias prot ∧ prot.write = true ∧
    (os.ProtectsMapped → prot = R.softProt)

theorem mapObjectRow_laid (mapped : mapObjectRow os bias R mem = .ok after) :
    ∃ layer, RowLaid os bias R layer ∧ after = mem.lay layer := by
  simp only [mapObjectRow, bind_eq_ok_iff, orDie_eq_ok_iff] at mapped
  obtain ⟨buf, blob, _, fixed, _, copied, result⟩ := mapped
  obtain ⟨positive, rfl⟩ := mmapFixed_inv fixed
  cases result
  rw [copyBuf_inv copied, copyBlob_inv blob, mprotect]
  split
  · rw [Option.getD_some, protect_store_mapAnonymous]
    exact ⟨R.layer bias R.softProt, ⟨positive, R.softProt, rfl, rfl, fun _ => rfl⟩, rfl⟩
  · rename_i refused
    refine ⟨R.layer bias .readWrite, ⟨positive, .readWrite, rfl, rfl, fun protects => ?_⟩, rfl⟩
    refine absurd (protects _ _ _ fun a within => ?_) refused
    exact Option.isSome_of_any (Memory.mapAnonymous_writable (alignDown_mod _) within mem)

theorem mapRows_laid {rows : List SegmentRow}
    (mapped : rows.foldlM (fun mem R => mapObjectRow os bias R mem) mem = .ok after) :
    ∃ layers, List.Forall₂ (RowLaid os bias) rows layers ∧ after = layers.foldl Memory.lay mem := by
  induction rows generalizing mem with
  | nil =>
    cases mapped
    exact ⟨[], .nil, rfl⟩
  | cons R rest ih =>
    rw [List.foldlM_cons, bind_eq_ok_iff] at mapped
    obtain ⟨next, step, later⟩ := mapped
    obtain ⟨layer, laid, rfl⟩ := mapObjectRow_laid step
    obtain ⟨layers, rows, rfl⟩ := ih later
    exact ⟨layer :: layers, .cons laid rows, rfl⟩

def spanLength (low high : Nat) : Nat := sub64 (alignUp high) (alignDown low)

theorem reserveSpan_laid (reserved : reserveSpan os low high true mem = .ok (bias, after)) :
    ∃ base, os.reserve mem (spanLength low high) = some base ∧ bias = sub64 base (alignDown low) ∧
      after = mem.lay (reservedLayer base (spanLength low high)) := by
  simp only [reserveSpan, if_true, bind_eq_ok_iff, orDie_eq_ok_iff, mmapAnywhere] at reserved
  obtain ⟨⟨base, mapped⟩, answer, result⟩ := reserved
  cases result
  split at answer
  · cases answer
  · rw [Option.map_eq_some_iff] at answer
    obtain ⟨_, chosen, same⟩ := answer
    cases same
    exact ⟨base, chosen, rfl, rfl⟩

namespace SelfObject

/-- The bounds pass of `map_object`. -/
def bounds (obj : SelfObject) : Nat × Nat := boundsLoop obj.conn.loadBounds.rows (2 ^ 64 - 1, 0)

/-- The reservation of an object in `mem`, at the place its load bias says, and its rows. -/
def Laid (os : Os) (mem : Memory) (obj : SelfObject) (layers : List Layer) : Prop :=
  ∃ base rows, layers = reservedLayer base (spanLength obj.bounds.1 obj.bounds.2) :: rows ∧
    os.reserve mem (spanLength obj.bounds.1 obj.bounds.2) = some base ∧
    obj.loadBias = sub64 base (alignDown obj.bounds.1) ∧
    List.Forall₂ (RowLaid os obj.loadBias) obj.conn.loadSegments.rows rows

end SelfObject

/-- Objects that are laid one after the other, each over what is there. -/
inductive ObjectsLaid (os : Os) : Memory → List SelfObject → List Layer → Prop where
  | nil (mem) : ObjectsLaid os mem [] []
  | cons : obj.Laid os mem layers → ObjectsLaid os (layers.foldl Memory.lay mem) rest more →
      ObjectsLaid os mem (obj :: rest) (layers ++ more)

theorem ObjectsLaid.append (first : ObjectsLaid os mem objs layers)
    (second : ObjectsLaid os (layers.foldl Memory.lay mem) others more) :
    ObjectsLaid os mem (objs ++ others) (layers ++ more) := by
  induction first with
  | nil => exact second
  | cons laid _ ih =>
    rw [List.append_assoc]
    rw [List.foldl_append] at second
    exact .cons laid (ih second)

theorem mapObject_laid (mapped : mapObject world path slot state = .ok (obj, after)) :
    ∃ layers, obj.Laid world.os state.memory layers ∧
      after.memory = layers.foldl Memory.lay state.memory := by
  simp only [mapObject, bind_eq_ok_iff, orDie_eq_ok_iff] at mapped
  obtain ⟨conn, opened, _, _, ⟨bias, _⟩, reserved, _, rows, syms, published, result⟩ := mapped
  cases result
  obtain ⟨base, chosen, place, rfl⟩ := reserveSpan_laid reserved
  obtain ⟨layers, laid, rfl⟩ := mapRows_laid rows
  exact ⟨_, ⟨base, layers, rfl, chosen, place, laid⟩, rfl⟩

theorem libsLoop_laid (looped : libsLoop world pathOf rows libs state = .ok (out, after)) :
    ∃ added layers, out = libs ++ added ∧ ObjectsLaid world.os state.memory added layers ∧
      after.memory = layers.foldl Memory.lay state.memory := by
  induction rows generalizing libs state with
  | nil =>
    cases looped
    exact ⟨[], [], (List.append_nil _).symm, .nil _, rfl⟩
  | cons row rest ih =>
    simp only [libsLoop, bind_eq_ok_iff] at looped
    obtain ⟨path, located, ⟨lib, next⟩, mapped, later⟩ := looped
    obtain ⟨layers, laid, memory⟩ := mapObject_laid mapped
    obtain ⟨added, more, rfl, others, final⟩ := ih later
    rw [memory] at others final
    refine ⟨lib :: added, layers ++ more, ?_, .cons laid others, ?_⟩
    · rw [List.append_assoc]
      rfl
    · rw [final, List.foldl_append]

end SelfDb
