import SelfDb.Paging.Stack

/-! Frames: the addresses that an operation on the memory leaves as they were. -/
namespace Paging

def IsMapped (mem : Memory) (a : Nat) : Prop := (mem.prot (a / pageSize)).isSome

/-- The address is mapped and holds the byte. -/
def Resident (mem : Memory) (a : Nat) (b : UInt8) : Prop := mem.byte a = b ∧ IsMapped mem a

/-- The byte and its page are as they were. -/
structure Untouched (before after : Memory) (a : Nat) : Prop where
  byte : after.byte a = before.byte a
  prot : after.prot (a / pageSize) = before.prot (a / pageSize)

namespace Untouched

theorem trans (first : Untouched before mem a) (second : Untouched mem after a) :
    Untouched before after a :=
  ⟨second.byte.trans first.byte, second.prot.trans first.prot⟩

theorem isMapped (same : Untouched before after a) (mapped : IsMapped before a) :
    IsMapped after a := by
  rw [IsMapped, same.prot]
  exact mapped

theorem resident (same : Untouched before after a) (resident : Resident before a b) :
    Resident after a b := ⟨same.byte.trans resident.1, same.isMapped resident.2⟩

theorem lay (off : layer.byteAt a = none) (page : ¬ layer.OnPage (a / pageSize)) (mem : Memory) :
    Untouched mem (mem.lay layer) a := by
  refine ⟨?_, ?_⟩
  · rw [Memory.lay_byte, off]
    rfl
  · rw [Memory.lay_prot, Layer.protAt, if_neg page, Option.none_or]

theorem unmap (elsewhere : ¬ InSpan start length (a / pageSize * pageSize)) (mem : Memory) :
    Untouched mem (mem.unmap start length) a := ⟨rfl, if_neg elsewhere⟩

theorem stores {stores : List Store} (off : ∀ w ∈ stores, w.byteAt a = none) (mem : Memory) :
    Untouched mem (stores.foldl Memory.store mem) a := by
  refine ⟨?_, by rw [Memory.foldl_store_prot]⟩
  have none : lastAt (stores.map Store.byteAt) a = none := by
    rw [lastAt_eq_none_iff, List.forall_mem_map]
    exact off
  rw [Memory.foldl_store_byte, none]
  rfl

end Untouched

/-- A store of a region does not reach out of it. -/
theorem Store.Within.byteAt_none {w : Store} (within : w.Within low high) (top : high ≤ 2 ^ 64)
    (small : a < 2 ^ 64) (outside : ¬ (low ≤ a ∧ a < high)) : w.byteAt a = none := by
  by_contra reached
  have inside := (within.mono (Nat.zero_le low) top).reaches reached
  have same : wrap a = a := Nat.mod_eq_of_lt small
  obtain ⟨lower, higher⟩ := within
  omega

/-- When all layers are writable, so are the pages that one of them covers. -/
theorem foldl_lay_writable {layers : List Layer} (all : ∀ layer ∈ layers, layer.prot.write = true)
    (on : ∃ layer ∈ layers, layer.OnPage (a / pageSize)) (mem : Memory) :
    (layers.foldl Memory.lay mem).Writable a := by
  rw [Memory.Writable, Memory.foldl_lay_prot]
  cases decides : lastAt (layers.map Layer.protAt) (a / pageSize) with
  | none =>
    rw [lastAt_eq_none_iff, List.forall_mem_map] at decides
    obtain ⟨layer, member, here⟩ := on
    have off := decides layer member
    rw [Layer.protAt, if_pos here] at off
    cases off
  | some prot =>
    obtain ⟨before, patch, after, split, found, _⟩ := (lastAt_eq_some_iff _ _ _).mp decides
    have listed : patch ∈ layers.map Layer.protAt := by simp [split]
    obtain ⟨layer, member, rfl⟩ := List.mem_map.mp listed
    rw [Layer.protAt, Option.ite_none_right_eq_some] at found
    rw [Option.some_or, Option.any_some, ← Option.some.inj found.2]
    exact all layer member

theorem Untouched.writable (same : Untouched before after a) (writable : before.Writable a) :
    after.Writable a := by
  rw [Memory.Writable, same.prot]
  exact writable

end Paging
