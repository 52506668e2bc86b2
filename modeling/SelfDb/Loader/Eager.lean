import SelfDb.Loader.Relocation

/-! Eager binding: what every slot holds when the program starts, for slots that
do not share an address. -/
namespace SelfDb
open Paging Binary Binding

/-- The files are databases that do not change during the run. -/
def World.Stores (world : World) (files : String → Option Database) : Prop :=
  ∀ path, world.files path = (files path).map Database.connect

theorem Bound.file (bound : Bound world path out) :
    ∀ obj ∈ out.objects, ∃ file, world.files file = some obj.conn := by
  intro obj member
  rw [Linked.objects, Linked.closure, List.mem_append, List.mem_cons] at member
  rcases member with (rfl | needed) | preload
  · exact ⟨path, bound.main⟩
  · obtain ⟨_, _, file, _, opened⟩ := exists_of_forall₂ bound.needed obj needed
    exact ⟨file, opened⟩
  · obtain ⟨file, _, opened⟩ := exists_of_forall₂ bound.preloads obj preload
    exact ⟨file, opened⟩

theorem exportFind_mem (found : exportFind syms name ≠ 0) :
    ∃ s ∈ syms, s.name = name ∧ s.addr = exportFind syms name := by
  induction syms with
  | nil => exact absurd rfl found
  | cons s next ih =>
    rw [exportFind] at found ⊢
    split at found
    · rename_i named
      exact ⟨s, List.mem_cons_self, named, (if_pos named).symm⟩
    · rename_i other
      obtain ⟨t, member, named, address⟩ := ih found
      exact ⟨t, List.mem_cons_of_mem _ member, named, by rw [if_neg other, address]⟩

namespace Linked

/-- `S` is the address of an exported `.dynsym` row of that name in a mapped object. -/
def Defines (out : Linked) (files : String → Option Database) (name : String) (S : Nat) : Prop :=
  ∃ provider ∈ out.objects, ∃ file db, files file = some db ∧ provider.conn = db.connect ∧
    ∃ s ∈ db.symbols.rows, s.name = name ∧ s.exported = 1 ∧ s.source = .dynsym ∧
      ∃ value, s.value = some value ∧ S = wrap (provider.loadBias + sizeT value)

/-- What the slot of a relocation row is to hold. -/
def Resolves (out : Linked) (files : String → Option Database) (slot : Slot) (value : Nat) : Prop :=
  (columnInt slot.row.rtype = rRelative ∧ value = wrap (slot.bias + sizeT slot.row.addend)) ∨
    ∃ name S, slot.row.name = some name ∧ out.Defines files name S ∧
      ((columnInt slot.row.rtype = rJumpSlot ∧ value = S) ∨
        (columnInt slot.row.rtype ∈ [rGlobDat, r64] ∧ value = wrap (S + sizeT slot.row.addend)))

end Linked

theorem exports_connect {db : Database} (exported : row ∈ db.connect.exports.rows) :
    ∃ s ∈ db.symbols.rows, s.name = row.1 ∧ s.exported = 1 ∧ s.source = .dynsym ∧
      s.value = some row.2 := by
  obtain ⟨s, member, selected⟩ := List.mem_filterMap.mp exported
  split at selected
  · rename_i holds
    obtain ⟨value, found, rfl⟩ := Option.map_eq_some_iff.mp selected
    exact ⟨s, member, rfl, holds.1, holds.2, found⟩
  · cases selected

/-- An address that is found is that of a definition. -/
theorem Bound.defines {files : String → Option Database} (bound : Bound world path out)
    (stored : world.Stores files) (found : exportFind out.syms name ≠ 0) :
    out.Defines files name (exportFind out.syms name) := by
  obtain ⟨s, member, rfl, address⟩ := exportFind_mem found
  rw [bound.table, mem_stacked] at member
  obtain ⟨provider, mapped, published⟩ := member
  obtain ⟨row, exported, rfl⟩ := List.mem_map.mp published
  obtain ⟨file, opened⟩ := bound.file provider mapped
  rw [stored file, Option.map_eq_some_iff] at opened
  obtain ⟨db, present, conn⟩ := opened
  have listed := (List.mem_filter.mp exported).1
  rw [← conn] at listed
  obtain ⟨s, symbol, named, flag, source, value⟩ := exports_connect listed
  exact ⟨provider, mapped, file, db, present, conn.symm, s, symbol, named, flag, source, row.2,
    value, address.symm⟩

theorem exportFind_lt (bound : Bound world path out) (name : String) :
    exportFind out.syms name < 2 ^ 64 := by
  by_cases found : exportFind out.syms name = 0
  · omega
  · obtain ⟨s, member, _, address⟩ := exportFind_mem found
    rw [bound.table, mem_stacked] at member
    obtain ⟨provider, _, published⟩ := member
    obtain ⟨row, _, rfl⟩ := List.mem_map.mp published
    rw [← address]
    exact Nat.mod_lt _ (by decide)

/-- The value that `relocate` computes is the one the slot is to hold. -/
theorem Bound.resolves {files : String → Option Database} (bound : Bound world path out)
    (stored : world.Stores files) {slot : Slot}
    (resolved : relocValue out.syms slot.bias slot.row = .ok value) :
    out.Resolves files slot value := by
  by_cases relative : columnInt slot.row.rtype = rRelative
  · rw [relocValue, if_pos relative] at resolved
    exact .inl ⟨relative, (Except.ok.inj resolved).symm⟩
  · by_cases symbolic : columnInt slot.row.rtype ∈ [rGlobDat, rJumpSlot, r64]
    · obtain ⟨name, named, found, rfl⟩ := relocValue_symbolic symbolic resolved
      refine .inr ⟨name, _, named, bound.defines stored found, ?_⟩
      by_cases jump : columnInt slot.row.rtype = rJumpSlot
      · refine .inl ⟨jump, ?_⟩
        rw [if_pos jump, Nat.add_zero, wrap, Nat.mod_eq_of_lt (exportFind_lt bound name)]
      · refine .inr ⟨?_, by rw [if_neg jump]⟩
        simpa [jump] using symbolic
    · simp only [List.mem_cons, List.not_mem_nil, or_false] at symbolic
      rw [relocValue, if_neg relative, if_neg symbolic] at resolved
      cases resolved

/-- Slots apart store apart, in any order. -/
theorem stores_exclusive {slots order : List Slot} (apart : slots.Pairwise Slot.Apart)
    (perm : order.Perm slots) (syms : List Sym) :
    ((order.map (Slot.store syms)).map Store.byteAt).Pairwise Exclusive := by
  rw [List.pairwise_map, List.pairwise_map]
  have spread := perm.symm.pairwise apart fun separate a both => separate a both.symm
  exact spread.imp fun separate => separate.exclusive syms

/-- In a run that reaches the program, every slot holds its value. Objects in any
order, with their rows in any order, are relocated to the same memory. -/
theorem runSelfld_relocated {files : String → Option Database} (stored : world.Stores files)
    (reached : runSelfld world maindb path mem = .ok out) (apart : out.slots.Pairwise Slot.Apart) :
    (∀ slot ∈ out.slots, ∃ value, out.Resolves files slot value ∧
      out.memory.load slot.address 8 = leBytes 8 value) ∧
    ∃ layers, ObjectsLaid world.os mem out.objects layers ∧
      ∀ objs : List SelfObject, (objs.flatMap SelfObject.slots).Perm out.slots →
        objs.foldlM (relocate out.syms) (layers.foldl Memory.lay mem) = .ok out.memory := by
  have bound := runSelfld_bound reached
  obtain ⟨layers, laid, relocated⟩ := runSelfld_laid reached
  rw [relocateObjects_eq] at relocated
  obtain ⟨ready, final⟩ := (relocateSlots_eq_ok_iff _ _ _ _).mp relocated
  have memory : ∀ {order : List Slot}, order.Perm out.slots →
      out.memory = (order.map (Slot.store out.syms)).foldl Memory.store
        (layers.foldl Memory.lay mem) := by
    intro order perm
    have same := (out.schedule_perm.trans perm.symm).map (Slot.store out.syms)
    exact final.trans (Memory.foldl_store_perm same
      (stores_exclusive apart out.schedule_perm out.syms) _)
  refine ⟨fun slot member => ?_, layers, laid, fun objs perm => ?_⟩
  · obtain ⟨⟨value, resolved⟩, _⟩ := ready slot (out.schedule_perm.mem_iff.mpr member)
    refine ⟨value, bound.resolves stored resolved, ?_⟩
    have held := Memory.foldl_store_load (stores_exclusive apart (.refl _) out.syms)
      (List.mem_map_of_mem member)
      (Nat.mod_lt _ (by decide)) ((leBytes_length 8 _).le.trans (by decide))
        (layers.foldl Memory.lay mem)
    rw [memory (.refl _)]
    rw [Slot.store, resolved, leBytes_length] at held
    exact held
  · rw [relocateObjects_eq]
    refine (relocateSlots_eq_ok_iff _ _ _ _).mpr ⟨fun slot member => ?_, memory perm⟩
    exact ready slot (out.schedule_perm.mem_iff.mpr (perm.mem_iff.mp member))

end SelfDb
