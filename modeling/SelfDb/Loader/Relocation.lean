import SelfDb.Loader.Layout

/-! What relocation leaves in memory. Every relocation row is one store of eight
bytes, and its value does not depend on the memory. -/
namespace SelfDb
open Paging Binary

namespace Linked

theorem objects_eq (out : Linked) : out.objects = out.main :: out.libs := by
  simp only [objects, closure, needed, preloads, List.cons_append, List.take_append_drop]

end Linked

/-- The mapping phase of a run, and the relocation phase on what it leaves. -/
theorem runSelfld_laid (reached : runSelfld world maindb path mem = .ok out) :
    ∃ layers, ObjectsLaid world.os mem out.objects layers ∧
      (out.libs ++ [out.main]).foldlM (relocate out.syms) (layers.foldl Memory.lay mem) =
      .ok out.memory := by
  simp only [runSelfld, bind_eq_ok_iff] at reached
  obtain ⟨_, _, _, _, ⟨main, first⟩, mapped, ⟨needed, second⟩, looped, ⟨libs, third⟩, preloaded, _,
    bound, last, boundMain, result⟩ := reached
  cases result
  obtain ⟨layers, laid, memory⟩ := mapObject_laid mapped
  obtain ⟨added, more, rfl, others, memory'⟩ := libsLoop_laid looped
  obtain ⟨preloads, rest, rfl, preloadsLaid, memory''⟩ := libsLoop_laid preloaded
  rw [memory] at others memory'
  rw [memory'] at preloadsLaid memory''
  rw [← List.foldl_append, ← List.foldl_append] at memory''
  refine ⟨layers ++ (more ++ rest), ?_, ?_⟩
  · rw [Linked.objects_eq]
    exact .cons laid (others.append preloadsLaid)
  · rw [List.foldlM_append, bind_eq_ok_iff]
    rw [memory''] at bound
    exact ⟨_, bound, by rw [List.foldlM_cons, boundMain]; rfl⟩

theorem enterSelfld_inv (entered : enterSelfld world maindb path mem = .ok (out, final)) :
    runSelfld world maindb path mem = .ok out ∧
      mapStack world.os selfldStackSize out.memory = .ok final := by
  simp only [enterSelfld, bind_eq_ok_iff] at entered
  obtain ⟨_, reached, _, stack, result⟩ := entered
  cases result
  exact ⟨reached, stack⟩

/-! One relocation. -/

/-- A relocation row with the load bias of its object. -/
structure Slot where
  bias : Nat
  row : BoundRelocation
  deriving DecidableEq

namespace Slot

/-- `(uint64_t *)(obj->load_bias + off)`. -/
def address (slot : Slot) : Nat := wrap (slot.bias + sizeT slot.row.offset)

def store (syms : List Sym) (slot : Slot) : Store :=
  ⟨slot.address, leBytes 8 ((relocValue syms slot.bias slot.row).toOption.getD 0)⟩

/-- The row has a value, and the slot is writable. -/
def Ready (syms : List Sym) (mem : Memory) (slot : Slot) : Prop :=
  (∃ value, relocValue syms slot.bias slot.row = .ok value) ∧
    ∀ k < 8, mem.Writable (wrap (slot.address + k))

/-- `a` is one of the eight addresses of the slot. -/
def Holds (slot : Slot) (a : Nat) : Prop := sub64 a slot.address < 8

instance (slot : Slot) (a : Nat) : Decidable (slot.Holds a) := inferInstanceAs (Decidable (_ < _))

theorem holds_iff {slot : Slot} {a : Nat} : slot.Holds a ↔
    ∃ k < 8, wrap a = wrap (slot.address + k) := by
  simp only [Holds, address, sub64, wrap]
  constructor
  · intro near
    exact ⟨_, near, by omega⟩
  · rintro ⟨k, bound, same⟩
    omega

/-- Addresses count modulo 2^64. -/
theorem holds_wrap {slot : Slot} {a : Nat} : slot.Holds (wrap a) ↔ slot.Holds a := by
  rw [holds_iff, holds_iff, wrap, wrap, Nat.mod_mod]

def Apart (first second : Slot) : Prop := ∀ a, ¬ (first.Holds a ∧ second.Holds a)

theorem store_byteAt_eq_none_iff (syms : List Sym) (slot : Slot) (a : Nat) :
    (slot.store syms).byteAt a = none ↔ ¬ slot.Holds a := by
  rw [store, Store.byteAt, List.getElem?_eq_none_iff, leBytes_length, Holds, not_lt]

theorem Apart.exclusive {first second : Slot} (apart : first.Apart second) (syms : List Sym) :
    Exclusive (first.store syms).byteAt (second.store syms).byteAt := by
  intro a
  rw [store_byteAt_eq_none_iff, store_byteAt_eq_none_iff]
  exact not_and_or.mp (apart a)

end Slot

def relocateSlot (syms : List Sym) (mem : Memory) (slot : Slot) : Run Memory :=
  relocateRow syms slot.bias mem slot.row

theorem relocateSlot_eq_ok_iff (syms : List Sym) (mem after : Memory) (slot : Slot) :
    relocateSlot syms mem slot = .ok after ↔ slot.Ready syms mem ∧
      after = mem.store (slot.store syms) := by
  rw [relocateSlot, relocateRow, bind_eq_ok_iff]
  constructor
  · rintro ⟨value, resolved, copied⟩
    have stored := memcpy_inv copied
    rw [memcpy] at copied
    split at copied
    · rename_i possible
      refine ⟨⟨⟨value, resolved⟩, possible.2⟩, ?_⟩
      rw [stored, Slot.store, resolved, List.take_of_length_le (leBytes_length 8 _).le]
      rfl
    · cases copied
  · rintro ⟨⟨⟨value, resolved⟩, writable⟩, rfl⟩
    refine ⟨value, resolved, ?_⟩
    rw [memcpy, if_pos ⟨(leBytes_length 8 _).ge, writable⟩, Slot.store, resolved,
      List.take_of_length_le (leBytes_length 8 _).le]
    rfl

theorem Slot.Ready.congr {mem mem' : Memory} (same : mem.prot = mem'.prot) {slot : Slot}
    (ready : slot.Ready syms mem) : slot.Ready syms mem' := by
  simpa only [Slot.Ready, Memory.Writable, same] using ready

/-- Relocations complete exactly when each of them can, and store their values in order. -/
theorem relocateSlots_eq_ok_iff (syms : List Sym) (mem after : Memory) (slots : List Slot) :
    slots.foldlM (relocateSlot syms) mem = .ok after ↔
      (∀ slot ∈ slots, slot.Ready syms mem) ∧
      after = (slots.map (Slot.store syms)).foldl Memory.store mem := by
  induction slots generalizing mem with
  | nil => simp [pure, Except.pure, eq_comm]
  | cons slot rest ih =>
    have same : (mem.store (slot.store syms)).prot = mem.prot := Memory.store_prot _ _
    rw [List.foldlM_cons, bind_eq_ok_iff, List.forall_mem_cons, List.map_cons, List.foldl_cons,
      and_assoc]
    constructor
    · rintro ⟨next, step, later⟩
      obtain ⟨ready, rfl⟩ := (relocateSlot_eq_ok_iff syms mem next slot).mp step
      obtain ⟨others, result⟩ := (ih _).mp later
      exact ⟨ready, fun other member => (others other member).congr same, result⟩
    · rintro ⟨ready, others, result⟩
      exact ⟨_, (relocateSlot_eq_ok_iff syms mem _ slot).mpr ⟨ready, rfl⟩,
        (ih _).mpr ⟨fun other member => (others other member).congr same.symm, result⟩⟩

/-! All relocations of a run. -/

def SelfObject.slots (obj : SelfObject) : List Slot :=
  obj.conn.relocations.rows.map fun r => ⟨obj.loadBias, r⟩

theorem relocate_eq (syms : List Sym) (mem : Memory) (obj : SelfObject) :
    relocate syms mem obj = obj.slots.foldlM (relocateSlot syms) mem := by
  rw [relocate, SelfObject.slots, List.foldlM_map]
  rfl

/-- Relocating objects one after the other is relocating their slots in that order. -/
theorem relocateObjects_eq (syms : List Sym) (mem : Memory) (objs : List SelfObject) :
    objs.foldlM (relocate syms) mem = (objs.flatMap SelfObject.slots).foldlM
      (relocateSlot syms) mem := by
  induction objs generalizing mem with
  | nil => rfl
  | cons obj rest ih =>
    rw [List.foldlM_cons, List.flatMap_cons, List.foldlM_append, relocate_eq]
    exact congrArg _ (funext fun next => ih next)

namespace Linked

def slots (out : Linked) : List Slot := out.objects.flatMap SelfObject.slots

/-- The slots in the order in which `run_selfld` relocates them. -/
def schedule (out : Linked) : List Slot := (out.libs ++ [out.main]).flatMap SelfObject.slots

theorem schedule_perm (out : Linked) : out.schedule.Perm out.slots := by
  rw [schedule, slots, objects_eq]
  exact (List.perm_append_singleton out.main out.libs).flatMap_right SelfObject.slots

end Linked

end SelfDb
