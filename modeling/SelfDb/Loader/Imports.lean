import SelfDb.Loader.Relocation

/-! Imports that no mapped object exports. The converter records whether such a
symbol is weak, and `relocate` does not ask for it. -/
namespace SelfDb
open Paging Binary

/-- `run_selfld` until all objects are mapped. -/
def mapClosure (world : World) (maindb : Connection) (path : String) (mem : Memory) :
    Run (SelfObject × List SelfObject × Linking) := do
  let em ← selfMetaInt maindb .em
  orDie (.machine em) (if em = emX86_64 then some () else none)
  let (main, state) ← mapObject world path (.ok ()) ⟨mem, []⟩
  let (libs, state) ← libsLoop world (resolveNeeded world) main.conn.needed.rows [] state
  let (libs, state) ← libsLoop world .ok (preloadPaths world) libs state
  return (main, libs, state)

/-- A relocation of a mapped object, with the row of its symbol. -/
structure Reference where
  bias : Nat
  row : RelocationRow
  symbol : Option SymbolRow

def Database.symbolAt (db : Database) (symbol : Option Int) : Option SymbolRow :=
  symbol.bind fun id => db.symbols.rows.find? (·.id = id)

def references (db : Database) (obj : SelfObject) : List Reference :=
  db.relocations.rows.map fun r => ⟨obj.loadBias, r, db.symbolAt r.symbol⟩

namespace Reference

/-- What the statement of `relocate` yields for it. -/
def slot (ref : Reference) : Slot :=
  ⟨ref.bias, ref.row.offset, ref.row.rtype, ref.row.addend, ref.symbol.map (·.name)⟩

/-- The symbol is undefined with this binding, and no object exports its name. -/
def Missing (binding : String) (objects : List SelfObject) (ref : Reference) : Prop :=
  columnInt ref.row.rtype ∈ [rGlobDat, rJumpSlot, r64] ∧ ∃ sym, ref.symbol = some sym ∧
    sym.bind = some binding ∧ sym.defined = 0 ∧ ∀ obj ∈ objects, ¬ obj.Exports sym.name

/-- What the slot of a missing weak symbol is to hold. -/
def absent (ref : Reference) : Nat := if columnInt ref.row.rtype = r64 then sizeT ref.row.addend
    else 0

end Reference

/-- The relocations in the order in which `run_selfld` comes to them. -/
def referencesOf (dbs : List Database) (objects : List SelfObject) : List Reference :=
  (List.zipWith references dbs objects).flatten

/-- A missing weak symbol is stored as absent and the run goes on; a missing global one stops it. -/
structure HonoursBinding (run : Run Linked) (objects : List SelfObject) (refs : List Reference)
    (state : Linking) : Prop where
  weak : ∀ before ref after, refs = before ++ ref :: after → ref.Missing "weak" objects →
    ∀ mem, (before.map Reference.slot).foldlM (relocateSlot state.syms) state.memory = .ok mem →
      relocateSlot state.syms mem ref.slot =
        .ok (mem.store ⟨ref.slot.address, leBytes 8 ref.absent⟩)
  global : ∀ ref ∈ refs, ref.Missing "global" objects → ∃ stop, run = .error stop

theorem symbolName_eq (db : Database) (symbol : Option Int) :
    db.symbolName symbol = (db.symbolAt symbol).map (·.name) := by
  rw [Database.symbolName, Database.symbolAt, Option.map_bind]
  rfl

theorem slots_references {db : Database} {obj : SelfObject} (conn : obj.conn = db.connect) :
    obj.slots = (references db obj).map Reference.slot := by
  rw [SelfObject.slots, conn, references, List.map_map]
  refine (List.map_map ..).trans (List.map_congr_left fun r _ => ?_)
  simp only [Function.comp_apply, Reference.slot, symbolName_eq]

theorem slots_referencesOf
    (stored : List.Forall₂ (fun db obj => obj.conn = Database.connect db) dbs objects) :
    objects.flatMap SelfObject.slots = (referencesOf dbs objects).map Reference.slot := by
  induction stored with
  | nil => rfl
  | cons conn _ ih =>
    rw [List.flatMap_cons, ih, slots_references conn, referencesOf, referencesOf,
      List.zipWith_cons_cons, List.flatten_cons, List.map_append]

/-- The mapping phase, then one pass over all relocations. -/
theorem runSelfld_mapClosure (world : World) (maindb : Connection) (path : String) (mem : Memory) :
    runSelfld world maindb path mem = (mapClosure world maindb path mem >>= fun mapped => do
      let mem ← ((mapped.2.1 ++ [mapped.1]).flatMap SelfObject.slots).foldlM
        (relocateSlot mapped.2.2.syms)
        mapped.2.2.memory
      return ⟨mapped.1, mapped.2.1, mapped.2.2.syms, mem⟩) := by
  simp only [runSelfld, mapClosure, ← relocateObjects_eq, List.foldlM_append, List.foldlM_cons,
    List.foldlM_nil, bind_assoc, pure_bind, bind_pure]

theorem mapClosure_inv (mapped : mapClosure world maindb path mem = .ok (main, libs, state)) :
    world.files path = some main.conn ∧ state.syms = Binding.stacked SelfObject.definitions
      (main :: libs) := by
  simp only [mapClosure, bind_eq_ok_iff] at mapped
  obtain ⟨_, _, _, _, ⟨_, first⟩, mapped, ⟨needed, second⟩, looped, ⟨_, third⟩, preloaded,
    result⟩ := mapped
  cases result
  obtain ⟨opened, published⟩ := mapObject_inv mapped
  obtain ⟨_, rfl, _, table⟩ := libsLoop_inv looped
  obtain ⟨_, rfl, _, whole⟩ := libsLoop_inv preloaded
  refine ⟨opened, ?_⟩
  rw [whole, table, published]
  simp [Binding.stacked]

/-- The binding makes no difference: the name is not found. -/
theorem Reference.Missing.unresolved {ref : Reference} (missing : ref.Missing binding objects)
    (table : syms = Binding.stacked SelfObject.definitions objects) :
    ∃ name, relocValue syms ref.bias ref.slot.row = .error (.die (.unresolved (some name))) := by
  obtain ⟨symbolic, sym, found, _, _, unexported⟩ := missing
  have named : ref.slot.row.name = some sym.name := by
    rw [slot, found]
    rfl
  have unfound : exportFind syms sym.name = 0 := by
    have skipped := exportFind_skip unexported []
    rwa [List.append_nil, ← table] at skipped
  have other : columnInt ref.row.rtype ≠ rRelative := by
    intro relative
    rw [relative] at symbolic
    exact absurd symbolic (by decide)
  simp only [List.mem_cons, List.not_mem_nil, or_false] at symbolic
  have type : columnInt ref.slot.row.rtype = columnInt ref.row.rtype := rfl
  refine ⟨sym.name, ?_⟩
  rw [relocValue, type, if_neg other, if_pos symbolic, named]
  exact if_pos unfound

theorem Reference.Missing.not_ready {ref : Reference} (missing : ref.Missing binding objects)
    (table : syms = Binding.stacked SelfObject.definitions objects) (mem : Memory) :
    ¬ ref.slot.Ready syms mem := by
  rintro ⟨⟨value, resolved⟩, _⟩
  obtain ⟨name, unresolved⟩ := missing.unresolved table
  cases unresolved.symm.trans resolved

/-- A missing global symbol stops every run. -/
theorem runSelfld_global (mapped : mapClosure world maindb path mem = .ok (main, libs, state))
    (stored : List.Forall₂ (fun db obj => obj.conn = Database.connect db) dbs (libs ++ [main]))
    (member : ref ∈ referencesOf dbs (libs ++ [main]))
    (missing : ref.Missing binding (main :: libs)) :
    ∃ stop, runSelfld world maindb path mem = .error stop := by
  cases run : runSelfld world maindb path mem with
  | error stop => exact ⟨stop, rfl⟩
  | ok out =>
    rw [runSelfld_mapClosure, mapped, ok_bind, slots_referencesOf stored, bind_eq_ok_iff] at run
    obtain ⟨_, relocated, _⟩ := run
    have ready := ((relocateSlots_eq_ok_iff _ _ _ _).mp relocated).1 ref.slot
      (List.mem_map_of_mem member)
    exact absurd ready (missing.not_ready (mapClosure_inv mapped).2 _)

/-- A run honours the binding of its missing imports exactly when another relocation
stops it before the first weak one. -/
theorem runSelfld_weak_iff (mapped : mapClosure world maindb path mem = .ok (main, libs, state))
    (stored : List.Forall₂ (fun db obj => obj.conn = Database.connect db) dbs (libs ++ [main])) :
    HonoursBinding (runSelfld world maindb path mem) (main :: libs)
      (referencesOf dbs (libs ++ [main])) state ↔
      ∀ before ref after, referencesOf dbs (libs ++ [main]) = before ++ ref :: after →
        ref.Missing "weak" (main :: libs) → ∃ earlier ∈ before,
          ¬ earlier.slot.Ready state.syms state.memory := by
  have table := (mapClosure_inv mapped).2
  constructor
  · intro honours before ref after split missing
    by_contra ready
    push Not at ready
    have reached := (relocateSlots_eq_ok_iff state.syms state.memory _
      (before.map Reference.slot)).mpr
      ⟨List.forall_mem_map.mpr ready, rfl⟩
    have goes := honours.weak before ref after split missing _ reached
    exact missing.not_ready table _ ((relocateSlot_eq_ok_iff _ _ _ _).mp goes).1
  · intro stops
    refine ⟨fun before ref after split missing mem reached => ?_, fun ref member missing => ?_⟩
    · obtain ⟨earlier, member, unready⟩ := stops before ref after split missing
      have ready := ((relocateSlots_eq_ok_iff _ _ _ _).mp reached).1 earlier.slot
        (List.mem_map_of_mem member)
      exact absurd ready unready
    · exact runSelfld_global mapped stored member missing

/-- A program that calls `hook` if anything defines it. -/
def optionalHook : Database :=
  { exporting 0 .empty ⟨[⟨1, 0x10, rGlobDat, some 1, 0⟩], List.pairwise_singleton _ _⟩ with
    symbols := ⟨[⟨1, "hook", none, some 0, some 0, some "notype", some "weak", some "default",
      some 0, 0, 0, .dynsym⟩], List.pairwise_singleton _ _⟩ }

def hookWorld : World where
  os := .twoHoles
  files path := if path = "/main.self" then some optionalHook.connect else none
  resolver := none

theorem hookWorld_mapped : ∃ main state,
    mapClosure hookWorld optionalHook.connect "/main.self" unmappedSpace = .ok (main, [], state) ∧
      List.Forall₂ (fun db obj => obj.conn = Database.connect db) [optionalHook]
        ([] ++ [main]) := by
  have ran : ∃ mapped, mapClosure hookWorld optionalHook.connect "/main.self" unmappedSpace =
      .ok mapped ∧
      mapped.2.1.length = 0 := exists_of_map_decide (by decide +kernel)
  obtain ⟨⟨main, libs, state⟩, mapped, alone⟩ := ran
  obtain rfl := List.length_eq_zero_iff.mp alone
  have opened := (mapClosure_inv mapped).1
  exact ⟨main, state, mapped, .cons (Option.some.inj opened).symm .nil⟩

theorem runSelfld_weak_iff_hookWorld : ∃ main state,
    mapClosure hookWorld optionalHook.connect "/main.self" unmappedSpace = .ok (main, [], state) ∧
      (HonoursBinding (runSelfld hookWorld optionalHook.connect "/main.self" unmappedSpace) [main]
          (referencesOf [optionalHook] [main]) state ↔
        ∀ before ref after, referencesOf [optionalHook] [main] = before ++ ref :: after →
          ref.Missing "weak" [main] → ∃ earlier ∈ before,
            ¬ earlier.slot.Ready state.syms state.memory) := by
  obtain ⟨main, state, mapped, stored⟩ := hookWorld_mapped
  exact ⟨main, state, mapped, runSelfld_weak_iff mapped stored⟩

/-- Nothing defines `hook`, and the run stops at it. -/
theorem runSelfld_optional_stops : ∃ main state,
    mapClosure hookWorld optionalHook.connect "/main.self" unmappedSpace = .ok (main, [], state) ∧
      List.Forall₂ (fun db obj => obj.conn = Database.connect db) [optionalHook] [main] ∧
      runSelfld hookWorld optionalHook.connect "/main.self" unmappedSpace =
        .error (.die (.unresolved (some "hook"))) ∧
      ¬ HonoursBinding (runSelfld hookWorld optionalHook.connect "/main.self" unmappedSpace) [main]
        (referencesOf [optionalHook] [main]) state := by
  obtain ⟨main, state, mapped, stored⟩ := hookWorld_mapped
  refine ⟨main, state, mapped, stored, error_of_map (by decide +kernel), fun honours => ?_⟩
  have unexported : ∀ obj ∈ [main], ¬ obj.Exports "hook" := by
    rw [List.forall_mem_singleton, SelfObject.Exports, (List.forall₂_cons.mp stored).1]
    decide
  have symbolic : columnInt rGlobDat ∈ [rGlobDat, rJumpSlot, r64] := by decide
  have missing : Reference.Missing "weak" [main] ⟨main.loadBias, ⟨1, 0x10, rGlobDat, some 1, 0⟩,
      optionalHook.symbolAt (some 1)⟩ := ⟨symbolic, _, rfl, rfl, rfl, unexported⟩
  have stored' := honours.weak [] _ [] rfl missing state.memory rfl
  exact missing.not_ready (mapClosure_inv mapped).2 _
    ((relocateSlot_eq_ok_iff _ _ _ _).mp stored').1

end SelfDb
