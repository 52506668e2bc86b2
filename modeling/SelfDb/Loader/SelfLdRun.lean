import SelfDb.Loader.Eager
import SelfDb.Loader.HandOff
import SelfDb.Loader.SelfLdStack

/-! `run_selfld` as a whole: the programs of all objects side by side in memory when the main
program is entered, outside the slots of the relocations, and all that was mapped as it was. -/
namespace SelfDb
open Paging Binary

namespace SelfObject

/-- These are the load rows of the object, and they are as a converter writes them. -/
structure Loads (obj : SelfObject) (rows : List SegmentRow) : Prop where
  segments : obj.conn.loadSegments.rows = rows
  bounds : obj.bounds = boundsLoop (loadsOf rows) (2 ^ 64 - 1, 0)
  loadable : ∀ R ∈ rows, R.Loadable

/-- The object was converted from the file. -/
def OfFile (obj : SelfObject) (data : Bytes) : Prop := ∃ db, SelfOf data db ∧ obj.conn = db.connect

namespace OfFile

theorem loads {obj : SelfObject} (file : obj.OfFile data) : obj.Loads (fileRows data) := by
  obtain ⟨db, self, same⟩ := file
  obtain ⟨lief, converted⟩ := self.converted
  have rows := loadRows_eq (convert_sound converted)
  refine ⟨?_, ?_, self.loadable⟩
  · rw [same]
    exact rows
  · rw [SelfObject.bounds, same, ← rows]
    rfl

theorem entry {obj : SelfObject} (file : obj.OfFile data) (mapped : obj.Mapped) :
    obj.entry = wrap (obj.loadBias + (RawEhdr.read data).entry.toNat) := by
  obtain ⟨db, ⟨⟨lief, converted⟩, _⟩, same⟩ := file
  obtain ⟨entry, found, word⟩ := entry_converted (convert_sound converted)
  rw [mapped.entry, same, found, Option.map_some, Option.getD_some, word]

end OfFile

/-- The rows of the object are laid into its reservation. -/
theorem Laid.rowsReserved {os : Os} (fresh : os.Fresh) {obj : SelfObject} (mapped : obj.Mapped)
    (loads : obj.Loads rows) (laid : obj.Laid os mem layers) :
    ∃ base own, layers = reservedLayer base (holeLength (loadsOf rows)) :: own ∧
      RowsReserved os mem rows obj.loadBias base ∧ RowsAre obj.loadBias rows own := by
  have positive := mapped.span
  obtain ⟨base, own, rfl, chosen, place, laid⟩ := laid
  rw [SelfObject.span, loads.bounds] at positive
  rw [loads.bounds] at chosen place ⊢
  refine ⟨base, own, rfl, ?_, ?_⟩
  · rw [place]
    exact rowsReserved_at fresh loads.loadable positive chosen
  · rw [RowsAre, rowsLaid_bare laid, loads.segments]

/-- `map_object` leaves what the rows of the object do. -/
theorem Laid.resident {os : Os} (fresh : os.Fresh) {obj : SelfObject} (mapped : obj.Mapped)
    (loads : obj.Loads rows) (laid : obj.Laid os mem layers) (found : imageByte rows u = some b) :
    Resident (layers.foldl Memory.lay mem) (wrap (obj.loadBias + u)) b := by
  obtain ⟨_, _, rfl, held, are⟩ := laid.rowsReserved fresh mapped loads
  exact are.resident loads.loadable held.placed found _

/-- And leaves alone what was there. -/
theorem Laid.untouched {os : Os} (fresh : os.Fresh) {obj : SelfObject} (mapped : obj.Mapped)
    (loads : obj.Loads rows) (laid : obj.Laid os mem layers) (small : a < 2 ^ 64)
    (present : IsMapped mem a) : Untouched mem (layers.foldl Memory.lay mem) a := by
  obtain ⟨_, _, rfl, held, are⟩ := laid.rowsReserved fresh mapped loads
  exact held.untouched fresh are small present

end SelfObject

theorem loads_of_files {objs : List SelfObject} (files : ∀ obj ∈ objs, ∃ data, obj.OfFile data) :
    ∀ obj ∈ objs, ∃ rows, obj.Loads rows := by
  intro obj member
  obtain ⟨data, file⟩ := files obj member
  exact ⟨_, file.loads⟩

namespace ObjectsLaid

theorem untouched {os : Os} (fresh : os.Fresh) (laid : ObjectsLaid os mem objs layers)
    (mapped : ∀ obj ∈ objs, obj.Mapped) (load : ∀ obj ∈ objs, ∃ rows, obj.Loads rows)
    (small : a < 2 ^ 64) (present : IsMapped mem a) :
    Untouched mem (layers.foldl Memory.lay mem) a := by
  induction laid with
  | nil => exact ⟨rfl, rfl⟩
  | cons head _ ih =>
    rw [List.forall_mem_cons] at mapped load
    obtain ⟨⟨rows, loads⟩, others⟩ := load
    rw [List.foldl_append]
    have first := head.untouched fresh mapped.1 loads small present
    exact first.trans (ih mapped.2 others (first.isMapped present))

/-- What the rows of all objects leave is in memory at once. -/
theorem resident {os : Os} (fresh : os.Fresh) (laid : ObjectsLaid os mem objs layers)
    (mapped : ∀ obj ∈ objs, obj.Mapped) (load : ∀ obj ∈ objs, ∃ rows, obj.Loads rows) :
    ∀ obj ∈ objs, ∀ rows, obj.Loads rows → ∀ u b, imageByte rows u = some b →
      Resident (layers.foldl Memory.lay mem) (wrap (obj.loadBias + u)) b := by
  induction laid with
  | nil => exact List.forall_mem_nil _
  | cons head later ih =>
    rw [List.forall_mem_cons] at mapped load ⊢
    rw [List.foldl_append]
    refine ⟨fun rows loads u b found => ?_, ih mapped.2 load.2⟩
    have first := head.resident fresh mapped.1 loads found
    exact (later.untouched fresh mapped.2 load.2 (wrap_lt _) first.2).resident first

end ObjectsLaid

/-- The relocations change the slots and nothing else. -/
theorem relocated_untouched {syms : List Sym} {objs : List SelfObject}
    (relocated : objs.foldlM (relocate syms) mem = .ok after)
    (outside : ∀ slot ∈ objs.flatMap SelfObject.slots, ¬ slot.Holds a) :
    Untouched mem after a := by
  rw [relocateObjects_eq] at relocated
  obtain ⟨_, rfl⟩ := (relocateSlots_eq_ok_iff _ _ _ _).mp relocated
  refine .stores (List.forall_mem_map.mpr fun slot member => ?_) mem
  exact (slot.store_byteAt_eq_none_iff syms a).mpr (outside slot member)

theorem selfldBuildStack_untouched {os : Os} (fresh : os.Fresh) (below : os.Below selfldStackSize)
    {argv envp : List CString} {entry : Nat}
    (fits : selfldStackBytes caller (argv.take argc) envp ≤ selfldStackSize)
    (made : selfldBuildStack os caller argc argv envp entry 0 0 mem = .ok (sp, after)) :
    ∀ a < 2 ^ 64, IsMapped mem a → Untouched mem after a := by
  have short : dataSize ((argv.take argc).map CString.stored) < 2 ^ 64 := by
    rw [selfldStackBytes, dataSize_stackData, selfldStackSize] at fits
    omega
  have answers : ∃ base, os.reserve mem selfldStackSize = some base ∧
      calloc os argc = .ok () ∧ calloc os envp.length = .ok () ∧ argc ≤ argv.length := by
    simp only [selfldBuildStack, bind_eq_ok_iff, orDie_eq_ok_iff] at made
    obtain ⟨base, reserved, _, args, _, env, ⟨_, _, _⟩, strings, _⟩ := made
    exact ⟨base, reserved, args, env, (pushStrs_inv strings (wrap_lt _) short).1⟩
  obtain ⟨base, reserved, args, env, enough⟩ := answers
  have page := fresh.aligned reserved
  obtain ⟨_, inside, ends⟩ := startPointer_fits page fits
  rw [← selfldPointer] at inside ends
  obtain ⟨random, -, built⟩ :=
    selfldBuildStack_ok entry reserved page (below reserved) args env enough fits
  obtain ⟨rfl, rfl⟩ := Prod.mk.inj (Except.ok.inj (built.symm.trans made))
  intro a small present
  refine stack_untouched fresh reserved (fun w member => ?_) small present
  refine (stackStores_within ?_ w member).mono inside le_rfl
  rwa [startVector_length, selfldAux_length]

section Start
variable {world : World} {caller : Caller} {maindb : Connection} {path : String}
  {argv envp : List CString}

theorem startSelfld_steps
    (started : startSelfld world caller maindb path argv envp mem = .ok (out, sp, after)) :
    runSelfld world maindb path mem = .ok out ∧
      selfldBuildStack world.os caller 1 argv envp out.main.entry 0 0 out.memory =
        .ok (sp, after) := by
  simp only [startSelfld, bind_eq_ok_iff] at started
  obtain ⟨_, reached, ⟨_, _⟩, built, result⟩ := started
  cases result
  exact ⟨reached, built⟩

/-- The jump of `self-ld`: every object is as its file has it, in all that no relocation of the
run rewrites, and the main program is entered where its file says. -/
theorem startSelfld_program (fresh : world.os.Fresh) (below : world.os.Below selfldStackSize)
    (fits : selfldStackBytes caller (argv.take 1) envp ≤ selfldStackSize)
    (started : startSelfld world caller maindb path argv envp mem = .ok (out, sp, after))
    (files : ∀ obj ∈ out.objects, ∃ data, obj.OfFile data) :
    ∀ obj ∈ out.objects, ∀ data, obj.OfFile data →
      obj.entry = wrap (obj.loadBias + (RawEhdr.read data).entry.toNat) ∧
      ∀ u b, Puts data u b → (∀ slot ∈ out.slots, ¬ slot.Holds (wrap (obj.loadBias + u))) →
        after.byte (wrap (obj.loadBias + u)) = b := by
  obtain ⟨run, stack⟩ := startSelfld_steps started
  obtain ⟨layers, laid, relocated⟩ := runSelfld_laid run
  have mapped := runSelfld_mapped run
  intro obj member data file
  refine ⟨file.entry (mapped obj member), fun u b puts outside => ?_⟩
  have found : imageByte (fileRows data) u = some b := by
    obtain ⟨_, self, _⟩ := file
    exact self.imageByte puts
  have loaded := laid.resident fresh mapped (loads_of_files files) obj member _ file.loads u b found
  have kept := relocated_untouched relocated fun slot listed =>
    outside slot (out.schedule_perm.mem_iff.mp listed)
  have linked := kept.resident loaded
  have entered := selfldBuildStack_untouched fresh below fits stack _ (wrap_lt _) linked.2
  exact (entered.resident linked).1

/-- The loader finds itself as it was: of what was mapped before, a run of `self-ld` changes the
slots of its relocations and nothing else. -/
theorem startSelfld_untouched (fresh : world.os.Fresh) (below : world.os.Below selfldStackSize)
    (fits : selfldStackBytes caller (argv.take 1) envp ≤ selfldStackSize)
    (started : startSelfld world caller maindb path argv envp mem = .ok (out, sp, after))
    (files : ∀ obj ∈ out.objects, ∃ data, obj.OfFile data) :
    ∀ a < 2 ^ 64, IsMapped mem a → (∀ slot ∈ out.slots, ¬ slot.Holds a) →
      Untouched mem after a := by
  obtain ⟨run, stack⟩ := startSelfld_steps started
  obtain ⟨layers, laid, relocated⟩ := runSelfld_laid run
  intro a small present outside
  have loaded := laid.untouched fresh (runSelfld_mapped run) (loads_of_files files) small present
  have linked := loaded.trans (relocated_untouched relocated fun slot listed =>
    outside slot (out.schedule_perm.mem_iff.mp listed))
  exact linked.trans (selfldBuildStack_untouched fresh below fits stack a small
    (linked.isMapped present))

end Start

/-- A program and a library with one relocation each. -/
def calling : LinkTables := ⟨callerOfF.needed, callerOfF.symbols, callerOfF.relocations⟩

def callingWorld (db : Database) : World where
  os := .lowest
  files path := if path ∈ ["/main.self", "/libf.self"] then some db.connect else none
  resolver := some ⟨fun _ => .cursor ["/libf.self"] .done, .prepareError⟩

theorem calling_starts :
    ∃ (db : Database) (out : Linked) (sp : Nat) (after : Memory),
      startSelfld (callingWorld db) bareCaller db.connect "/main.self" [programName]
        [someVariable] loaderSpace = .ok (out, sp, after) ∧
      (out.slots.length = 2 ∧ ∀ slot ∈ out.slots, ¬ slot.Holds 0x1000000) ∧
      ∀ obj ∈ out.objects, obj.OfFile mappedFile := by
  have ran : ∃ db, convert (.ok calling) mappedFile = .ok db ∧
      ((startSelfld (callingWorld db) bareCaller db.connect "/main.self" [programName]
        [someVariable] loaderSpace).map fun run => decide (run.1.slots.length = 2 ∧
          ∀ slot ∈ run.1.slots, ¬ slot.Holds 0x1000000)).toOption = some true :=
    exists_of_map_decide (by decide +kernel)
  obtain ⟨db, converted, ran⟩ := ran
  cases started : startSelfld (callingWorld db) bareCaller db.connect "/main.self" [programName]
    [someVariable] loaderSpace with
  | error stop =>
    rw [started] at ran
    cases ran
  | ok run =>
    obtain ⟨out, sp, after⟩ := run
    rw [started] at ran
    refine ⟨db, out, sp, after, started, of_decide_eq_true (Option.some.inj ran), ?_⟩
    intro obj member
    obtain ⟨path, opened⟩ := (runSelfld_bound (startSelfld_steps started).1).file obj member
    refine ⟨db, ⟨⟨_, converted⟩, mappedFile_table.1⟩, ?_⟩
    exact (Option.some.inj (Option.ite_none_right_eq_some.mp opened).2).symm

theorem startSelfld_program_calling :
    ∃ (db : Database) (out : Linked) (sp : Nat) (after : Memory),
      startSelfld (callingWorld db) bareCaller db.connect "/main.self" [programName]
        [someVariable] loaderSpace = .ok (out, sp, after) ∧
      out.slots.length = 2 ∧ ∀ obj ∈ out.objects,
        obj.entry = wrap (obj.loadBias + (RawEhdr.read mappedFile).entry.toNat) ∧
        ∀ u b, Puts mappedFile u b → (∀ slot ∈ out.slots, ¬ slot.Holds (wrap (obj.loadBias + u))) →
          after.byte (wrap (obj.loadBias + u)) = b := by
  obtain ⟨db, out, sp, after, started, ⟨slots, _⟩, file⟩ := calling_starts
  refine ⟨db, out, sp, after, started, slots, fun obj member => ?_⟩
  exact startSelfld_program Os.lowest_fresh (Os.lowest_below (by decide)) (by decide) started
    (fun obj member => ⟨mappedFile, file obj member⟩) obj member mappedFile (file obj member)

theorem startSelfld_untouched_calling :
    ∃ (db : Database) (out : Linked) (sp : Nat) (after : Memory),
      startSelfld (callingWorld db) bareCaller db.connect "/main.self" [programName]
        [someVariable] loaderSpace = .ok (out, sp, after) ∧
      out.slots.length = 2 ∧ Untouched loaderSpace after 0x1000000 := by
  obtain ⟨db, out, sp, after, started, ⟨slots, outside⟩, file⟩ := calling_starts
  refine ⟨db, out, sp, after, started, slots, ?_⟩
  exact startSelfld_untouched Os.lowest_fresh (Os.lowest_below (by decide)) (by decide) started
    (fun obj member => ⟨mappedFile, file obj member⟩) 0x1000000 (by decide) rfl outside

end SelfDb
