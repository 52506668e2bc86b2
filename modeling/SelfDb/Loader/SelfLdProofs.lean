import SelfDb.Binding.Interposition
import SelfDb.Loader.NativeProofs
import SelfDb.Loader.SelfLd

/-! Which definition `self-ld` binds a name to. The export table is a stack in
the order of mapping, so the object that was mapped last is asked first. -/
namespace SelfDb
open Paging Binding

namespace SelfObject

/-- What `map_object` publishes for the object. -/
def definitions (obj : SelfObject) : List Sym :=
  (obj.conn.exports.rows.filter (·.1 ≠ "")).map fun row =>
    ⟨row.1, wrap (obj.loadBias + sizeT row.2)⟩

/-- The object has an exported row of that name. -/
def Exports (name : String) (obj : SelfObject) : Prop :=
  name ≠ "" ∧ ∃ row ∈ obj.conn.exports.rows, row.1 = name

instance (name : String) (obj : SelfObject) : Decidable (obj.Exports name) :=
  inferInstanceAs (Decidable (_ ∧ _))

theorem exports_eq_provides (name : String) :
    Exports name = Provides definitions (·.name = name) := by
  funext obj
  simp only [Exports, Provides, definitions, List.mem_map, List.mem_filter, decide_eq_true_eq,
    eq_iff_iff]
  constructor
  · rintro ⟨named, row, member, rfl⟩
    exact ⟨_, ⟨row, ⟨member, named⟩, rfl⟩, rfl⟩
  · rintro ⟨_, ⟨row, ⟨member, named⟩, rfl⟩, rfl⟩
    exact ⟨named, row, member, rfl⟩

end SelfObject

namespace Linked

/-- The library slots that the NEEDED names of the main program filled. -/
def needed (out : Linked) : List SelfObject := out.libs.take out.main.conn.needed.rows.length

def preloads (out : Linked) : List SelfObject := out.libs.drop out.main.conn.needed.rows.length

/-- The program and what it needs. -/
def closure (out : Linked) : List SelfObject := out.main :: out.needed

/-- All objects, in the order of mapping. -/
def objects (out : Linked) : List SelfObject := out.closure ++ out.preloads

/-- The place of an object in scope order: preloads, the program, its libraries. -/
def loadOrder (out : Linked) (k : Nat) : Nat := backFirst out.closure.length out.preloads.length k

/-- The name is bound to a definition that came into the table with the object
that is first in scope order among those that export the name. -/
def BoundInScope (out : Linked) (name : String) : Prop :=
  ∃ k obj definition older, Leads out.loadOrder (SelfObject.Exports name) out.objects k ∧
    out.objects[k]? = some obj ∧ definition ∈ obj.definitions ∧
    exportFind out.syms name = definition.addr ∧
    found (·.name = name) out.syms = definition :: older ∧
    PushedBy SelfObject.definitions out.objects k (definition :: older)

/-- No other object of the deciding group exports the name: a second preload
object, or if none preloads it, a second one among the program and its libraries. -/
def SoleExporter (out : Linked) (name : String) : Prop :=
  Sole (SelfObject.Exports name) out.preloads ∧
    ((∃ obj ∈ out.preloads, obj.Exports name) ∨ Sole (SelfObject.Exports name) out.closure)

end Linked

/-- The address found is that of the topmost entry with the name. -/
theorem exportFind_eq (syms : List Sym) (name : String) :
    exportFind syms name = ((found (·.name = name) syms).head?.map Sym.addr).getD 0 := by
  induction syms with
  | nil => rfl
  | cons s next ih =>
    by_cases same : s.name = name
    · simp [exportFind, found, same]
    · rw [exportFind, if_neg same, ih]
      simp [found, same]

theorem exportLoop_eq (loaded : exportLoop os bias rows syms = .ok after) :
    after = ((rows.filter (·.1 ≠ "")).map fun row =>
      (⟨row.1, wrap (bias + sizeT row.2)⟩ : Sym)).reverse ++ syms := by
  induction rows generalizing syms with
  | nil =>
    cases loaded
    rfl
  | cons row rest ih =>
    obtain ⟨name, value⟩ := row
    rw [exportLoop] at loaded
    split at loaded
    · rename_i empty
      rw [ih loaded]
      simp [empty]
    · rename_i named
      simp only [bind_eq_ok_iff, exportAdd] at loaded
      obtain ⟨_, added, later⟩ := loaded
      split at added
      · cases added
        rw [ih later]
        simp [named]
      · cases added

/-- A mapped object comes from its file, and its definitions are on top. -/
theorem mapObject_inv (mapped : mapObject world path slot state = .ok (obj, after)) :
    world.files path = some obj.conn ∧ after.syms = obj.definitions.reverse ++ state.syms := by
  simp only [mapObject, bind_eq_ok_iff, orDie_eq_ok_iff] at mapped
  obtain ⟨conn, opened, _, _, ⟨bias, _⟩, _, _, _, syms, published, result⟩ := mapped
  cases result
  exact ⟨opened, exportLoop_eq published⟩

theorem libsLoop_inv (looped : libsLoop world pathOf rows libs state = .ok (out, after)) :
    ∃ added, out = libs ++ added ∧
      List.Forall₂ (fun row obj => ∃ path, pathOf row = .ok path ∧ world.files path = some obj.conn)
        rows added ∧
      after.syms = stacked SelfObject.definitions added ++ state.syms := by
  induction rows generalizing libs state with
  | nil =>
    cases looped
    exact ⟨[], (List.append_nil _).symm, .nil, rfl⟩
  | cons row rest ih =>
    simp only [libsLoop, bind_eq_ok_iff] at looped
    obtain ⟨path, located, ⟨lib, next⟩, mapped, later⟩ := looped
    obtain ⟨opened, published⟩ := mapObject_inv mapped
    obtain ⟨added, rfl, files, table⟩ := ih later
    refine ⟨lib :: added, ?_, .cons ⟨path, located, opened⟩ files, ?_⟩
    · rw [List.append_assoc]
      rfl
    · rw [table, published, stacked, stacked, List.flatMap_cons, List.reverse_append,
        List.append_assoc]

/-! The whole of `run_selfld`. -/

theorem exists_of_forall₂ {R : α → β → Prop} (related : List.Forall₂ R xs ys) :
    ∀ y ∈ ys, ∃ x ∈ xs, R x y := by
  induction related with
  | nil => simp
  | cons head _ ih =>
    rw [List.forall_mem_cons]
    refine ⟨⟨_, List.mem_cons_self, head⟩, fun y member => ?_⟩
    obtain ⟨x, listed, holds⟩ := ih y member
    exact ⟨x, List.mem_cons_of_mem _ listed, holds⟩

theorem foldlM_each {f : σ → α → Run σ} {xs : List α} (ran : xs.foldlM f s = .ok out) :
    ∀ x ∈ xs, ∃ before after, f before x = .ok after := by
  induction xs generalizing s with
  | nil => simp
  | cons x rest ih =>
    rw [List.foldlM_cons, bind_eq_ok_iff] at ran
    obtain ⟨next, step, later⟩ := ran
    exact List.forall_mem_cons.mpr ⟨⟨s, next, step⟩, ih later⟩

theorem relocate_each (relocated : relocate syms mem obj = .ok after) :
    ∀ r ∈ obj.conn.relocations.rows, ∃ value, relocValue syms obj.loadBias r = .ok value := by
  intro r listed
  obtain ⟨_, _, step⟩ := foldlM_each relocated r listed
  simp only [relocateRow, bind_eq_ok_iff] at step
  obtain ⟨value, resolved, _⟩ := step
  exact ⟨value, resolved⟩

/-- What a run that reaches the program has mapped, in which order, and bound. -/
structure Bound (world : World) (path : String) (out : Linked) : Prop where
  main : world.files path = some out.main.conn
  needed : List.Forall₂ (fun soname obj => ∃ libpath, resolveNeeded world soname = .ok libpath ∧
    world.files libpath = some obj.conn) out.main.conn.needed.rows out.needed
  preloads : List.Forall₂ (fun preload obj => world.files preload = some obj.conn)
    (preloadPaths world) out.preloads
  table : out.syms = stacked SelfObject.definitions out.objects
  relocated : ∀ obj ∈ out.objects, ∀ r ∈ obj.conn.relocations.rows,
    ∃ value, relocValue out.syms obj.loadBias r = .ok value

theorem runSelfld_bound (reached : runSelfld world maindb path mem = .ok out) :
    Bound world path out := by
  simp only [runSelfld, bind_eq_ok_iff] at reached
  obtain ⟨_, _, _, _, ⟨main, first⟩, mapped, ⟨needed, second⟩, looped, ⟨_, third⟩, preloaded, _,
    bound, last, boundMain, result⟩ := reached
  cases result
  obtain ⟨opened, published⟩ := mapObject_inv mapped
  obtain ⟨_, rfl, files, table⟩ := libsLoop_inv looped
  obtain ⟨preloads, rfl, preloadFiles, whole⟩ := libsLoop_inv preloaded
  have front : (needed ++ preloads).take main.conn.needed.rows.length = needed := by
    rw [files.length_eq, List.take_left]
  have back : (needed ++ preloads).drop main.conn.needed.rows.length = preloads := by
    rw [files.length_eq, List.drop_left]
  have split : Linked.objects ⟨main, needed ++ preloads, third.syms, last⟩ =
      main :: (needed ++ preloads) := by
    simp only [Linked.objects, Linked.closure, Linked.needed, Linked.preloads, front, back,
      List.cons_append]
  refine ⟨opened, ?_, ?_, ?_, ?_⟩
  · simpa only [Linked.needed, front] using files
  · simpa [Linked.preloads, back] using preloadFiles
  · rw [split, whole, table, published]
    simp [stacked]
  · rw [split, List.forall_mem_cons]
    refine ⟨relocate_each boundMain, fun obj member => ?_⟩
    obtain ⟨_, _, relocated⟩ := foldlM_each bound obj member
    exact relocate_each relocated

/-- The relocations that name a symbol, and what they store. -/
theorem relocValue_symbolic (symbolic : columnInt r.rtype ∈ [rGlobDat, rJumpSlot, r64])
    (resolved : relocValue syms bias r = .ok value) :
    ∃ name, r.name = some name ∧ exportFind syms name ≠ 0 ∧
      value = wrap (exportFind syms name + if columnInt r.rtype = rJumpSlot then 0
        else sizeT r.addend) := by
  simp only [List.mem_cons, List.not_mem_nil, or_false] at symbolic
  have other : columnInt r.rtype ≠ rRelative := by
    rcases symbolic with type | type | type <;> rw [type] <;> decide
  simp only [relocValue, if_neg other, if_pos symbolic] at resolved
  cases named : r.name with
  | none =>
    rw [named, if_pos rfl] at resolved
    cases resolved
  | some name =>
    by_cases absent : exportFind syms name = 0
    · simp only [named, if_pos absent] at resolved
      cases resolved
    · simp only [named, if_neg absent] at resolved
      exact ⟨name, rfl, absent, (Except.ok.inj resolved).symm⟩

/-- Objects that do not export the name are passed over. -/
theorem exportFind_skip {newer : List SelfObject} (none : ∀ obj ∈ newer, ¬ obj.Exports name)
    (syms : List Sym) :
    exportFind (stacked SelfObject.definitions newer ++ syms) name = exportFind syms name := by
  rw [exportFind_eq, exportFind_eq, found_skip]
  intro d member named
  obtain ⟨obj, listed, defined⟩ := (mem_stacked _ _ _).mp member
  apply none obj listed
  rw [SelfObject.exports_eq_provides]
  exact ⟨d, defined, named⟩

/-- If newer objects export the name, one of them defines it. -/
theorem exportFind_newer {newer : List SelfObject} (some : ∃ obj ∈ newer, obj.Exports name)
    (syms : List Sym) :
    ∃ obj ∈ newer, ∃ d ∈ obj.definitions, d.name = name ∧
      exportFind (stacked SelfObject.definitions newer ++ syms) name = d.addr := by
  rw [SelfObject.exports_eq_provides] at some
  obtain ⟨provider, member, d, defined, named⟩ := some
  have pushed : d ∈ stacked SelfObject.definitions newer :=
    (mem_stacked _ _ _).mpr ⟨provider, member, defined⟩
  obtain ⟨top, older, search, new, same, _⟩ :=
    found_new (·.name = name) (stacked SelfObject.definitions newer) ⟨d, pushed, named⟩ syms
  obtain ⟨obj, listed, defines⟩ := (mem_stacked _ _ _).mp new
  refine ⟨obj, listed, top, defines, same, ?_⟩
  rw [exportFind_eq, search]
  rfl

/-- An address was found, so some object exports the name. -/
theorem exists_exporter {objects : List SelfObject}
    (found : exportFind (stacked SelfObject.definitions objects) name ≠ 0) :
    ∃ obj ∈ objects, obj.Exports name := by
  by_contra none
  have skipped := exportFind_skip (fun obj listed exports => none ⟨obj, listed, exports⟩) []
  rw [List.append_nil] at skipped
  exact found skipped

theorem boundInScope_iff {out : Linked}
    (table : out.syms = stacked SelfObject.definitions out.objects)
    (some : ∃ obj ∈ out.objects, SelfObject.Exports name obj) : out.BoundInScope name ↔
    out.SoleExporter name := by
  rw [Linked.BoundInScope, Linked.SoleExporter, SelfObject.exports_eq_provides]
  rw [SelfObject.exports_eq_provides] at some
  refine Iff.trans ?_ (found_leads_iff SelfObject.definitions (·.name = name) some)
  refine exists_congr fun k => ?_
  constructor
  · rintro ⟨obj, definition, older, leads, at_, member, _, search, pushed⟩
    rw [table] at search
    exact ⟨leads, obj, definition, older, at_, search, member, pushed⟩
  · rintro ⟨leads, obj, definition, older, at_, search, member, pushed⟩
    refine ⟨obj, definition, older, leads, at_, member, ?_, ?_, pushed⟩
    · rw [exportFind_eq, table]
      exact congrArg (fun node => (node.head?.map Sym.addr).getD 0) search
    · rw [table]
      exact search

/-- In a run that reaches the program, every symbolic relocation of an object is
bound in scope order exactly when the name has one exporter to choose from. -/
theorem runSelfld_scope_iff (reached : runSelfld world maindb path mem = .ok out)
    (member : obj ∈ out.objects) (listed : r ∈ obj.conn.relocations.rows)
    (symbolic : columnInt r.rtype ∈ [rGlobDat, rJumpSlot, r64]) :
    ∃ name, r.name = some name ∧
      relocValue out.syms obj.loadBias r = .ok (wrap (exportFind out.syms name +
        if columnInt r.rtype = rJumpSlot then 0 else sizeT r.addend)) ∧
      (out.BoundInScope name ↔ out.SoleExporter name) := by
  have bound := runSelfld_bound reached
  obtain ⟨value, resolved⟩ := bound.relocated obj member r listed
  obtain ⟨name, named, address, rfl⟩ := relocValue_symbolic symbolic resolved
  refine ⟨name, named, resolved, boundInScope_iff bound.table ?_⟩
  exact exists_exporter (bound.table ▸ address)

instance (out : Linked) (name : String) : Decidable (out.SoleExporter name) :=
  inferInstanceAs (Decidable (_ ∧ _))

/-- A position-independent object that exports `f`. -/
def exporting (value : Int) (needed : Table NeededRow NeededRow.ord)
    (relocations : Table RelocationRow RelocationRow.id) : Database where
  selfMeta key := some
    (metaTable ⟨etDyn, emX86_64, 0x40, ehdrSize, 0, .integer phdrSize, .integer 1, 0⟩ 1 none key)
  segments := ⟨[loadRow 0 0 [0]], by decide⟩
  needed := needed
  symbols := ⟨[⟨0, "f", none, some value, some 0, some "func", some "global", some "default",
    some 1, 1, 1, .dynsym⟩], List.pairwise_singleton _ _⟩
  relocations := relocations
  metaStored := insertMeta_stored (if_pos (by decide))
  segmentsStored := by decide

def callerOfF : Database :=
  exporting 0x100 ⟨[⟨0, "libf.so"⟩], by decide⟩ ⟨[⟨0, 0x10, rJumpSlot, some 0, 0⟩], by decide⟩

/-- Two reservations at different addresses. -/
def Os.twoHoles : Os where
  reserve mem _ := some (if (mem.prot 16).isSome then 0x20000 else 0x10000)
  grants _ _ _ := true
  protects _ _ _ := true
  malloc _ := true

/-- A program and its library, which both export `f`. -/
def twoExporters : World where
  os := .twoHoles
  files path :=
    if path = "/main.self" then some callerOfF.connect
    else if path = "/libf.self" then some (exporting 0x200 .empty .empty).connect
    else none
  resolver := some ⟨fun _ => .cursor ["/libf.self"] .done, .prepareError⟩

theorem twoExporters_run :
    ∃ out, runSelfld twoExporters callerOfF.connect "/main.self" unmappedSpace = .ok out ∧
    (∃ r ∈ out.main.conn.relocations.rows, columnInt r.rtype = rJumpSlot ∧ r.name = some "f") ∧
    exportFind out.syms "f" = 0x20200 ∧ out.main.definitions = [⟨"f", 0x10100⟩] ∧
    out.syms = stacked SelfObject.definitions out.objects ∧ ¬ out.SoleExporter "f" :=
  exists_of_map_decide (by decide +kernel)

theorem runSelfld_scope_iff_twoExporters :
    ∃ out, runSelfld twoExporters callerOfF.connect "/main.self" unmappedSpace = .ok out ∧
      ∃ r ∈ out.main.conn.relocations.rows, ∃ name, r.name = some name ∧
        relocValue out.syms out.main.loadBias r = .ok (wrap (exportFind out.syms name +
          if columnInt r.rtype = rJumpSlot then 0 else sizeT r.addend)) ∧
        (out.BoundInScope name ↔ out.SoleExporter name) := by
  obtain ⟨out, reached, ⟨r, listed, jump, _⟩, _⟩ := twoExporters_run
  refine ⟨out, reached, r, listed, ?_⟩
  exact runSelfld_scope_iff reached List.mem_cons_self listed (by rw [jump]; decide)

/-- The program exports `f` first, and its own reference gets that of the library. -/
theorem runSelfld_binds_library :
    ∃ out, runSelfld twoExporters callerOfF.connect "/main.self" unmappedSpace = .ok out ∧
      (∃ r ∈ out.main.conn.relocations.rows, columnInt r.rtype = rJumpSlot ∧ r.name = some "f") ∧
      exportFind out.syms "f" = 0x20200 ∧ out.main.definitions = [⟨"f", 0x10100⟩] ∧
      ¬ out.BoundInScope "f" := by
  obtain ⟨out, reached, row, address, own, table, sole⟩ := twoExporters_run
  refine ⟨out, reached, row, address, own, fun inScope => sole ?_⟩
  refine (boundInScope_iff table ⟨out.main, List.mem_cons_self, ?_⟩).mp inScope
  rw [SelfObject.exports_eq_provides, Provides, own]
  exact ⟨_, List.mem_cons_self, rfl⟩

end SelfDb
