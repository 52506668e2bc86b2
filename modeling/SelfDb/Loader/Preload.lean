import SelfDb.Loader.Placement

/-! Preloading, as the difference between two runs of `self-ld` on the same files:
what the program and its libraries hold in memory when the program starts. -/
namespace SelfDb
open Paging Binary Binding

/-- Resolver databases that differ in their `preload` rows only. -/
def World.SameObjects (world other : World) : Prop :=
  world.files = other.files ∧
    world.resolver.map Resolver.objectPath = other.resolver.map Resolver.objectPath

theorem resolveNeeded_congr {world other : World} (same : world.SameObjects other)
    (soname : String) :
    resolveNeeded world soname = resolveNeeded other soname := by
  have path : ∀ world : World, resolveNeeded world soname = orDie (.cannotResolve soname)
      ((world.resolver.map Resolver.objectPath).bind fun objectPath =>
        (objectPath soname).rows.head?) := by
    intro world
    rw [resolveNeeded, Option.bind_map]
    rfl
  rw [path, path, same.2]

/-! The program and its libraries are the same in both runs. -/

theorem map_eq_of_forall₂ {R : α → β → Prop} {f : β → γ}
    (functional : ∀ {x y z}, R x y → R x z → f y = f z)
    (first : List.Forall₂ R xs ys) (second : List.Forall₂ R xs zs) : ys.map f = zs.map f := by
  induction first generalizing zs with
  | nil =>
    cases second
    rfl
  | cons head _ ih =>
    obtain - | ⟨head', rest⟩ := second
    rw [List.map_cons, List.map_cons, functional head head', ih rest]

/-- A mapped object is known by its file and its load bias. -/
theorem eq_of_placed {objs others : List SelfObject} (mapped : ∀ obj ∈ objs, obj.Mapped)
    (mapped' : ∀ obj ∈ others, obj.Mapped) (files : objs.map (·.conn) = others.map (·.conn))
    (placed : objs.map (·.loadBias) = others.map (·.loadBias)) : objs = others := by
  induction objs generalizing others with
  | nil => exact (List.map_eq_nil_iff.mp files.symm).symm
  | cons obj rest ih =>
    cases others with
    | nil => cases files
    | cons other rest' =>
      simp only [List.map_cons, List.cons.injEq] at files placed
      rw [List.forall_mem_cons] at mapped mapped'
      rw [ih mapped.2 mapped'.2 files.2 placed.2]
      obtain ⟨conn, bias, entry⟩ := obj
      obtain ⟨conn', bias', entry'⟩ := other
      obtain ⟨⟨_, start⟩, _⟩ := mapped
      obtain ⟨⟨_, start'⟩, _⟩ := mapped'
      simp only at files placed start start'
      rw [files.1, placed.1] at start
      rw [files.1, placed.1, start, ← start']

theorem closure_eq (same : world.SameObjects other)
    (reached : runSelfld world maindb path mem = .ok out)
    (reached' : runSelfld other maindb path mem' = .ok out')
    (placed : out.closure.map (·.loadBias) = out'.closure.map (·.loadBias)) :
    out.closure = out'.closure := by
  have bound := runSelfld_bound reached
  have bound' := runSelfld_bound reached'
  have main : out.main.conn = out'.main.conn := by
    refine Option.some.inj (bound.main.symm.trans ?_)
    rw [same.1]
    exact bound'.main
  have needed : out.needed.map (·.conn) = out'.needed.map (·.conn) := by
    have libraries := bound'.needed
    rw [← main, ← same.1] at libraries
    simp only [← resolveNeeded_congr same] at libraries
    refine map_eq_of_forall₂ ?_ bound.needed libraries
    rintro soname first second ⟨file, located, opened⟩ ⟨file', located', opened'⟩
    cases located.symm.trans located'
    exact Option.some.inj (opened.symm.trans opened')
  refine eq_of_placed ?_ ?_ ?_ placed
  · exact fun obj member => runSelfld_mapped reached obj (List.mem_append_left _ member)
  · exact fun obj member => runSelfld_mapped reached' obj (List.mem_append_left _ member)
  · rw [Linked.closure, Linked.closure, List.map_cons, List.map_cons, main, needed]

/-! The memory when the program starts. -/

/-- The program and its libraries are laid before the preload objects, and the
relocations of all come last. -/
theorem runSelfld_memory (reached : runSelfld world maindb path mem = .ok out) :
    ∃ first second, ObjectsLaid world.os mem out.closure first ∧
      ObjectsLaid world.os (first.foldl Memory.lay mem) out.preloads second ∧
      (∀ slot ∈ out.schedule, slot.Ready out.syms out.memory) ∧
      out.memory = (out.schedule.map (Slot.store out.syms)).foldl Memory.store
        (second.foldl Memory.lay (first.foldl Memory.lay mem)) := by
  obtain ⟨layers, laid, relocated⟩ := runSelfld_laid reached
  rw [relocateObjects_eq] at relocated
  obtain ⟨ready, memory⟩ := (relocateSlots_eq_ok_iff _ _ _ _).mp relocated
  obtain ⟨first, second, rfl, own, preloads⟩ := laid.append_inv
  refine ⟨first, second, own, preloads, fun slot member => (ready slot member).congr ?_, ?_⟩
  · rw [memory, Memory.foldl_store_prot]
  · rw [memory, List.foldl_append]
    rfl

/-- The last of the slots that write to the place of this one is the slot itself. -/
def Slot.LastIn (slot : Slot) (slots : List Slot) : Prop :=
  ∃ earlier later, slots = earlier ++ slot :: later ∧ ∀ other ∈ later, slot.Apart other

/-- Slots apart can be inserted anywhere. -/
theorem Slot.LastIn.insert {slot : Slot} {front more back : List Slot}
    (last : slot.LastIn (front ++ back))
    (apart : ∀ other ∈ more, slot.Apart other) : slot.LastIn (front ++ more ++ back) := by
  obtain ⟨earlier, later, split, after⟩ := last
  rcases List.append_eq_append_iff.mp split with ⟨gap, rfl, rfl⟩ | ⟨gap, rfl, rest⟩
  · exact ⟨front ++ more ++ gap, later, by simp, after⟩
  · cases gap with
    | nil =>
      rw [List.nil_append] at rest
      exact ⟨earlier ++ more, later, by rw [List.append_nil, rest], after⟩
    | cons head gap =>
      rw [List.cons_append, List.cons.injEq] at rest
      obtain ⟨rfl, rfl⟩ := rest
      rw [List.forall_mem_append] at after
      refine ⟨earlier, gap ++ more ++ back, by simp, ?_⟩
      rw [List.forall_mem_append, List.forall_mem_append]
      exact ⟨⟨after.1, apart⟩, after.2⟩

namespace Linked

/-- The slots of the program and its libraries, in the order of relocation. -/
def closureSlots (out : Linked) : List Slot := (out.needed ++ [out.main]).flatMap SelfObject.slots

/-- The address is on the pages of the program or of one of its libraries. -/
def Covers (out : Linked) (a : Nat) : Prop :=
  ∃ layer ∈ out.closure.flatMap SelfObject.places, InSpan layer.start layer.length a

instance (out : Linked) (a : Nat) : Decidable (out.Covers a) :=
  inferInstanceAs (Decidable (∃ _ ∈ _, _))

/-- The slot is in the program or in one of its libraries. -/
def Encloses (out : Linked) (slot : Slot) : Prop := ∀ k < 8, out.Covers (wrap (slot.address + k))

instance (out : Linked) (slot : Slot) : Decidable (out.Encloses slot) :=
  inferInstanceAs (Decidable (∀ _ < 8, _))

theorem schedule_eq (out : Linked) : out.schedule =
    out.needed.flatMap SelfObject.slots ++ out.preloads.flatMap SelfObject.slots ++
      out.main.slots := by
  have libs : out.libs = out.needed ++ out.preloads := (List.take_append_drop _ _).symm
  rw [schedule, libs, List.flatMap_append, List.flatMap_append, List.flatMap_singleton]

theorem closureSlots_eq (out : Linked) :
    out.closureSlots = out.needed.flatMap SelfObject.slots ++ out.main.slots := by
  rw [closureSlots, List.flatMap_append, List.flatMap_singleton]

end Linked

/-- A preload object that keeps to its reservation does not reach the address. -/
structure Spared (out : Linked) (a : Nat) : Prop where
  small : a < 2 ^ 64
  contained : ∀ obj ∈ out.preloads, obj.Contained
  outside : ∀ obj ∈ out.preloads, ¬ InSpan obj.base obj.span a

namespace Spared

theorem slot (spared : Spared out a) : ∀ slot ∈ out.preloads.flatMap SelfObject.slots,
    ¬ slot.Holds a := by
  intro slot member holds
  obtain ⟨obj, preloaded, listed⟩ := List.mem_flatMap.mp member
  exact spared.outside obj preloaded
    ((spared.contained obj preloaded).slots slot listed a spared.small holds)

theorem place (spared : Spared out a) :
    ∀ layer ∈ out.preloads.flatMap SelfObject.places, layer.byteAt a = none := by
  rw [List.forall_mem_flatMap]
  intro obj member
  rw [SelfObject.places, List.forall_mem_cons, List.forall_mem_map]
  refine ⟨?_, fun R listed => ?_⟩
  · simp [Layer.byteAt, reservedLayer, Store.byteAt, spared.outside obj member]
  · by_contra reached
    exact spared.outside obj member
      ((spared.contained obj member).rows R listed a spared.small reached)

end Spared

/-- What is mapped when the preload objects come is spared by them. -/
theorem runSelfld_spared (fresh : world.os.Fresh)
    (reached : runSelfld world maindb path mem = .ok out)
    (contained : ∀ obj ∈ out.preloads, obj.Contained) (covered : out.Covers a)
    (small : a < 2 ^ 64) :
    Spared out a := by
  obtain ⟨first, second, own, preloads, _⟩ := runSelfld_memory reached
  have mapped := runSelfld_mapped reached
  rw [Linked.objects, List.forall_mem_append] at mapped
  obtain ⟨layer, member, inside⟩ := covered
  exact ⟨small, contained, preloads.outside fresh mapped.2
    (own.place_mapped fresh mapped.1 member inside)⟩

/-- Preload objects write to no slot of the program. -/
theorem runSelfld_lastIn (fresh : world.os.Fresh)
    (reached : runSelfld world maindb path mem = .ok out)
    (contained : ∀ obj ∈ out.preloads, obj.Contained) (enclosed : out.Encloses slot)
    (last : slot.LastIn out.closureSlots) : slot.LastIn out.schedule := by
  have apart : ∀ other ∈ out.preloads.flatMap SelfObject.slots, slot.Apart other := by
    intro other member a ⟨here, there⟩
    obtain ⟨k, bound, same⟩ := slot.holds_iff.mp here
    have small : wrap a < 2 ^ 64 := Nat.mod_lt _ (by decide)
    have spared := runSelfld_spared fresh reached contained (same ▸ enclosed k bound) small
    exact spared.slot other member (other.holds_wrap.mpr there)
  rw [Linked.closureSlots_eq] at last
  exact out.schedule_eq ▸ last.insert apart

/-- A slot that is the last to be written to holds the value of its relocation. -/
theorem runSelfld_slot (reached : runSelfld world maindb path mem = .ok out) {slot : Slot}
    (last : slot.LastIn out.schedule) :
    slot.Ready out.syms out.memory ∧ ∃ value, relocValue out.syms slot.bias slot.row = .ok value ∧
      out.memory.load slot.address 8 = leBytes 8 value := by
  obtain ⟨first, second, _, _, ready, memory⟩ := runSelfld_memory reached
  obtain ⟨earlier, later, order, after⟩ := last
  have member : slot ∈ out.schedule := by
    rw [order]
    exact List.mem_append_right _ List.mem_cons_self
  obtain ⟨⟨value, resolved⟩, writable⟩ := ready slot member
  have stored : slot.store out.syms = ⟨slot.address, leBytes 8 value⟩ := by
    rw [Slot.store, resolved]
    rfl
  have unmet : ∀ other ∈ later.map (Slot.store out.syms),
      Exclusive (slot.store out.syms).byteAt other.byteAt :=
    List.forall_mem_map.mpr fun other listed => (after other listed).exclusive out.syms
  have held := Memory.foldl_store_load_last unmet (Nat.mod_lt _ (by decide))
    ((leBytes_length 8 _).le.trans (by decide)) (earlier.map (Slot.store out.syms))
    (second.foldl Memory.lay (first.foldl Memory.lay mem))
  rw [← List.map_cons, ← List.map_append, ← order, ← memory, stored, leBytes_length] at held
  exact ⟨⟨⟨value, resolved⟩, writable⟩, value, resolved, held⟩

/-- The same when the program starts. -/
theorem enterSelfld_slot (fresh : world.os.Fresh)
    (entered : enterSelfld world maindb path mem = .ok (out, final))
    (contained : ∀ obj ∈ out.preloads, obj.Contained) (enclosed : out.Encloses slot)
    (last : slot.LastIn out.closureSlots) :
    ∃ value, relocValue out.syms slot.bias slot.row = .ok value ∧
      final.load slot.address 8 = leBytes 8 value := by
  obtain ⟨reached, stack⟩ := enterSelfld_inv entered
  obtain ⟨ready, value, resolved, held⟩ :=
    runSelfld_slot reached (runSelfld_lastIn fresh reached contained enclosed last)
  have kept : final.load slot.address 8 = out.memory.load slot.address 8 := by
    apply List.map_congr_left
    intro k within
    refine mapStack_byte_kept fresh ?_ stack
    exact Option.isSome_of_any (ready.2 k (List.mem_range.mp within))
  exact ⟨value, resolved, kept.trans held⟩

/-- No relocation of the run reaches an address that those of the program leave alone. -/
theorem Spared.schedule (spared : Spared out a) (free : ∀ slot ∈ out.closureSlots, ¬ slot.Holds a) :
    ∀ slot ∈ out.schedule, ¬ slot.Holds a := by
  intro slot listed
  rw [Linked.closureSlots_eq] at free
  rw [Linked.schedule_eq, List.append_assoc, List.mem_append, List.mem_append] at listed
  rcases listed with needed | preload | main
  · exact free slot (List.mem_append_left _ needed)
  · exact spared.slot slot preload
  · exact free slot (List.mem_append_right _ main)

/-- The other bytes on the pages of the program and its libraries are those that
were mapped. -/
theorem enterSelfld_byte (fresh : world.os.Fresh)
    (entered : enterSelfld world maindb path mem = .ok (out, final))
    (contained : ∀ obj ∈ out.preloads, obj.Contained) (small : a < 2 ^ 64) (covered : out.Covers a)
    (free : ∀ slot ∈ out.closureSlots, ¬ slot.Holds a) :
    some (final.byte a) = lastAt ((out.closure.flatMap SelfObject.places).map Layer.byteAt) a := by
  obtain ⟨reached, stack⟩ := enterSelfld_inv entered
  obtain ⟨first, second, own, preloads, _, memory⟩ := runSelfld_memory reached
  have spared := runSelfld_spared fresh reached contained covered small
  have mapped := runSelfld_mapped reached
  rw [Linked.objects, List.forall_mem_append] at mapped
  obtain ⟨layer, member, inside⟩ := covered
  have stores : lastAt ((out.schedule.map (Slot.store out.syms)).map Store.byteAt) a = none := by
    rw [lastAt_eq_none_iff, List.forall_mem_map, List.forall_mem_map]
    exact fun slot listed => (slot.store_byteAt_eq_none_iff out.syms a).mpr
      (spared.schedule free slot listed)
  have later : lastAt (second.map Layer.byteAt) a = none := by
    rw [map_byteAt_bare, preloads.bare fresh mapped.2, lastAt_eq_none_iff, List.forall_mem_map]
    exact spared.place
  have mine : lastAt (first.map Layer.byteAt) a ≠ none := by
    rw [map_byteAt_bare, own.bare fresh mapped.1, Ne, lastAt_eq_none_iff, List.forall_mem_map]
    intro unreached
    have here := unreached layer member
    rw [Layer.byteAt, if_pos inside, Option.or_eq_none_iff] at here
    exact Option.some_ne_none _ here.2
  have kept : final.byte a = out.memory.byte a := by
    refine mapStack_byte_kept fresh ?_ stack
    rw [memory, Memory.foldl_store_prot]
    exact (Memory.foldl_lay_mapped _ _ _).mpr (.inl (own.place_mapped fresh mapped.1 member inside))
  obtain ⟨b, byte⟩ := Option.ne_none_iff_exists'.mp mine
  rw [kept, memory, Memory.foldl_store_byte, stores, Option.getD_none, Memory.foldl_lay_byte, later,
    Option.getD_none, Memory.foldl_lay_byte, ← own.bare fresh mapped.1, ← map_byteAt_bare, byte]
  rfl

/-! The values. -/

theorem relocValue_congr (same : columnInt r.rtype = rRelative ∨
    ∀ name, r.name = some name → exportFind syms name = exportFind syms' name) (bias : Nat) :
    relocValue syms bias r = relocValue syms' bias r := by
  rcases same with relative | found
  · rw [relocValue, relocValue, if_pos relative, if_pos relative]
  · rw [relocValue, relocValue]
    cases named : r.name with
    | none => rfl
    | some name => simp only [found name named]

/-- Preload objects are asked before the program and its libraries. -/
theorem Bound.split (bound : Bound world path out) :
    out.syms = stacked SelfObject.definitions out.preloads ++
      stacked SelfObject.definitions out.closure := by
  rw [bound.table, Linked.objects, stacked_append]

/-- What a symbolic relocation stores for a definition. -/
def Slot.bound (slot : Slot) (definition : Sym) : Nat :=
  wrap (definition.addr + if columnInt slot.row.rtype = rJumpSlot then 0 else sizeT slot.row.addend)

namespace Linked

/-- Every symbolic slot whose name a preload object exports holds the definition of one. -/
def Interposed (out : Linked) (mem : Memory) : Prop :=
  ∀ slot, slot.LastIn out.closureSlots → out.Encloses slot →
    columnInt slot.row.rtype ∈ [rGlobDat, rJumpSlot, r64] →
    ∀ name, slot.row.name = some name → (∃ obj ∈ out.preloads, obj.Exports name) →
      ∃ obj ∈ out.preloads, ∃ definition ∈ obj.definitions, definition.name = name ∧
        mem.load slot.address 8 = leBytes 8 (slot.bound definition)

/-- The relocation is RELATIVE, or names what no preload object exports. -/
def Untouched (out : Linked) (slot : Slot) : Prop :=
  columnInt slot.row.rtype = rRelative ∨
    ∀ name, slot.row.name = some name → ∀ obj ∈ out.preloads, ¬ obj.Exports name

end Linked

theorem enterSelfld_interposed (fresh : world.os.Fresh)
    (entered : enterSelfld world maindb path mem = .ok (out, final))
    (contained : ∀ obj ∈ out.preloads, obj.Contained) : out.Interposed final := by
  intro slot last enclosed symbolic name named exported
  obtain ⟨value, resolved, held⟩ := enterSelfld_slot fresh entered contained enclosed last
  have bound := runSelfld_bound (enterSelfld_inv entered).1
  obtain ⟨name', named', _, rfl⟩ := relocValue_symbolic symbolic resolved
  cases named.symm.trans named'
  obtain ⟨obj, preloaded, definition, defines, same, address⟩ :=
    exportFind_newer exported (stacked SelfObject.definitions out.closure)
  rw [bound.split, address] at held
  exact ⟨obj, preloaded, definition, defines, same, held⟩

theorem exportFind_untouched (bound : Bound world path out)
    (none : ∀ obj ∈ out.preloads, ¬ SelfObject.Exports name obj) :
    exportFind out.syms name = exportFind (stacked SelfObject.definitions out.closure) name := by
  rw [bound.split, exportFind_skip none]

/-- With the same program and libraries, what names no preload export is bound alike. -/
theorem relocValue_untouched (bound : Bound world path out) (bound' : Bound other path' out')
    (closure : out.closure = out'.closure) {slot : Slot} (untouched : out.Untouched slot)
    (untouched' : out'.Untouched slot) :
    relocValue out.syms slot.bias slot.row = relocValue out'.syms slot.bias slot.row := by
  refine relocValue_congr ?_ slot.bias
  rcases untouched with relative | none
  · exact .inl relative
  · rcases untouched' with relative | none'
    · exact .inl relative
    · refine .inr fun name named => ?_
      rw [exportFind_untouched bound (none name named), closure,
        exportFind_untouched bound' (none' name named)]

/-- Two runs on the same files, whose resolver databases differ in their preload
rows only, and that place the program and its libraries alike. What the preload
objects export is bound to them; everything else is the same in both runs. -/
theorem preload_interposes (same : world.SameObjects other) (fresh : world.os.Fresh)
    (fresh' : other.os.Fresh) (entered : enterSelfld world maindb path mem = .ok (out, final))
    (entered' : enterSelfld other maindb path mem' = .ok (out', final'))
    (placed : out.closure.map (·.loadBias) = out'.closure.map (·.loadBias))
    (contained : ∀ obj ∈ out.preloads, obj.Contained)
    (contained' : ∀ obj ∈ out'.preloads, obj.Contained) :
    out.Interposed final ∧ out'.Interposed final' ∧
    (∀ slot, slot.LastIn out.closureSlots → out.Encloses slot → out.Untouched slot →
      out'.Untouched slot →
      final.load slot.address 8 = final'.load slot.address 8) ∧
    ∀ a < 2 ^ 64, out.Covers a → (∀ slot ∈ out.closureSlots, ¬ slot.Holds a) →
      final.byte a = final'.byte a := by
  have reached := (enterSelfld_inv entered).1
  have reached' := (enterSelfld_inv entered').1
  have closure := closure_eq same reached reached' placed
  have slots : out.closureSlots = out'.closureSlots := by
    obtain ⟨main, needed⟩ := List.cons.inj closure
    rw [Linked.closureSlots, Linked.closureSlots, main, needed]
  have covers : out.Covers = out'.Covers := by
    funext a
    rw [Linked.Covers, Linked.Covers, closure]
  refine ⟨enterSelfld_interposed fresh entered contained,
    enterSelfld_interposed fresh' entered' contained', ?_, ?_⟩
  · intro slot last enclosed untouched untouched'
    obtain ⟨value, resolved, held⟩ := enterSelfld_slot fresh entered contained enclosed last
    rw [slots] at last
    rw [Linked.Encloses, covers] at enclosed
    obtain ⟨value', resolved', held'⟩ := enterSelfld_slot fresh' entered' contained' enclosed last
    have agree := relocValue_untouched (runSelfld_bound reached)
      (runSelfld_bound reached') closure untouched
      untouched'
    rw [resolved, resolved'] at agree
    rw [held, held', Except.ok.inj agree]
  · intro a small covered free
    apply Option.some.inj
    rw [enterSelfld_byte fresh entered contained small covered free, closure]
    rw [covers] at covered
    rw [slots] at free
    exact (enterSelfld_byte fresh' entered' contained' small covered free).symm

/-- A program that refers to `f`, which it exports itself, and a preload object. -/
def preloadWorld (main preload : Database) (rows : List String) : World where
  os := .lowest
  files path :=
    if path = "/main.self" then some main.connect
    else if path = "/pre.self" then some preload.connect
    else none
  resolver := some ⟨fun _ => .cursor [] .done, .cursor rows .done⟩

def selfReferring : Database := exporting 0x100 .empty
    ⟨[⟨0, 0x18, rJumpSlot, some 0, 0⟩], by decide⟩

theorem preload_interposes_selfReferring :
    ∃ out final out' final',
      enterSelfld (preloadWorld selfReferring (exporting 0x200 .empty .empty) [])
        selfReferring.connect "/main.self" unmappedSpace = .ok (out, final) ∧
      enterSelfld (preloadWorld selfReferring (exporting 0x200 .empty .empty) ["/pre.self"])
        selfReferring.connect "/main.self" unmappedSpace = .ok (out', final') ∧
      out.Interposed final ∧ out'.Interposed final' ∧
      (∀ slot, slot.LastIn out.closureSlots → out.Encloses slot → out.Untouched slot →
        out'.Untouched slot →
        final.load slot.address 8 = final'.load slot.address 8) ∧
      ∀ a < 2 ^ 64, out.Covers a → (∀ slot ∈ out.closureSlots, ¬ slot.Holds a) →
        final.byte a = final'.byte a := by
  have without : ∃ run, enterSelfld (preloadWorld selfReferring (exporting 0x200 .empty .empty) [])
      selfReferring.connect "/main.self" unmappedSpace = .ok run ∧
      run.1.closure.map (·.loadBias) = [0x1000000] ∧ ∀ obj ∈ run.1.preloads, obj.Inside :=
    exists_of_map_decide (by decide +kernel)
  have withPreload : ∃ run,
      enterSelfld (preloadWorld selfReferring (exporting 0x200 .empty .empty) ["/pre.self"])
      selfReferring.connect "/main.self" unmappedSpace = .ok run ∧
      run.1.closure.map (·.loadBias) = [0x1000000] ∧ ∀ obj ∈ run.1.preloads, obj.Inside :=
    exists_of_map_decide (by decide +kernel)
  obtain ⟨⟨out, final⟩, entered, placed, inside⟩ := without
  obtain ⟨⟨out', final'⟩, entered', placed', inside'⟩ := withPreload
  have same : World.SameObjects (preloadWorld selfReferring (exporting 0x200 .empty .empty) [])
    (preloadWorld selfReferring (exporting 0x200 .empty .empty) ["/pre.self"]) := ⟨rfl, rfl⟩
  refine ⟨out, final, out', final', entered, entered', ?_⟩
  exact preload_interposes same Os.lowest_fresh Os.lowest_fresh entered entered'
    (placed.trans placed'.symm) (fun obj member => (inside obj member).contained)
      (fun obj member => (inside' obj member).contained)

/-- A program with two relocations of one slot, and a preload object with a
relocation outside itself. -/
def twiceBound : Database :=
  exporting 0x100 .empty
    ⟨[⟨0, 0x18, rJumpSlot, some 0, 0⟩, ⟨1, 0x18, rRelative, none, 0x20⟩], by decide⟩

def reachingOut : Database := exporting 0x200 .empty
    ⟨[⟨0, -0xffffe0, rRelative, none, 0⟩], by decide⟩

theorem twiceBound_alone :
    ∃ run, enterSelfld (preloadWorld twiceBound (exporting 0x200 .empty .empty) [])
      twiceBound.connect "/main.self" unmappedSpace = .ok run ∧
      run.1.closure.map (·.loadBias) = [0x1000000] :=
  exists_of_map_decide (by decide +kernel)

theorem twiceBound_preloaded :
    ∃ run, enterSelfld (preloadWorld twiceBound (exporting 0x200 .empty .empty) ["/pre.self"])
      twiceBound.connect "/main.self" unmappedSpace = .ok run ∧
      run.1.closure.map (·.loadBias) = [0x1000000] ∧
      ∃ slot ∈ run.1.closureSlots, run.1.Encloses slot ∧ columnInt slot.row.rtype = rJumpSlot ∧
        slot.row.name = some "f" ∧ (∃ obj ∈ run.1.preloads, obj.Exports "f") ∧
        ¬ ∃ obj ∈ run.1.preloads, ∃ definition ∈ obj.definitions, definition.name = "f" ∧
          run.2.load slot.address 8 = leBytes 8 (slot.bound definition) :=
  exists_of_map_decide (by decide +kernel)

theorem reachingOut_absent :
    ∃ run, enterSelfld (preloadWorld selfReferring reachingOut [])
      selfReferring.connect "/main.self" unmappedSpace = .ok run ∧
      run.1.closure.map (·.loadBias) = [0x1000000] ∧ run.1.Covers 0x1000023 ∧
      (∀ slot ∈ run.1.closureSlots, ¬ slot.Holds 0x1000023) ∧ run.2.byte 0x1000023 = 0 :=
  exists_of_map_decide (by decide +kernel)

theorem reachingOut_preloaded :
    ∃ run, enterSelfld (preloadWorld selfReferring reachingOut ["/pre.self"])
      selfReferring.connect "/main.self" unmappedSpace = .ok run ∧
      run.1.closure.map (·.loadBias) = [0x1000000] ∧ run.2.byte 0x1000023 = 2 :=
  exists_of_map_decide (by decide +kernel)

/-- The slot of `f` holds what its second relocation stores, and a byte of the
program that none of its relocations covers depends on the preload object. -/
theorem preload_meddles :
    (∃ out final out' final',
      enterSelfld (preloadWorld twiceBound (exporting 0x200 .empty .empty) [])
        twiceBound.connect "/main.self" unmappedSpace = .ok (out, final) ∧
      enterSelfld (preloadWorld twiceBound (exporting 0x200 .empty .empty) ["/pre.self"])
        twiceBound.connect "/main.self" unmappedSpace = .ok (out', final') ∧
      out.closure.map (·.loadBias) = out'.closure.map (·.loadBias) ∧
      ∃ slot ∈ out'.closureSlots, out'.Encloses slot ∧ columnInt slot.row.rtype = rJumpSlot ∧
        slot.row.name = some "f" ∧ (∃ obj ∈ out'.preloads, obj.Exports "f") ∧
        ¬ ∃ obj ∈ out'.preloads, ∃ definition ∈ obj.definitions, definition.name = "f" ∧
          final'.load slot.address 8 = leBytes 8 (slot.bound definition)) ∧
    ∃ out final out' final',
      enterSelfld (preloadWorld selfReferring reachingOut [])
        selfReferring.connect "/main.self" unmappedSpace = .ok (out, final) ∧
      enterSelfld (preloadWorld selfReferring reachingOut ["/pre.self"])
        selfReferring.connect "/main.self" unmappedSpace = .ok (out', final') ∧
      out.closure.map (·.loadBias) = out'.closure.map (·.loadBias) ∧
      ∃ a < 2 ^ 64, out.Covers a ∧ (∀ slot ∈ out.closureSlots, ¬ slot.Holds a) ∧
        final.byte a ≠ final'.byte a := by
  constructor
  · obtain ⟨⟨out, final⟩, entered, placed⟩ := twiceBound_alone
    obtain ⟨⟨out', final'⟩, entered', placed', slot⟩ := twiceBound_preloaded
    exact ⟨out, final, out', final', entered, entered', placed.trans placed'.symm, slot⟩
  · obtain ⟨⟨out, final⟩, entered, placed, covered, free, zero⟩ := reachingOut_absent
    obtain ⟨⟨out', final'⟩, entered', placed', two⟩ := reachingOut_preloaded
    refine ⟨out, final, out', final', entered, entered', placed.trans placed'.symm,
      0x1000023, by decide, covered, free, fun same => ?_⟩
    have byte : (0 : UInt8) = 2 := zero.symm.trans (same.trans two)
    revert byte
    decide

end SelfDb
