import SelfDb.Loader.NativeReach
import SelfDb.Loader.SelfLdRun
import SelfDb.Loader.Slots

/-! Which programs `self-ld` gets through to: a closure in which every name leads to an object that
defines it is entered, where the kernel and the allocator grant what the run asks for. -/
namespace SelfDb
open Paging Binary Binding

/-! What the run asks for. -/

/-- The kernel grants the pages of the rows, each in the memory that the rows before it left. -/
def ObjectRowsGranted (os : Os) (bias : Nat) : List SegmentRow → Memory → Prop
  | [], _ => True
  | R :: rest, mem =>
    os.grants mem (R.layer bias R.softProt).start (R.layer bias R.softProt).length = true ∧
      ∀ next, mapObjectRow os bias R mem = .ok next → ObjectRowsGranted os bias rest next

/-- What `map_object` asks for: a reservation, the pages of the rows, and memory for the contents
and the exports. -/
structure ObjectGranted (os : Os) (conn : Connection) (mem : Memory) : Prop where
  span : (os.reserve mem (holeLength conn.loadBounds.rows)).isSome
  rows : ∀ bias before,
    reserveSpan os (boundsLoop conn.loadBounds.rows (2 ^ 64 - 1, 0)).1
      (boundsLoop conn.loadBounds.rows (2 ^ 64 - 1, 0)).2 true mem = .ok (bias, before) →
    ObjectRowsGranted os bias conn.loadSegments.rows before
  blobs : BlobsHeld os conn.loadSegments.rows
  exports : ∀ row ∈ conn.exports.rows, row.1 ≠ "" →
    os.malloc 24 = true ∧ os.malloc (row.1.utf8ByteSize + 1) = true

/-- So for each object of a loop. -/
def LibsGranted (world : World) (pathOf : String → Run String) :
    List String → List SelfObject → Linking → Prop
  | [], _, _ => True
  | row :: rest, libs, state => ∀ path, pathOf row = .ok path →
    (∀ conn, world.files path = some conn → ObjectGranted world.os conn state.memory) ∧
      ∀ lib next, mapObject world path (libSlot libs.length) state = .ok (lib, next) →
        LibsGranted world pathOf rest (libs ++ [lib]) next

/-- What a run of `self-ld` asks of the kernel and the allocator is granted, at the point where it
asks. -/
structure SelfldGranted (world : World) (maindb : Connection) (path : String)
    (envp : List CString) (mem : Memory) : Prop where
  main : ∀ conn, world.files path = some conn → ObjectGranted world.os conn mem
  needed : ∀ obj first, mapObject world path (.ok ()) ⟨mem, []⟩ = .ok (obj, first) →
    LibsGranted world (resolveNeeded world) obj.conn.needed.rows [] first
  preloads : ∀ obj first libs second, mapObject world path (.ok ()) ⟨mem, []⟩ = .ok (obj, first) →
    libsLoop world (resolveNeeded world) obj.conn.needed.rows [] first = .ok (libs, second) →
      LibsGranted world .ok (preloadPaths world) libs second
  stack : ∀ out, runSelfld world maindb path mem = .ok out →
    (world.os.reserve out.memory selfldStackSize).isSome ∧ calloc world.os 1 = .ok () ∧
      calloc world.os envp.length = .ok ()

/-- A kernel that chooses places chooses none at address zero. -/
def Os.Nonzero (os : Os) : Prop := ∀ {mem length base}, os.reserve mem length = some base → base ≠ 0

/-! What the closure must be. -/

/-- What was converted from a file whose segments can be mapped. -/
def FileObject (conn : Connection) : Prop :=
  ∃ data db, SelfOf data db ∧ conn = db.connect ∧ RowsMappable (fileRows data) True

/-- The main program and what is listed: each name leads to a file, and there are slots for all. -/
structure World.Locates (world : World) (path : String) (main : Connection)
    (needed preloads : List Connection) : Prop where
  program : world.files path = some main
  libraries : List.Forall₂ (fun soname conn => ∃ libpath, resolveNeeded world soname = .ok libpath ∧
    world.files libpath = some conn) main.needed.rows needed
  interposed : List.Forall₂ (fun preload conn => world.files preload = some conn)
    (preloadPaths world) preloads
  room : needed.length + preloads.length ≤ maxLibs

/-- The address is on a page of a load row. -/
def Connection.Covers (conn : Connection) (u : Nat) : Prop :=
  ∃ R ∈ conn.loadSegments.rows, OnPages R.start R.size u

instance (conn : Connection) (u : Nat) : Decidable (conn.Covers u) :=
  inferInstanceAs (Decidable (∃ R ∈ _, _))

/-- The relocation is of a kind that is handled, its slot is on the pages of its object, and a
symbol that it names is exported, wherever it is, at an address of the exporting object. -/
structure Bindable (conns : List Connection) (conn : Connection) (r : BoundRelocation) :
    Prop where
  slot : ∀ k < 8, conn.Covers (sizeT r.offset + k)
  kind : columnInt r.rtype = rRelative ∨ columnInt r.rtype ∈ [rGlobDat, rJumpSlot, r64] ∧
    ∃ name ∈ r.name, name ≠ "" ∧
      (∃ other ∈ conns, ∃ row ∈ other.exports.rows, row.1 = name) ∧
      ∀ other ∈ conns, ∀ row ∈ other.exports.rows, row.1 = name → other.Covers (sizeT row.2)

instance (conns : List Connection) (conn : Connection) (r : BoundRelocation) :
    Decidable (Bindable conns conn r) :=
  decidable_of_iff (_ ∧ _) ⟨fun both => ⟨both.1, both.2⟩, fun bind => ⟨bind.slot, bind.kind⟩⟩

/-- Every object of the closure was converted from a file, and can be bound. -/
structure WellLinked (conns : List Connection) : Prop where
  files : ∀ conn ∈ conns, FileObject conn
  bindable : ∀ conn ∈ conns, ∀ r ∈ conn.relocations.rows, Bindable conns conn r

/-! The mapping phase. -/

section Mapping
variable {os : Os}

theorem mapObjectRow_completes (placed : Placed bias lo hi) {R : SegmentRow}
    (loadable : R.Loadable) (within : R.Within lo hi) (pages : R.HasPages)
    (held : R.bytes ≠ [] → os.malloc R.bytes.length = true)
    (granted : os.grants mem (R.layer bias R.softProt).start (R.layer bias R.softProt).length =
      true) : ∃ after, mapObjectRow os bias R mem = .ok after := by
  obtain ⟨buf, blob, buffer⟩ := copyBlob_ok_iff.mpr held
  obtain ⟨vaddr, filesz, memsz⟩ := loadable.words
  obtain ⟨_, small, fits⟩ := loadable.bounds
  obtain ⟨first, _⟩ := segment_placed placed within.1 within.2 pages
  have positive : 0 < pageCeil (R.start + R.size) - alignDown R.start := Nat.sub_pos_of_lt pages
  have length := span_length placed.page R.start R.size
  rw [segment_pages small, first] at length
  have aligned : wrap (bias + alignDown R.start) % pageSize = 0 := first ▸ alignDown_mod _
  rw [layer_start placed loadable, layer_length placed loadable] at granted
  have fixed : mmapFixed os mem (wrap (bias + alignDown R.start))
      (pageCeil (R.start + R.size) - alignDown R.start) =
        some (mem.mapAnonymous (wrap (bias + alignDown R.start))
          (pageCeil (R.start + R.size) - alignDown R.start) .readWrite) := by
    rw [mmapFixed, if_neg positive.ne', if_pos granted]
  have copied : ∃ after, copyBuf (mem.mapAnonymous (wrap (bias + alignDown R.start))
      (pageCeil (R.start + R.size) - alignDown R.start) .readWrite) (wrap (bias + R.start)) buf
      R.bytes.length = .ok after := by
    cases buf with
    | none => exact ⟨_, rfl⟩
    | some bytes =>
      have same : bytes = R.bytes := buffer
      rw [same, copyBuf, memcpy, if_pos]
      · exact ⟨_, rfl⟩
      · exact ⟨le_rfl, fun k bound => Memory.mapAnonymous_writable aligned
          (segment_inSpan placed within.1 within.2 pages (bound.trans_le fits)) mem⟩
  obtain ⟨after, copied⟩ := copied
  simp only [mapObjectRow, bind_eq_ok_iff, orDie_eq_ok_iff, vaddr, filesz, memsz, first, length,
    fixed]
  exact ⟨_, buf, blob, _, rfl, after, copied, rfl⟩

theorem mapRows_complete (placed : Placed bias lo hi) {rows : List SegmentRow}
    (fit : ∀ R ∈ rows, R.Loadable ∧ R.Within lo hi ∧ R.HasPages) (blobs : BlobsHeld os rows)
    (granted : ObjectRowsGranted os bias rows mem) :
    ∃ after, rows.foldlM (fun mem R => mapObjectRow os bias R mem) mem = .ok after := by
  induction rows generalizing mem with
  | nil => exact ⟨mem, rfl⟩
  | cons R rest ih =>
    rw [List.forall_mem_cons] at fit
    rw [BlobsHeld, List.forall_mem_cons] at blobs
    obtain ⟨⟨loadable, within, pages⟩, later⟩ := fit
    obtain ⟨next, mapped⟩ :=
      mapObjectRow_completes placed loadable within pages blobs.1 granted.1
    obtain ⟨after, others⟩ := ih later blobs.2 (granted.2 next mapped)
    exact ⟨after, by rw [List.foldlM_cons, mapped, ok_bind, others]⟩

theorem exportLoop_completes_iff (bias : Nat) (rows : List (String × Int)) (syms : List Sym) :
    (∃ after, exportLoop os bias rows syms = .ok after) ↔ ∀ row ∈ rows, row.1 ≠ "" →
      os.malloc 24 = true ∧ os.malloc (row.1.utf8ByteSize + 1) = true := by
  induction rows generalizing syms with
  | nil => exact iff_of_true ⟨syms, rfl⟩ (List.forall_mem_nil _)
  | cons row rest ih =>
    obtain ⟨name, value⟩ := row
    rw [List.forall_mem_cons, exportLoop]
    by_cases empty : name = ""
    · rw [if_pos empty, ih, and_iff_right fun named => absurd empty named]
    · rw [if_neg empty, exportAdd]
      by_cases held : os.malloc 24 = true ∧ os.malloc (name.utf8ByteSize + 1) = true
      · rw [if_pos held, ok_bind, ih, and_iff_right fun _ => held]
      · rw [if_neg held]
        exact iff_of_false (by rintro ⟨_, ⟨⟩⟩) fun all => held (all.1 empty)

/-! What a run that gets through was granted. -/

theorem mapObjectRow_granted (mapped : mapObjectRow os bias R mem = .ok after) :
    os.grants mem (R.layer bias R.softProt).start (R.layer bias R.softProt).length = true ∧
      (R.bytes ≠ [] → os.malloc R.bytes.length = true) := by
  simp only [mapObjectRow, bind_eq_ok_iff, orDie_eq_ok_iff, mmapFixed] at mapped
  obtain ⟨buf, blob, _, fixed, _⟩ := mapped
  have positive := (Option.ite_none_left_eq_some.mp fixed).2
  exact ⟨(Option.ite_none_right_eq_some.mp positive).1,
    copyBlob_ok_iff.mp ⟨buf, blob, copyBlob_inv blob⟩⟩

theorem mapRows_granted {rows : List SegmentRow}
    (mapped : rows.foldlM (fun mem R => mapObjectRow os bias R mem) mem = .ok after) :
    ObjectRowsGranted os bias rows mem ∧ BlobsHeld os rows := by
  induction rows generalizing mem with
  | nil => exact ⟨trivial, List.forall_mem_nil _⟩
  | cons R rest ih =>
    rw [List.foldlM_cons, bind_eq_ok_iff] at mapped
    obtain ⟨next, step, later⟩ := mapped
    obtain ⟨granted, held⟩ := mapObjectRow_granted step
    obtain ⟨others, blobs⟩ := ih later
    refine ⟨⟨granted, fun next' again => ?_⟩, List.forall_mem_cons.mpr ⟨held, blobs⟩⟩
    cases step.symm.trans again
    exact others

end Mapping

theorem mapObject_granted (opened : world.files path = some conn)
    (mapped : mapObject world path slot state = .ok out) :
    ObjectGranted world.os conn state.memory := by
  simp only [mapObject, opened, bind_eq_ok_iff, orDie_eq_ok_iff, Option.some.injEq,
    exists_eq_left'] at mapped
  obtain ⟨_, _, ⟨bias, before⟩, reserved, _, rows, syms, published, _⟩ := mapped
  obtain ⟨base, chosen, _⟩ := reserveSpan_laid reserved
  obtain ⟨granted, held⟩ := mapRows_granted rows
  refine ⟨Option.isSome_iff_exists.mpr ⟨base, chosen⟩, fun bias' before' again => ?_, held,
    (exportLoop_completes_iff bias _ _).mp ⟨syms, published⟩⟩
  cases reserved.symm.trans again
  exact granted

theorem libsLoop_granted (looped : libsLoop world pathOf rows libs state = .ok out) :
    LibsGranted world pathOf rows libs state := by
  induction rows generalizing libs state with
  | nil => trivial
  | cons row rest ih =>
    simp only [libsLoop, bind_eq_ok_iff] at looped
    obtain ⟨path, located, ⟨lib, next⟩, mapped, later⟩ := looped
    intro path' again
    cases located.symm.trans again
    refine ⟨fun conn opened => mapObject_granted opened mapped, fun lib' next' again => ?_⟩
    cases mapped.symm.trans again
    exact ih later

theorem startSelfld_granted
    (started : startSelfld world caller maindb path argv envp mem = .ok out) :
    SelfldGranted world maindb path envp mem := by
  simp only [startSelfld, bind_eq_ok_iff] at started
  obtain ⟨linked, reached, stack, built, _⟩ := started
  simp only [selfldBuildStack, bind_eq_ok_iff, orDie_eq_ok_iff] at built
  obtain ⟨base, reserved, _, args, _, env, _⟩ := built
  have run := reached
  simp only [runSelfld, bind_eq_ok_iff] at run
  obtain ⟨_, _, _, _, ⟨obj, first⟩, mapped, ⟨libs, second⟩, looped, ⟨all, third⟩, preloaded, _⟩ :=
    run
  refine ⟨fun conn opened => mapObject_granted opened mapped, fun obj' first' again => ?_,
    fun obj' first' libs' second' again again' => ?_, fun linked' again => ?_⟩
  · cases mapped.symm.trans again
    exact libsLoop_granted looped
  · cases mapped.symm.trans again
    cases looped.symm.trans again'
    exact libsLoop_granted preloaded
  · cases reached.symm.trans again
    exact ⟨Option.isSome_iff_exists.mpr ⟨base, reserved⟩, args, env⟩

theorem mapObject_completes (fresh : world.os.Fresh) (opened : world.files path = some conn)
    (file : FileObject conn) (granted : ObjectGranted world.os conn state.memory) :
    ∃ out, mapObject world path (.ok ()) state = .ok out := by
  obtain ⟨data, db, self, rfl, mappable⟩ := file
  obtain ⟨lief, converted⟩ := self.converted
  have rows : db.loadRows = fileRows data := loadRows_eq (convert_sound converted)
  have loadable := self.loadable
  obtain ⟨pages, span⟩ := rowsMappable_iff.mp mappable
  have bounds : boundsLoop db.connect.loadBounds.rows (2 ^ 64 - 1, 0) =
      rowBounds (fileRows data) := rows ▸ loadBounds_connect db
  have segments : db.connect.loadSegments.rows = fileRows data := rows
  obtain ⟨room, fixed, blobs, exports⟩ := granted
  rw [holeLength, bounds] at room
  obtain ⟨base, chosen⟩ := Option.isSome_iff_exists.mp room
  have reserved := (reserveSpan_eq_ok_iff loadable pages true state.memory _).mpr
    ⟨fun _ => span trivial, Option.map_eq_some_iff.mpr ⟨base, chosen, rfl⟩⟩
  have placed := rowBounds_placed loadable pages (span trivial) (fresh.aligned chosen)
    (fresh.room chosen)
  rw [bounds, segments] at fixed
  rw [segments] at blobs
  obtain ⟨after, mapped⟩ := mapRows_complete placed (fun R member =>
    ⟨loadable R member, rowBounds_within loadable R member, pages R member⟩) blobs
    (fixed _ _ reserved)
  obtain ⟨syms, published⟩ := (exportLoop_completes_iff
    (sub64 base (alignDown (rowBounds (fileRows data)).1)) _ state.syms).mpr exports
  rw [mapObject, opened, orDie, ok_bind, ok_bind, bounds, segments]
  simp only [reserved, mapped, published, ok_bind]
  exact ⟨_, rfl⟩

theorem libsLoop_completes (fresh : world.os.Fresh) {pathOf : String → Run String}
    (listed : List.Forall₂ (fun row conn => ∃ libpath, pathOf row = .ok libpath ∧
      world.files libpath = some conn) rows conns) (files : ∀ conn ∈ conns, FileObject conn)
    (room : libs.length + conns.length ≤ maxLibs)
    (granted : LibsGranted world pathOf rows libs state) :
    ∃ out, libsLoop world pathOf rows libs state = .ok out := by
  induction listed generalizing libs state with
  | nil => exact ⟨_, rfl⟩
  | cons head _ ih =>
    rw [List.forall_mem_cons] at files
    rw [List.length_cons] at room
    obtain ⟨libpath, located, opened⟩ := head
    obtain ⟨first, others⟩ := granted libpath located
    have slot : libSlot libs.length = .ok () := if_pos (by omega)
    rw [slot] at others
    obtain ⟨⟨lib, next⟩, mapped⟩ :=
      mapObject_completes fresh opened files.1 (first _ opened)
    obtain ⟨out, looped⟩ := ih files.2
      (by rw [List.length_append, List.length_singleton]; omega) (others lib next mapped)
    refine ⟨out, ?_⟩
    rw [libsLoop, located, ok_bind, slot, mapped]
    exact looped

/-! What is covered by an object that was mapped. -/

/-- A page of a row is where the row is placed. -/
theorem layer_onPages (placed : Placed bias lo hi) {R : SegmentRow} (loadable : R.Loadable)
    (within : R.Within lo hi) (on : OnPages R.start R.size u) :
    InSpan (R.layer bias prot).start (R.layer bias prot).length (wrap (bias + u)) := by
  obtain ⟨low, high⟩ := on
  have within' := within
  rw [SegmentRow.Within] at within'
  rw [layer_start placed loadable, layer_length placed loadable,
    placed.inSpan_iff (by omega) (by omega) within.1 (by omega) (by omega), InSpan]
  omega

namespace SelfObject

/-- The rows of an object are laid writable. -/
theorem Laid.writable {os : Os} {obj : SelfObject} (laid : obj.Laid os mem (first :: rows)) :
    ∀ layer ∈ rows, layer.prot.write = true := by
  obtain ⟨_, _, same, _, _, each⟩ := laid
  obtain ⟨rfl, rfl⟩ := List.cons.inj same
  intro layer member
  obtain ⟨R, _, _, prot, rfl, writes, -⟩ := exists_of_forall₂ each layer member
  exact writes

/-- What an object covers is writable once it is mapped, and not at address zero. -/
theorem Laid.covers {os : Os} (fresh : os.Fresh) (nonzero : os.Nonzero) {obj : SelfObject}
    (mapped : obj.Mapped) (loads : obj.Loads rows) (laid : obj.Laid os mem layers)
    (covers : obj.conn.Covers u) :
    wrap (obj.loadBias + u) ≠ 0 ∧
      (layers.foldl Memory.lay mem).Writable (wrap (obj.loadBias + u)) := by
  obtain ⟨base, own, rfl, held, are⟩ := laid.rowsReserved fresh mapped loads
  obtain ⟨R, member, on⟩ := covers
  rw [loads.segments] at member
  obtain ⟨lo, hi, placed, within⟩ := held.placed.2 R member
  have loadable := loads.loadable R member
  have inside : InSpan (R.layer obj.loadBias .noAccess).start
      (R.layer obj.loadBias .noAccess).length (wrap (obj.loadBias + u)) :=
    layer_onPages placed loadable within on
  constructor
  · intro zero
    have reached : (R.layer obj.loadBias .noAccess).byteAt (wrap (obj.loadBias + u)) ≠ none := by
      rw [Layer.byteAt, if_pos inside]
      simp
    have outside : ¬ InSpan base (holeLength (loadsOf rows)) 0 :=
      fun here => nonzero held.reserved (Nat.le_zero.mp here.1)
    rw [zero] at reached
    exact reached (held.off 0 (by decide) outside R member)
  · rw [List.foldl_cons]
    refine foldl_lay_writable laid.writable ?_ _
    have listed : R.layer obj.loadBias .noAccess ∈ own.map SelfDb.bare :=
      are ▸ List.mem_map_of_mem member
    obtain ⟨layer, there, same⟩ := List.mem_map.mp listed
    have onPage : (SelfDb.bare layer).OnPage (wrap (obj.loadBias + u) / pageSize) :=
      same ▸ inSpan_page (alignDown_mod _) inside
    exact ⟨layer, there, onPage⟩

end SelfObject

theorem ObjectsLaid.covers {os : Os} (fresh : os.Fresh) (nonzero : os.Nonzero)
    (laid : ObjectsLaid os mem objs layers) (mapped : ∀ obj ∈ objs, obj.Mapped)
    (load : ∀ obj ∈ objs, ∃ rows, obj.Loads rows) :
    ∀ obj ∈ objs, ∀ u, obj.conn.Covers u → wrap (obj.loadBias + u) ≠ 0 ∧
      (layers.foldl Memory.lay mem).Writable (wrap (obj.loadBias + u)) := by
  induction laid with
  | nil => exact List.forall_mem_nil _
  | cons head later ih =>
    rw [List.forall_mem_cons] at mapped load ⊢
    rw [List.foldl_append]
    refine ⟨fun u covers => ?_, ih mapped.2 load.2⟩
    obtain ⟨rows, loads⟩ := load.1
    obtain ⟨here, writable⟩ := head.covers fresh nonzero mapped.1 loads covers
    have same := later.untouched fresh mapped.2 load.2 (wrap_lt _)
      (Option.isSome_of_any writable)
    exact ⟨here, same.writable writable⟩

/-! The relocation phase. -/

theorem exportFind_ne_zero {syms : List Sym} (exported : ∃ s ∈ syms, s.name = name)
    (all : ∀ s ∈ syms, s.name = name → s.addr ≠ 0) : exportFind syms name ≠ 0 := by
  induction syms with
  | nil =>
    obtain ⟨_, member, _⟩ := exported
    cases member
  | cons s next ih =>
    rw [List.forall_mem_cons] at all
    rw [exportFind]
    split
    · exact all.1 ‹_›
    · next other =>
      obtain ⟨s', member, named⟩ := exported
      rcases List.mem_cons.mp member with rfl | later
      · exact absurd named other
      · exact ih ⟨s', later, named⟩ all.2

theorem relocValue_completes {r : BoundRelocation}
    (kind : columnInt r.rtype = rRelative ∨ columnInt r.rtype ∈ [rGlobDat, rJumpSlot, r64] ∧
      ∃ name, r.name = some name ∧ exportFind syms name ≠ 0) :
    ∃ value, relocValue syms bias r = .ok value := by
  rcases kind with relative | ⟨symbolic, name, named, found⟩
  · exact ⟨_, by rw [relocValue, if_pos relative]⟩
  · simp only [List.mem_cons, List.not_mem_nil, or_false] at symbolic
    have other : columnInt r.rtype ≠ rRelative := by
      rcases symbolic with type | type | type <;> rw [type] <;> decide
    simp only [relocValue, if_neg other, if_pos symbolic, named, if_neg found]
    exact ⟨_, rfl⟩

/-- Every relocation has a value, and a slot that is writable. -/
theorem slots_ready {os : Os} (fresh : os.Fresh) (nonzero : os.Nonzero)
    (laid : ObjectsLaid os mem objs layers) (mapped : ∀ obj ∈ objs, obj.Mapped)
    (linked : WellLinked (objs.map (·.conn))) :
    ∀ slot ∈ objs.flatMap SelfObject.slots,
      slot.Ready (stacked SelfObject.definitions objs) (layers.foldl Memory.lay mem) := by
  have files : ∀ obj ∈ objs, ∃ data, obj.OfFile data := by
    intro obj member
    obtain ⟨data, db, self, same, -⟩ := linked.files _ (List.mem_map_of_mem member)
    exact ⟨data, db, self, same⟩
  have covers := laid.covers fresh nonzero mapped (loads_of_files files)
  intro slot member
  obtain ⟨obj, listed, own⟩ := List.mem_flatMap.mp member
  obtain ⟨r, row, rfl⟩ := List.mem_map.mp own
  obtain ⟨inside, kind⟩ := linked.bindable _ (List.mem_map_of_mem listed) r row
  constructor
  · refine relocValue_completes (kind.imp_right fun bound => ?_)
    obtain ⟨symbolic, name, named, nonempty, ⟨_, exporter, definition, exported, same⟩, all⟩ :=
      bound
    obtain ⟨other, there, rfl⟩ := List.mem_map.mp exporter
    refine ⟨symbolic, name, named, exportFind_ne_zero ?_ ?_⟩
    · refine ⟨⟨definition.1, wrap (other.loadBias + sizeT definition.2)⟩,
        (mem_stacked _ _ _).mpr ⟨other, there, ?_⟩, same⟩
      exact List.mem_map_of_mem (List.mem_filter.mpr ⟨exported, by simpa [same] using nonempty⟩)
    · intro s pushed called
      obtain ⟨other, there, defined⟩ := (mem_stacked _ _ _).mp pushed
      obtain ⟨row, exported, rfl⟩ := List.mem_map.mp defined
      have here := all _ (List.mem_map_of_mem there) row (List.mem_filter.mp exported).1 called
      exact (covers other there _ here).1
  · intro k bound
    rw [Slot.address, wrap_wrap_add, Nat.add_assoc]
    exact (covers obj listed _ (inside k bound)).2

/-! The whole run. -/

theorem forall₂_conn {objs : List SelfObject} {P : String → Connection → Prop}
    (functional : ∀ {row conn conn'}, P row conn → P row conn' → conn = conn')
    (listed : List.Forall₂ P rows conns) (mapped : List.Forall₂ (fun row obj => P row obj.conn)
      rows objs) : objs.map (·.conn) = conns := by
  induction listed generalizing objs with
  | nil =>
    cases mapped
    rfl
  | cons head _ ih =>
    obtain - | ⟨head', rest⟩ := mapped
    rw [List.map_cons, functional head' head, ih rest]

/-- The objects of the loops are those of the closure. -/
theorem World.Locates.needed_conn (located : world.Locates path main needed preloads)
    (looped : libsLoop world (resolveNeeded world) main.needed.rows [] first = .ok (libs, second)) :
    libs.map (·.conn) = needed := by
  obtain ⟨_, rfl, found, _⟩ := libsLoop_inv looped
  refine forall₂_conn ?_ located.libraries found
  rintro row conn conn' ⟨_, here, file⟩ ⟨_, again, other⟩
  cases here.symm.trans again
  exact Option.some.inj (file.symm.trans other)

theorem World.Locates.preloads_conn (located : world.Locates path main needed preloads)
    (preloaded : libsLoop world .ok (preloadPaths world) libs second = .ok (all, third)) :
    all.map (·.conn) = libs.map (·.conn) ++ preloads := by
  obtain ⟨more, rfl, found, _⟩ := libsLoop_inv preloaded
  have files : List.Forall₂ (fun preload obj => world.files preload = some (SelfObject.conn obj))
      (preloadPaths world) more := by
    refine found.imp ?_
    rintro preload obj ⟨_, same, file⟩
    cases same
    exact file
  rw [List.map_append, forall₂_conn (fun file other => Option.some.inj (file.symm.trans other))
    located.interposed files]

/-- When a closure that is well linked is mapped, all its relocations can be made. -/
theorem relocations_complete {world : World} (fresh : world.os.Fresh) (nonzero : world.os.Nonzero)
    (linked : WellLinked (obj.conn :: all.map (·.conn)))
    (mapped : mapObject world path (.ok ()) ⟨mem, []⟩ = .ok (obj, first))
    (looped : libsLoop world pathOf names [] first = .ok (libs, second))
    (preloaded : libsLoop world pathOf' names' libs second = .ok (all, third)) :
    ∃ after, (all ++ [obj]).foldlM (relocate third.syms) third.memory = .ok after := by
  obtain ⟨_, published⟩ := mapObject_inv mapped
  obtain ⟨_, rfl, _, table⟩ := libsLoop_inv looped
  obtain ⟨more, rfl, _, table'⟩ := libsLoop_inv preloaded
  obtain ⟨layers, laid, memory⟩ := mapObject_laid mapped
  obtain ⟨_, layers', rfl, others, memory'⟩ := libsLoop_laid looped
  obtain ⟨_, rest, same, last, memory''⟩ := libsLoop_laid preloaded
  obtain rfl := List.append_cancel_left same
  rw [memory] at others memory'
  rw [memory'] at last memory''
  rw [← List.foldl_append, ← List.foldl_append] at memory''
  have each : ∀ obj' ∈ obj :: (libs ++ more), obj'.Mapped := by
    rw [List.forall_mem_cons]
    have libraries := libsLoop_forall mapObject_mapped looped (List.forall_mem_nil _)
    exact ⟨mapObject_mapped mapped, libsLoop_forall mapObject_mapped preloaded libraries⟩
  have ready := slots_ready fresh nonzero (ObjectsLaid.cons laid (others.append last)) each linked
  have syms : third.syms = stacked SelfObject.definitions (obj :: (libs ++ more)) := by
    rw [table', table, published]
    simp [stacked]
  rw [relocateObjects_eq, memory'', syms]
  refine ⟨_, (relocateSlots_eq_ok_iff _ _ _ _).mpr ⟨fun slot member => ready slot ?_, rfl⟩⟩
  exact ((List.perm_append_singleton obj (libs ++ more)).flatMap_right _).mem_iff.mp member

theorem runSelfld_completes {world : World} (fresh : world.os.Fresh) (nonzero : world.os.Nonzero)
    (machine : selfMetaInt maindb .em = .ok emX86_64)
    (located : world.Locates path main needed preloads)
    (linked : WellLinked (main :: (needed ++ preloads)))
    (granted : SelfldGranted world maindb path envp mem) :
    ∃ out, runSelfld world maindb path mem = .ok out := by
  have files := linked.files
  rw [List.forall_mem_cons, List.forall_mem_append] at files
  obtain ⟨own, libraries, interposed⟩ := files
  have room := located.room
  have first : ∃ out, mapObject world path (.ok ()) ⟨mem, []⟩ = .ok out :=
    mapObject_completes fresh located.program own (granted.main _ located.program)
  obtain ⟨⟨obj, first⟩, mapped⟩ := first
  obtain rfl : main = obj.conn :=
    Option.some.inj (located.program.symm.trans (mapObject_inv mapped).1)
  obtain ⟨⟨libs, second⟩, looped⟩ := libsLoop_completes fresh located.libraries libraries
    (by rw [List.length_nil]; omega) (granted.needed obj first mapped)
  have conns := located.needed_conn looped
  have count : libs.length = needed.length := by rw [← conns, List.length_map]
  have paths := located.interposed.imp fun preload conn file =>
    (⟨preload, rfl, file⟩ : ∃ libpath, Except.ok preload = (.ok libpath : Run String) ∧
      world.files libpath = some conn)
  obtain ⟨⟨all, third⟩, preloaded⟩ := libsLoop_completes fresh paths interposed (by omega)
    (granted.preloads obj first libs second mapped looped)
  have objects := located.preloads_conn preloaded
  rw [conns] at objects
  obtain ⟨after, relocated⟩ :=
    relocations_complete fresh nonzero (objects ▸ linked) mapped looped preloaded
  rw [List.foldlM_append, bind_eq_ok_iff] at relocated
  obtain ⟨mid, first', last⟩ := relocated
  rw [List.foldlM_cons, bind_eq_ok_iff] at last
  obtain ⟨_, last, _⟩ := last
  simp only [runSelfld, bind_eq_ok_iff, machine, orDie_eq_ok_iff]
  exact ⟨_, _, rfl, (), if_pos rfl, _, mapped, _, looped, _, preloaded, _, first', _, last, rfl⟩

section Start
variable {world : World} {caller : Caller} {maindb main : Connection} {path : String}
  {argv envp : List CString}

/-- A closure in which every name leads to an object that defines it is entered just when the
kernel and the allocator grant what the run asks for. -/
theorem startSelfld_completes_iff (fresh : world.os.Fresh) (nonzero : world.os.Nonzero)
    (below : world.os.Below selfldStackSize) (machine : selfMetaInt maindb .em = .ok emX86_64)
    (located : world.Locates path main needed preloads)
    (linked : WellLinked (main :: (needed ++ preloads))) (named : argv ≠ [])
    (fits : selfldStackBytes caller (argv.take 1) envp ≤ selfldStackSize) :
    (∃ out, startSelfld world caller maindb path argv envp mem = .ok out) ↔
      SelfldGranted world maindb path envp mem := by
  refine ⟨fun ⟨out, started⟩ => startSelfld_granted started, fun granted => ?_⟩
  obtain ⟨out, reached⟩ := runSelfld_completes fresh nonzero machine located linked granted
  obtain ⟨pages, args, env⟩ := granted.stack out reached
  obtain ⟨base, reserved⟩ := Option.isSome_iff_exists.mp pages
  obtain ⟨_, -, built⟩ := selfldBuildStack_ok out.main.entry reserved (fresh.aligned reserved)
    (below reserved) args env (List.length_pos_of_ne_nil named) fits
  exact ⟨_, by rw [startSelfld, reached, ok_bind, built, ok_bind]; rfl⟩

end Start

theorem Os.lowest_nonzero : lowest.Nonzero := by
  intro mem length base reserved
  obtain ⟨k, _, rfl⟩ := List.mem_map.mp (List.mem_of_find?_eq_some reserved)
  omega

theorem mappedFile_mappable : RowsMappable (fileRows mappedFile) True := by
  refine ⟨by decide +kernel, fun _ => ?_⟩
  rintro ⟨-, R, member, high⟩
  have low : ∀ R ∈ fileRows mappedFile, R.start + R.size ≤ 2 ^ 64 - pageSize := by decide +kernel
  exact absurd high (not_lt.mpr (low R member))

theorem calling_linked (converted : convert (.ok calling) mappedFile = .ok db)
    (bindable : ∀ r ∈ db.connect.relocations.rows,
      Bindable [db.connect, db.connect] db.connect r) :
    WellLinked (db.connect :: ([db.connect] ++ [])) := by
  have file : FileObject db.connect :=
    ⟨mappedFile, db, ⟨⟨_, converted⟩, mappedFile_table.1⟩, rfl, mappedFile_mappable⟩
  constructor
  · simpa using file
  · simpa using bindable

theorem startSelfld_completes_iff_calling : ∃ db, convert (.ok calling) mappedFile = .ok db ∧
    ((∃ out, startSelfld (callingWorld db) bareCaller db.connect "/main.self" [programName]
      [someVariable] loaderSpace = .ok out) ↔
      SelfldGranted (callingWorld db) db.connect "/main.self" [someVariable] loaderSpace) ∧
    ∃ out, startSelfld (callingWorld db) bareCaller db.connect "/main.self" [programName]
      [someVariable] loaderSpace = .ok out := by
  have found : ∃ db, convert (.ok calling) mappedFile = .ok db ∧
      (selfGetInt db.connect .em = some emX86_64 ∧ db.connect.needed.rows.length = 1 ∧
        (∀ r ∈ db.connect.relocations.rows, Bindable [db.connect, db.connect] db.connect r) ∧
        (startSelfld (callingWorld db) bareCaller db.connect "/main.self" [programName]
          [someVariable] loaderSpace).toOption.isSome) :=
    exists_of_map_decide (by decide +kernel)
  obtain ⟨db, converted, machine, single, bindable, enters⟩ := found
  obtain ⟨soname, names⟩ := List.length_eq_one_iff.mp single
  have libraries : List.Forall₂ (fun soname conn => ∃ libpath,
      resolveNeeded (callingWorld db) soname = .ok libpath ∧
        (callingWorld db).files libpath = some conn) db.connect.needed.rows [db.connect] := by
    rw [names]
    exact .cons ⟨"/libf.self", rfl, rfl⟩ .nil
  have located : (callingWorld db).Locates "/main.self" db.connect [db.connect] [] :=
    ⟨rfl, libraries, .nil, by simp [maxLibs]⟩
  refine ⟨db, converted, startSelfld_completes_iff Os.lowest_fresh Os.lowest_nonzero
    (Os.lowest_below (by decide)) ((selfMetaInt_eq_ok_iff _ _ _).mpr machine) located
    (calling_linked converted bindable) (by simp) (by decide), exists_of_isSome enters⟩

end SelfDb
