import SelfDb.Loader.Hole
import SelfDb.Loader.Placement

/-! The two mapping loops of the repository on one database: what they leave in
memory, counted from the load bias of each. -/
namespace SelfDb
open Paging Binary

/-- What a load row puts at `u` of its object, before a load bias is added. -/
def SegmentRow.byteIn (R : SegmentRow) (u : Nat) : Option UInt8 :=
  (R.bytes.take (sizeT R.filesz))[sub64 (wrap u) (sizeT R.vaddr)]?.or
    (if sub64 (wrap u) (alignDown (sizeT R.vaddr)) <
      wrap (pageCeil (sizeT R.vaddr + sizeT R.memsz) - alignDown (sizeT R.vaddr)) then some 0
      else none)

theorem sizeT_lt (value : Int) : sizeT value < 2 ^ 64 := by
  simp only [sizeT]
  omega

theorem layer_byteAt (page : bias % pageSize = 0) {R : SegmentRow}
    (room : (R.layer bias prot).start + (R.layer bias prot).length ≤ 2 ^ 64) (u : Nat) :
    (R.layer bias prot).byteAt (wrap (bias + u)) = R.byteIn u := by
  have vaddr := sizeT_lt R.vaddr
  have down := alignDown_le (sizeT R.vaddr)
  have start : (R.layer bias prot).start = wrap (bias + alignDown (sizeT R.vaddr)) := by
    rw [← alignDown_add page, ← alignDown_wrap]
    rfl
  have length : (R.layer bias prot).length =
      wrap (pageCeil (sizeT R.vaddr + sizeT R.memsz) - alignDown (sizeT R.vaddr)) :=
        span_length page ..
  have content : (R.layer bias prot).content.byteAt (wrap (bias + u)) =
      (R.bytes.take (sizeT R.filesz))[sub64 (wrap u) (sizeT R.vaddr)]? := by
    rw [← sub64_shift bias u vaddr]
    rfl
  rw [Layer.byteAt, content, SegmentRow.byteIn, ← length]
  congr 1
  refine if_congr ?_ rfl rfl
  rw [inSpan_iff_sub64 room (start ▸ wrap_lt _) (wrap_lt _), start,
    sub64_shift bias u (by omega)]

/-! The page ranges of both loops were granted, so they do not wrap. -/

theorem mmapFixed_room {os : Os} (paged : os.Paged)
    (mapped : mmapFixed os mem start length = some after) :
    start + length ≤ 2 ^ 64 := by
  rw [mmapFixed] at mapped
  split at mapped
  · cases mapped
  · split at mapped
    · exact paged.fixed ‹_›
    · cases mapped

theorem mapLoop_room {os : Os} (paged : os.Paged) {rows : List SegmentRow}
    (looped : mapLoop os bias phoff rows phdr mem = .ok out) :
    ∀ R ∈ rows, ∀ prot, (R.layer bias prot).start + (R.layer bias prot).length ≤ 2 ^ 64 := by
  induction rows generalizing phdr mem with
  | nil => exact fun _ member => nomatch member
  | cons R rest ih =>
    simp only [mapLoop, mapSegment, bind_eq_ok_iff, orDie_eq_ok_iff] at looped
    obtain ⟨_, _, _, ⟨_, fixed, _⟩, later⟩ := looped
    exact List.forall_mem_cons.mpr ⟨fun _ => mmapFixed_room paged fixed, ih later⟩

theorem mapRows_room {os : Os} (paged : os.Paged) {rows : List SegmentRow}
    (mapped : rows.foldlM (fun mem R => mapObjectRow os bias R mem) mem = .ok after) :
    ∀ R ∈ rows, ∀ prot, (R.layer bias prot).start + (R.layer bias prot).length ≤ 2 ^ 64 := by
  intro R member prot
  obtain ⟨_, _, step⟩ := foldlM_each mapped R member
  simp only [mapObjectRow, bind_eq_ok_iff, orDie_eq_ok_iff] at step
  obtain ⟨_, _, _, fixed, _⟩ := step
  exact mmapFixed_room paged fixed

/-- What all load rows leave at `u` of their object. -/
def imageByte (rows : List SegmentRow) (u : Nat) : Option UInt8 :=
  lastAt (rows.map SegmentRow.byteIn) u

theorem rows_byteAt (page : bias % pageSize = 0) {rows : List SegmentRow}
    (protOf : SegmentRow → Prot)
    (room : ∀ R ∈ rows, ∀ prot, (R.layer bias prot).start + (R.layer bias prot).length ≤ 2 ^ 64)
    (u : Nat) :
    lastAt ((rows.map fun R => R.layer bias (protOf R)).map Layer.byteAt) (wrap (bias + u)) =
      imageByte rows u := by
  rw [List.map_map]
  exact lastAt_map_congr fun R member => layer_byteAt page (room R member _) u

/-- `map_program` leaves the image at its load bias. -/
theorem mapProgram_image {os : Os} (paged : os.Paged) {db : Database}
    (mapped : mapProgram os db.connect mem = .ok (exe, after))
    (found : imageByte db.loadRows u = some b) :
    after.byte (wrap (exe.loadBias + u)) = b := by
  obtain ⟨_, _, _, before, _, _, _, reserved, looped, _⟩ := mapProgram_steps mapped
  rw [mapLoop_laid looped, Memory.foldl_lay_byte, askedLayers,
    rows_byteAt (reserveSpan_page paged reserved) SegmentRow.prot (mapLoop_room paged looped),
    found]
  rfl

/-- So does `map_object`, over its reservation. -/
theorem mapObject_image {world : World} (paged : world.os.Paged) {db : Database}
    (opened : world.files path = some db.connect)
    (mapped : mapObject world path slot state = .ok (obj, after))
    (found : imageByte db.loadRows u = some b) :
    after.memory.byte (wrap (obj.loadBias + u)) = b := by
  obtain ⟨before, _, reserved, rows⟩ := mapObject_steps opened mapped
  obtain ⟨layers, laid, memory⟩ := mapRows_laid rows
  rw [memory, Memory.foldl_lay_byte, map_byteAt_bare, rowsLaid_bare laid,
    rows_byteAt (reserveSpan_page paged reserved) (fun _ => .noAccess) (mapRows_room paged rows),
    found]
  rfl

/-- The two loaders leave the same bytes wherever the object has some. -/
def SameImage (db : Database) (bias : Nat) (mem : Memory) (bias' : Nat) (mem' : Memory) : Prop :=
  ∀ u, imageByte db.loadRows u ≠ none → mem.byte (wrap (bias + u)) = mem'.byte (wrap (bias' + u))

/-- Position-independent objects go where the kernel has room, others to their own addresses. -/
def BiasRule (os : Os) (db : Database) (mem : Memory) (bias : Nat) : Prop :=
  (selfGetInt db.connect .et = some etDyn →
    ∃ base, os.reserve mem (holeLength db.loads) = some base ∧ bias = biasAt db.loads base) ∧
  (selfGetInt db.connect .et = some etExec → bias = 0)

theorem reserveSpan_answer {loads : List (Int × Int)}
    (reserved : reserveSpan os (boundsLoop loads (2 ^ 64 - 1, 0)).1
      (boundsLoop loads (2 ^ 64 - 1, 0)).2 true mem =
      .ok (bias, after)) :
    ∃ base, os.reserve mem (holeLength loads) = some base ∧ bias = biasAt loads base := by
  obtain ⟨base, chosen, place, _⟩ := reserveSpan_laid reserved
  exact ⟨base, chosen, place⟩

theorem mapProgram_biasRule {db : Database}
    (mapped : mapProgram os db.connect mem = .ok (exe, after)) :
    BiasRule os db mem exe.loadBias := by
  obtain ⟨et, _, _, before, found, _, _, reserved, _⟩ := mapProgram_steps mapped
  refine ⟨fun dyn => ?_, fun fixed => ?_⟩
  · cases found.symm.trans dyn
    exact reserveSpan_answer reserved
  · cases found.symm.trans fixed
    exact (Prod.mk.inj (Except.ok.inj reserved)).1.symm

/-- A base is left where it is linked only if the kernel happens to choose it. -/
theorem biasAt_eq_zero_iff (loads : List (Int × Int)) (small : base < 2 ^ 64) :
    biasAt loads base = 0 ↔ base = lowPage loads := by
  have low := lowPage_lt loads
  simp only [biasAt, sub64, wrap]
  omega

theorem mapObject_biasRule_iff {world : World} (paged : world.os.Paged) {db : Database}
    (opened : world.files path = some db.connect)
    (mapped : mapObject world path slot state = .ok (obj, after)) :
    BiasRule world.os db state.memory obj.loadBias ↔
      (selfGetInt db.connect .et = some etExec →
        world.os.reserve state.memory (holeLength db.loads) = some (lowPage db.loads)) := by
  obtain ⟨_, _, reserved, _⟩ := mapObject_steps opened mapped
  obtain ⟨base, chosen, place⟩ := reserveSpan_answer reserved
  have positive := Nat.pos_of_ne_zero (reserveSpan_span reserved)
  have room := paged.room chosen
  rw [holeLength] at room
  rw [BiasRule, place, biasAt_eq_zero_iff _ (by omega), chosen, Option.some.injEq]
  exact and_iff_right fun _ => ⟨base, rfl, rfl⟩

theorem entry_relative (small : bias < 2 ^ 64) (e : Nat) :
    sub64 (wrap (bias + e)) bias = wrap e := by
  simp only [sub64, wrap]
  omega

theorem reserveSpan_lt (reserved : reserveSpan os low high isPie mem = .ok (bias, after)) :
    bias < 2 ^ 64 := by
  cases isPie with
  | false =>
    cases reserved
    decide
  | true =>
    obtain ⟨_, _, rfl, _⟩ := reserveSpan_laid reserved
    exact wrap_lt _

/-- Runs of both loaders leave the same image and the same entry, and follow the
one rule for the load bias, unless `map_object` moves a program of fixed addresses. -/
theorem loaders_agree_iff {os : Os} {world : World} (paged : os.Paged) (paged' : world.os.Paged)
    {db : Database}
    (opened : world.files path = some db.connect)
    (mapped : mapProgram os db.connect mem = .ok (exe, after))
    (mapped' : mapObject world path slot state = .ok (obj, final)) :
    (SameImage db exe.loadBias after obj.loadBias final.memory ∧
      sub64 exe.entry exe.loadBias = sub64 obj.entry obj.loadBias ∧
      BiasRule os db mem exe.loadBias ∧ BiasRule world.os db state.memory obj.loadBias) ↔
    (selfGetInt db.connect .et = some etExec →
      world.os.reserve state.memory (holeLength db.loads) = some (lowPage db.loads)) := by
  rw [mapObject_biasRule_iff paged' opened mapped']
  have image : SameImage db exe.loadBias after obj.loadBias final.memory := by
    intro u some
    obtain ⟨b, found⟩ := Option.ne_none_iff_exists'.mp some
    rw [mapProgram_image paged mapped found, mapObject_image paged' opened mapped' found]
  have entry : sub64 exe.entry exe.loadBias = sub64 obj.entry obj.loadBias := by
    obtain ⟨_, e, _, _, _, entry, _, reserved, _, first, _⟩ := mapProgram_steps mapped
    obtain ⟨_, conn, reserved', _⟩ := mapObject_steps opened mapped'
    rw [first, (mapObject_mapped mapped').entry, conn, entry, Option.map_some, Option.getD_some,
      entry_relative (reserveSpan_lt reserved), entry_relative (reserveSpan_lt reserved')]
  exact ⟨fun all => all.2.2.2, fun rule => ⟨image, entry, mapProgram_biasRule mapped, rule⟩⟩

/-- A program linked to a fixed address. -/
def fixedProgram : Database where
  selfMeta key := some (metaTable
    ⟨etExec, emX86_64, 0x401000, ehdrSize, 0, .integer phdrSize, .integer 1, 0⟩ 1 none key)
  segments := ⟨[codeRow 0x401000], List.pairwise_singleton _ _⟩
  needed := .empty
  symbols := .empty
  relocations := .empty
  metaStored := insertMeta_stored (if_pos (by decide))
  segmentsStored := by decide

theorem loaders_agree_iff_splitProgram :
    ∃ exe after obj final,
      mapProgram .bounded splitProgram.connect unmappedSpace = .ok (exe, after) ∧
      mapObject (splitWorld .bounded) "/main.self" (.ok ()) ⟨unmappedSpace, []⟩ = .ok
        (obj, final) ∧
      ((SameImage splitProgram exe.loadBias after obj.loadBias final.memory ∧
        sub64 exe.entry exe.loadBias = sub64 obj.entry obj.loadBias ∧
        BiasRule .bounded splitProgram unmappedSpace exe.loadBias ∧
        BiasRule (splitWorld .bounded).os splitProgram unmappedSpace obj.loadBias) ↔
      (selfGetInt splitProgram.connect .et = some etExec →
        (splitWorld .bounded).os.reserve unmappedSpace (holeLength splitProgram.loads) = some
          (lowPage splitProgram.loads))) := by
  have program : ∃ run, mapProgram .bounded splitProgram.connect unmappedSpace = .ok run ∧
      run.1.phnum = 1 :=
    exists_of_map_decide (by decide +kernel)
  have object : ∃ run, mapObject (splitWorld .bounded) "/main.self" (.ok ())
      ⟨unmappedSpace, []⟩ = .ok run ∧ run.2.syms = [] := exists_of_map_decide (by decide +kernel)
  obtain ⟨⟨exe, after⟩, mapped, _⟩ := program
  obtain ⟨⟨obj, final⟩, mapped', _⟩ := object
  have opened : (splitWorld .bounded).files "/main.self" = some splitProgram.connect := rfl
  have paged : (splitWorld .bounded).os.Paged := Os.bounded_paged
  have agree := loaders_agree_iff Os.bounded_paged paged opened mapped mapped'
  exact ⟨exe, after, obj, final, mapped, mapped', agree⟩

def boundedWorld (db : Database) : World where
  os := .bounded
  files path := if path = "/main.self" then some db.connect else none
  resolver := none

/-- `map_object` moves the program, whose code was linked to 0x401000. -/
theorem loaders_disagree :
    selfGetInt fixedProgram.connect .et = some etExec ∧
    ∃ exe after obj final, mapProgram .bounded fixedProgram.connect unmappedSpace = .ok
      (exe, after) ∧
      mapObject (boundedWorld fixedProgram) "/main.self" (.ok ()) ⟨unmappedSpace, []⟩ = .ok
        (obj, final) ∧
      exe.loadBias = 0 ∧ obj.loadBias = 0xbff000 ∧
        ¬ BiasRule .bounded fixedProgram unmappedSpace obj.loadBias := by
  have et : selfGetInt fixedProgram.connect .et = some etExec := by decide
  have program : ∃ run, mapProgram .bounded fixedProgram.connect unmappedSpace = .ok run ∧
      run.1.loadBias = 0 :=
    exists_of_map_decide (by decide +kernel)
  have object : ∃ run, mapObject (boundedWorld fixedProgram) "/main.self" (.ok ())
      ⟨unmappedSpace, []⟩ = .ok run ∧
      run.1.loadBias = 0xbff000 := exists_of_map_decide (by decide +kernel)
  obtain ⟨⟨exe, after⟩, mapped, bias⟩ := program
  obtain ⟨⟨obj, final⟩, mapped', moved⟩ := object
  refine ⟨et, exe, after, obj, final, mapped, mapped', bias, moved, fun rule => ?_⟩
  exact absurd (moved.symm.trans (rule.2 et)) (by decide)

end SelfDb
