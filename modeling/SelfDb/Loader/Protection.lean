import SelfDb.Loader.Commits
import SelfDb.Loader.Relocation
import SelfDb.Loader.RunNative

/-! The protections of the pages when the program starts. The segments of all
mapped objects are on distinct pages. -/
namespace SelfDb
open Paging Binary

/-- Every page of the layers has the protection of its layer. -/
def Honoured (mem : Memory) (layers : List Layer) : Prop :=
  ∀ layer ∈ layers, ∀ page, layer.OnPage page → mem.prot page = some layer.prot

/-- A page that is mapped keeps its protection when the kernel maps elsewhere. -/
theorem Os.Fresh.kept {os : Os} (fresh : os.Fresh) {mem : Memory}
    (reserved : os.reserve mem length = some base) (mapped : mem.prot page = some prot)
    (layer : Layer) (place : layer.start = base ∧ layer.length = length) :
    (mem.lay layer).prot page = some prot := by
  have off : ¬ layer.OnPage page := by
    rw [Layer.OnPage, place.1, place.2]
    intro on
    rw [fresh.unmapped reserved on] at mapped
    cases mapped
  rw [Memory.lay_prot, Layer.protAt, if_neg off, Option.none_or, mapped]

theorem foldl_lay_kept {layers : List Layer} (off : ∀ layer ∈ layers, ¬ layer.OnPage page)
    (mem : Memory) :
    (layers.foldl Memory.lay mem).prot page = mem.prot page := by
  have none : lastAt (layers.map Layer.protAt) page = none := by
    rw [lastAt_eq_none_iff, List.forall_mem_map]
    exact fun layer member => if_neg (off layer member)
  rw [Memory.foldl_lay_prot, none, Option.none_or]

/-- Layers on distinct pages are all honoured. -/
theorem foldl_lay_honoured {layers : List Layer} (distinct : layers.Pairwise Layer.PagesApart)
    (mem : Memory) : Honoured (layers.foldl Memory.lay mem) layers := by
  intro layer member page on
  have exclusive : (layers.map Layer.protAt).Pairwise Exclusive := by
    rw [List.pairwise_map]
    exact distinct.imp Layer.PagesApart.exclusive
  have decides := (lastAt_of_exclusive exclusive page layer.prot).mpr
    ⟨layer.protAt, List.mem_map_of_mem member, if_pos on⟩
  rw [Memory.foldl_lay_prot, decides]
  rfl

theorem Os.Fresh.mapStack {os : Os} (fresh : os.Fresh) (honoured : Honoured mem layers)
    (mapped : mapStack os length mem = .ok after) : Honoured after layers := by
  intro layer member page on
  obtain ⟨base, reserved, rfl⟩ := mapStack_inv mapped
  exact fresh.kept reserved (honoured layer member page on) ⟨base, length, .readWrite, 0, []⟩
    ⟨rfl, rfl⟩

/-- The layers that the load rows of an object ask for. -/
def askedLayers (bias : Nat) (rows : List SegmentRow) : List Layer :=
  rows.map fun R => R.layer bias R.prot

/-! `run_selfld` -/

/-- The same layer, writable. -/
def soften (layer : Layer) : Layer := { layer with prot := { layer.prot with write := true } }

def SelfObject.asked (obj : SelfObject) : List Layer :=
  askedLayers obj.loadBias obj.conn.loadSegments.rows

theorem soften_layer (bias : Nat) (R : SegmentRow) :
    soften (R.layer bias R.prot) = R.layer bias R.softProt := rfl

theorem pairwise_soften {layers : List Layer} (distinct : layers.Pairwise Layer.PagesApart) :
    (layers.map soften).Pairwise Layer.PagesApart := List.pairwise_map.mpr distinct

theorem rowsLaid_soften {os : Os} (protects : os.ProtectsMapped)
    (laid : List.Forall₂ (RowLaid os bias) rows layers) :
    layers = (askedLayers bias rows).map soften := by
  induction laid with
  | nil => rfl
  | cons head _ ih =>
    obtain ⟨_, prot, rfl, -, soft⟩ := head
    rw [askedLayers, List.map_cons, List.map_cons, soften_layer, soft protects, ih]
    rfl

/-- Laying more objects keeps a mapped page that is on none of their segments. -/
theorem ObjectsLaid.kept {os : Os} (fresh : os.Fresh) (protects : os.ProtectsMapped)
    (laid : ObjectsLaid os mem objs layers) (mapped : mem.prot page = some prot)
    (off : ∀ layer ∈ objs.flatMap SelfObject.asked, ¬ layer.OnPage page) :
    (layers.foldl Memory.lay mem).prot page = some prot := by
  induction laid with
  | nil => exact mapped
  | cons head _ ih =>
    obtain ⟨base, rows, rfl, reserved, _, laid⟩ := head
    rw [List.flatMap_cons, List.forall_mem_append] at off
    rw [List.foldl_append]
    refine ih ?_ off.2
    rw [rowsLaid_soften protects laid, List.foldl_cons, foldl_lay_kept]
    · exact fresh.kept reserved mapped _ ⟨rfl, rfl⟩
    · exact List.forall_mem_map.mpr off.1

/-- All objects stay mapped as they were laid, with every segment writable. -/
theorem ObjectsLaid.honoured {os : Os} (fresh : os.Fresh) (protects : os.ProtectsMapped)
    (laid : ObjectsLaid os mem objs layers)
    (distinct : (objs.flatMap SelfObject.asked).Pairwise Layer.PagesApart) :
    Honoured (layers.foldl Memory.lay mem) ((objs.flatMap SelfObject.asked).map soften) := by
  induction laid with
  | nil => exact fun _ member => nomatch member
  | cons head later ih =>
    rw [List.flatMap_cons, List.pairwise_append] at distinct
    obtain ⟨own, others, apart⟩ := distinct
    rw [List.flatMap_cons, List.map_append, List.foldl_append]
    intro layer member page on
    rcases List.mem_append.mp member with mine | theirs
    · obtain ⟨base, rows, rfl, _, _, laid⟩ := head
      refine later.kept fresh protects ?_ ?_
      · rw [List.foldl_cons, rowsLaid_soften protects laid]
        exact foldl_lay_honoured (pairwise_soften own) _ layer mine page on
      · obtain ⟨asked, listed, rfl⟩ := List.mem_map.mp mine
        exact fun other member both => apart asked listed other member page ⟨on, both⟩
    · exact ih others layer theirs page on

/-- A row that was laid has at least its first page. -/
theorem RowLaid.hasPage (laid : RowLaid os bias R layer) (prot : Prot) :
    ∃ page, (R.layer bias prot).OnPage page := by
  obtain ⟨positive, _, rfl, _⟩ := laid
  refine ⟨(R.layer bias prot).start / pageSize, ?_⟩
  have begins : (R.layer bias prot).start / pageSize * pageSize = (R.layer bias prot).start :=
    Nat.div_mul_cancel (Nat.dvd_of_mod_eq_zero (alignDown_mod _))
  rw [Layer.OnPage, begins]
  exact ⟨le_rfl, Nat.lt_add_of_pos_right (Nat.pos_of_ne_zero positive)⟩

theorem ObjectsLaid.hasPage (laid : ObjectsLaid os mem objs layers) :
    ∀ layer ∈ objs.flatMap SelfObject.asked, ∃ page, layer.OnPage page := by
  induction laid with
  | nil => exact fun _ member => nomatch member
  | cons head _ ih =>
    rw [List.flatMap_cons, List.forall_mem_append]
    refine ⟨?_, ih⟩
    obtain ⟨_, rows, rfl, _, _, laid⟩ := head
    rw [SelfObject.asked, askedLayers, List.forall_mem_map]
    intro R member
    obtain ⟨_, _, row⟩ := exists_of_forall₂ laid.flip R member
    exact RowLaid.hasPage row R.prot

/-- Pages that were left writable are as asked where that was asked. -/
theorem honoured_soften_iff {layers : List Layer} (softened : Honoured mem (layers.map soften))
    (pages : ∀ layer ∈ layers, ∃ page, layer.OnPage page) :
    Honoured mem layers ↔ ∀ layer ∈ layers, layer.prot.write = true := by
  rw [Honoured, List.forall_mem_map] at softened
  refine forall₂_congr fun layer member => ?_
  constructor
  · intro honoured
    obtain ⟨page, on⟩ := pages layer member
    have same := (honoured page on).symm.trans (softened layer member page on)
    rw [Option.some.inj same]
    rfl
  · intro write page on
    have kept : (soften layer).prot = layer.prot := by
      rw [soften, ← write]
    rw [softened layer member page on, kept]

theorem runSelfld_honoured {os : Os} (fresh : os.Fresh) (protects : os.ProtectsMapped)
    (here : world.os = os) (entered : enterSelfld world maindb path mem = .ok (out, final))
    (distinct : (out.objects.flatMap SelfObject.asked).Pairwise Layer.PagesApart) :
    Honoured final (out.objects.flatMap SelfObject.asked) ↔
      ∀ obj ∈ out.objects, ∀ R ∈ obj.conn.loadSegments.rows, columnInt R.w.columnInt64 ≠ 0 := by
  subst here
  obtain ⟨run, stack⟩ := enterSelfld_inv entered
  obtain ⟨layers, laid, relocated⟩ := runSelfld_laid run
  rw [relocateObjects_eq] at relocated
  have softened : Honoured out.memory ((out.objects.flatMap SelfObject.asked).map soften) := by
    rw [((relocateSlots_eq_ok_iff _ _ _ _).mp relocated).2]
    intro layer member page on
    rw [Memory.foldl_store_prot]
    exact laid.honoured fresh protects distinct layer member page on
  rw [honoured_soften_iff (fresh.mapStack softened stack) laid.hasPage]
  simp only [List.forall_mem_flatMap, SelfObject.asked, askedLayers, List.forall_mem_map]
  refine forall₂_congr fun obj member => forall₂_congr fun R listed => ?_
  exact decide_eq_true_iff

/-! `run_native` -/

theorem mapLoop_laid {rows : List SegmentRow}
    (looped : mapLoop os bias phoff rows phdr mem = .ok (phdr', after)) :
    after = (askedLayers bias rows).foldl Memory.lay mem := by
  induction rows generalizing phdr mem with
  | nil =>
    cases looped
    rfl
  | cons R rest ih =>
    simp only [mapLoop, bind_eq_ok_iff] at looped
    obtain ⟨buf, copied, _, mapped, later⟩ := looped
    rw [(mapSegment_inv mapped).1, copyBlob_inv copied] at later
    exact ih later

theorem mapProgram_honoured (mapped : mapProgram os conn mem = .ok (exe, after))
    (distinct : (askedLayers exe.loadBias conn.loadSegments.rows).Pairwise Layer.PagesApart) :
    Honoured after (askedLayers exe.loadBias conn.loadSegments.rows) := by
  simp only [mapProgram, bind_eq_ok_iff] at mapped
  obtain ⟨_, _, _, _, _, _, ⟨_, _⟩, _, ⟨_, _⟩, looped, _, _, _, _, result⟩ := mapped
  cases result
  rw [mapLoop_laid looped]
  exact foldl_lay_honoured distinct _

/-- The layer of a PT_LOAD entry of the interpreter. -/
def interpLayer (bias : Nat) (pages : Bytes) (h : RawPhdr) : Layer :=
  segmentLayer bias (sizeT h.vaddr) (sizeT h.filesz) (sizeT h.memsz) (pages.drop (sizeT h.offset))
    (phdrProt h)

theorem interpSegments_laid {loads : List RawPhdr}
    (mapped : loads.foldlM (mapInterpSegment os bias pages) mem = .ok after) :
    after = (loads.map (interpLayer bias pages)).foldl Memory.lay mem := by
  induction loads generalizing mem with
  | nil =>
    cases mapped
    rfl
  | cons h rest ih =>
    rw [List.foldlM_cons, bind_eq_ok_iff] at mapped
    obtain ⟨_, step, later⟩ := mapped
    rw [(mapSegment_inv step).1] at later
    exact ih later

/-- The pages that the segments of the interpreter of a file are mapped to. -/
def fileInterpLayers (file : Bytes) (object : InterpObject) : List Layer :=
  ((interpLoads (filePages file)).toOption.getD []).map
    (interpLayer object.loadBias (filePages file))

theorem reserveSpan_kept {os : Os} (fresh : os.Fresh) (mapped : mem.prot page = some prot)
    (reserved : reserveSpan os low high true mem = .ok (bias, after)) :
    after.prot page = some prot := by
  obtain ⟨base, chosen, _, rfl⟩ := reserveSpan_laid reserved
  exact fresh.kept chosen mapped _ ⟨rfl, rfl⟩

/-- Mapping the interpreter keeps a mapped page that is on none of its segments:
the file is mapped, and unmapped again, elsewhere. -/
theorem mapInterp_kept {os : Os} (fresh : os.Fresh) (mapped : mem.prot page = some prot)
    (opened : files path = some file) (loaded : mapInterp os files path mem = .ok (object, after))
    (off : ∀ layer ∈ fileInterpLayers file object, ¬ layer.OnPage page) :
    after.prot page = some prot := by
  simp only [mapInterp, bind_eq_ok_iff, orDie_eq_ok_iff, opened, Option.some.injEq,
    exists_eq_left'] at loaded
  obtain ⟨⟨base, first⟩, chosen, _, _, loads, read, ⟨bias, second⟩, reserved, third, segments,
    result⟩ := loaded
  cases result
  rw [mmapFile] at chosen
  split at chosen
  · cases chosen
  · obtain ⟨_, free, same⟩ := Option.map_eq_some_iff.mp chosen
    cases same
    have kept := reserveSpan_kept fresh (fresh.kept free mapped _ ⟨rfl, rfl⟩) reserved
    rw [fileInterpLayers, read] at off
    have outside : ¬ InSpan base file.length (page * pageSize) := by
      intro inside
      rw [fresh.unmapped free inside] at mapped
      cases mapped
    refine (if_neg outside).trans ?_
    rw [interpSegments_laid segments]
    exact (foldl_lay_kept off second).trans kept

/-- The segments of the interpreter that was mapped, if one was. -/
def NativeStart.interpLayers (files : String → Option Bytes) (conn : Connection)
    (start : NativeStart) :
    List Layer :=
  match start.interp, (selfGetText conn .interp).bind files with
  | some object, some file => fileInterpLayers file object
  | _, _ => []

theorem runNative_honoured {os : Os} (fresh : os.Fresh)
    (started : runNative os files conn mem = .ok start)
    (distinct : (askedLayers start.exe.loadBias conn.loadSegments.rows ++
      start.interpLayers files conn).Pairwise Layer.PagesApart) :
    Honoured start.memory (askedLayers start.exe.loadBias conn.loadSegments.rows) := by
  simp only [runNative, bind_eq_ok_iff] at started
  obtain ⟨_, _, _, _, ⟨exe, first⟩, program, ⟨interp, second⟩, interpreter, third, stack,
    result⟩ := started
  cases result
  obtain ⟨own, _, apart⟩ := List.pairwise_append.mp distinct
  refine fresh.mapStack (fun layer member page on => ?_) stack
  have honoured := mapProgram_honoured program own layer member page on
  cases named : selfGetText conn .interp with
  | none =>
    rw [named] at interpreter
    cases interpreter
    exact honoured
  | some path =>
    simp only [named, mapInterpIf, bind_eq_ok_iff] at interpreter
    obtain ⟨⟨object, _⟩, loaded, result⟩ := interpreter
    cases result
    cases opened : files path with
    | none =>
      simp only [mapInterp, opened, orDie] at loaded
      cases loaded
    | some file =>
      refine mapInterp_kept fresh honoured opened loaded fun other theirs both => ?_
      refine apart layer member other ?_ page ⟨on, both⟩
      simpa only [NativeStart.interpLayers, named, Option.bind_some, opened] using theirs

/-- When the program starts, native mode has given every page of the program
what its row asks for. `self-ld` has not taken write permission back, so there
this holds exactly when every load row asks for it. -/
theorem enter_honoured {os : Os} (fresh : os.Fresh) (protects : os.ProtectsMapped) :
    (∀ {world maindb path mem out final}, world.os = os →
      enterSelfld world maindb path mem = .ok (out, final) →
      (out.objects.flatMap SelfObject.asked).Pairwise Layer.PagesApart →
        (Honoured final (out.objects.flatMap SelfObject.asked) ↔
          ∀ obj ∈ out.objects, ∀ R ∈ obj.conn.loadSegments.rows, columnInt R.w.columnInt64 ≠ 0)) ∧
    ∀ {files conn mem start}, runNative os files conn mem = .ok start →
      (askedLayers start.exe.loadBias conn.loadSegments.rows ++
        start.interpLayers files conn).Pairwise Layer.PagesApart →
          Honoured start.memory (askedLayers start.exe.loadBias conn.loadSegments.rows) :=
  ⟨fun here entered distinct => runSelfld_honoured fresh protects here entered distinct,
    fun started distinct => runNative_honoured fresh started distinct⟩

/-- One program, whose code is readable and executable. -/
def codeWorld : World where
  os := .lowest
  files path := if path = "/main.self" then some linkedLow.connect else none
  resolver := none

theorem pairwise_of_length {R : α → α → Prop} {xs : List α} (single : xs.length = 1) :
    xs.Pairwise R := by
  obtain ⟨x, rfl⟩ := List.length_eq_one_iff.mp single
  exact List.pairwise_singleton R x

/-- The code is writable when the program starts. -/
theorem codeWorld_enter :
    ∃ run, enterSelfld codeWorld linkedLow.connect "/main.self" unmappedSpace = .ok run ∧
    (run.1.objects.flatMap SelfObject.asked).length = 1 ∧
    run.2.prot 0x1000 = some ⟨true, true, true⟩ ∧
    ∃ obj ∈ run.1.objects, ∃ R ∈ obj.conn.loadSegments.rows, columnInt R.w.columnInt64 = 0 :=
  exists_of_map_decide (by decide +kernel)

theorem linkedLow_runNative : ∃ start, runNative .lowest
    (fun _ => none) linkedLow.connect unmappedSpace = .ok start ∧
    (askedLayers start.exe.loadBias linkedLow.connect.loadSegments.rows ++
      start.interpLayers (fun _ => none) linkedLow.connect).length = 1 :=
  exists_of_map_decide (by decide +kernel)

theorem enter_honoured_codeWorld :
    (∃ out final, enterSelfld codeWorld linkedLow.connect "/main.self" unmappedSpace =
      .ok (out, final) ∧
      (Honoured final (out.objects.flatMap SelfObject.asked) ↔
        ∀ obj ∈ out.objects, ∀ R ∈ obj.conn.loadSegments.rows, columnInt R.w.columnInt64 ≠ 0)) ∧
    ∃ start, runNative .lowest (fun _ => none) linkedLow.connect unmappedSpace = .ok start ∧
      Honoured start.memory
        (askedLayers start.exe.loadBias linkedLow.connect.loadSegments.rows) := by
  obtain ⟨run, entered, single, _⟩ := codeWorld_enter
  obtain ⟨start, started, alone⟩ := linkedLow_runNative
  have both := enter_honoured Os.lowest_fresh Os.lowest_protects
  exact ⟨⟨run.1, run.2, entered, both.1 rfl entered (pairwise_of_length single)⟩,
    start, started, both.2 started (pairwise_of_length alone)⟩

theorem runSelfld_leaves_writable :
    ∃ out final, enterSelfld codeWorld linkedLow.connect "/main.self" unmappedSpace = .ok
      (out, final) ∧
      (out.objects.flatMap SelfObject.asked).Pairwise Layer.PagesApart ∧
      final.prot 0x1000 = some ⟨true, true, true⟩ ∧
      ¬ Honoured final (out.objects.flatMap SelfObject.asked) := by
  obtain ⟨⟨out, final⟩, entered, single, page, obj, member, R, listed, readOnly⟩ := codeWorld_enter
  have distinct := pairwise_of_length (R := Layer.PagesApart) single
  refine ⟨out, final, entered, distinct, page, fun honoured => ?_⟩
  have writable := (runSelfld_honoured Os.lowest_fresh Os.lowest_protects rfl entered distinct).mp
    honoured
  exact writable obj member R listed readOnly

end SelfDb
