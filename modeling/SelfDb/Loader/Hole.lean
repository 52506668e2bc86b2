import SelfDb.Loader.Protection

/-! The hole that is reserved for a position-independent object, and the page
ranges that are mapped over it with MAP_FIXED. -/
namespace SelfDb
open Paging Binary

/-- The page range of one PT_LOAD entry, as it is computed for `mmap`. -/
def fixedStart (bias vaddr : Nat) : Nat := alignDown (wrap (bias + vaddr))

def fixedLength (bias vaddr memsz : Nat) : Nat :=
  sub64 (alignUp (wrap (wrap (bias + vaddr) + memsz))) (fixedStart bias vaddr)

/-- `lo` and `hi - lo` of the reservation, for the `(vaddr, memsz)` of all loads. -/
def lowPage (loads : List (Int × Int)) : Nat := alignDown (boundsLoop loads (2 ^ 64 - 1, 0)).1

def holeLength (loads : List (Int × Int)) : Nat :=
  spanLength (boundsLoop loads (2 ^ 64 - 1, 0)).1 (boundsLoop loads (2 ^ 64 - 1, 0)).2

/-- The value that `reserve_span` returns when `mmap` answers `base`. -/
def biasAt (loads : List (Int × Int)) (base : Nat) : Nat := sub64 base (lowPage loads)

def SmallLoad (load : Int × Int) : Prop := (0 ≤ load.1 ∧ load.1 < 2 ^ 63) ∧ 0 ≤ load.2 ∧
    load.2 < 2 ^ 63

instance (load : Int × Int) : Decidable (SmallLoad load) := inferInstanceAs (Decidable (_ ∧ _))

/-- The bias is a number of pages, and every page range lies in the hole. -/
structure FitsHole (loads : List (Int × Int)) (base : Nat) : Prop where
  page : biasAt loads base % pageSize = 0
  ranges : ∀ load ∈ loads, ∀ a,
    InSpan (fixedStart (biasAt loads base) (sizeT load.1))
      (fixedLength (biasAt loads base) (sizeT load.1) (sizeT load.2)) a →
        InSpan base (holeLength loads) a

theorem lowPage_lt (loads : List (Int × Int)) : lowPage loads < 2 ^ 64 := by
  have least := ((le_boundsLoop_iff loads (2 ^ 64 - 1) 0 _).mp le_rfl).1
  have down := alignDown_le (boundsLoop loads (2 ^ 64 - 1, 0)).1
  rw [lowPage]
  omega

/-- All loads are between the bounds, and no end wraps. -/
theorem SmallLoad.bounds {loads : List (Int × Int)} (small : ∀ load ∈ loads, SmallLoad load)
    (member : load ∈ loads) :
    (boundsLoop loads (2 ^ 64 - 1, 0)).1 ≤ sizeT load.1 ∧
      sizeT load.1 + sizeT load.2 ≤ (boundsLoop loads (2 ^ 64 - 1, 0)).2 ∧
      (boundsLoop loads (2 ^ 64 - 1, 0)).2 ≤ 2 ^ 64 - 2 := by
  have low := ((le_boundsLoop_iff loads (2 ^ 64 - 1) 0 _).mp le_rfl).2 load member
  have high := ((boundsLoop_le_iff loads (2 ^ 64 - 1) 0 _).mp le_rfl).2 load member
  refine ⟨low, ?_, (boundsLoop_le_iff loads (2 ^ 64 - 1) 0 _).mpr
    ⟨Nat.zero_le _, fun other listed => ?_⟩⟩
  · obtain ⟨vaddr, memsz⟩ := small load member
    simp only [wrap, sizeT] at high ⊢
    omega
  · obtain ⟨vaddr, memsz⟩ := small other listed
    simp only [wrap, sizeT]
    omega

/-- A reservation that was granted moves the loads into one range of pages. -/
theorem hole_placed {loads : List (Int × Int)} (small : ∀ load ∈ loads, SmallLoad load)
    (member : load ∈ loads) (page : base % pageSize = 0) (positive : holeLength loads ≠ 0)
    (room : base + holeLength loads ≤ 2 ^ 64) :
    ∃ hi, Placed (biasAt loads base) (lowPage loads) hi ∧
      wrap (biasAt loads base + lowPage loads) = base ∧
      holeLength loads = hi - lowPage loads ∧ lowPage loads ≤ alignDown (sizeT load.1) ∧
      pageCeil (sizeT load.1 + sizeT load.2) ≤ hi := by
  obtain ⟨low, high, top⟩ := SmallLoad.bounds small member
  have begins : wrap (biasAt loads base + lowPage loads) = base := by
    refine wrap_sub64_add (by omega) ?_
    have down := alignDown_le (boundsLoop loads (2 ^ 64 - 1, 0)).1
    rw [lowPage]
    omega
  have length : holeLength loads = pageCeil
      (boundsLoop loads (2 ^ 64 - 1, 0)).2 - lowPage loads := by
    rw [holeLength, spanLength] at positive ⊢
    simp only [lowPage, sub64, wrap, alignUp, pageCeil, alignDown, pageSize] at positive ⊢
    omega
  refine ⟨pageCeil (boundsLoop loads (2 ^ 64 - 1, 0)).2,
    ⟨sub64_page page (alignDown_mod _), alignDown_mod _, ?_⟩, begins, length, ?_, ?_⟩
  · rw [begins, ← length]
    exact room
  · simp only [lowPage, alignDown, pageSize]
    omega
  · simp only [pageCeil, alignDown, pageSize]
    omega

theorem fitsHole {loads : List (Int × Int)} (small : ∀ load ∈ loads, SmallLoad load)
    (page : base % pageSize = 0) (positive : holeLength loads ≠ 0)
    (room : base + holeLength loads ≤ 2 ^ 64) :
    FitsHole loads base := by
  refine ⟨sub64_page page (alignDown_mod _), fun load member a inside => ?_⟩
  obtain ⟨hi, placed, begins, length, low, high⟩ := hole_placed small member page positive room
  obtain ⟨_, memsz⟩ := small load member
  have size : sizeT load.2 < 2 ^ 63 := by
    simp only [sizeT]
    omega
  rw [fixedLength, fixedStart, span_length placed.page, segment_pages size] at inside
  have pages : alignDown (sizeT load.1) < pageCeil (sizeT load.1 + sizeT load.2) := by
    simp only [InSpan] at inside
    omega
  obtain ⟨first, _⟩ := segment_placed placed low high pages
  rw [first, placed.address low (by omega), begins] at inside
  rw [length]
  simp only [InSpan] at inside ⊢
  omega

/-! No MAP_FIXED leaves the hole: a kernel that refuses those that do makes no difference. -/

def Os.within (os : Os) (base length : Nat) : Os :=
  { os with grants := fun mem start count =>
      os.grants mem start count && decide (base ≤ start ∧ start + count ≤ base + length) }

theorem mmapFixed_within (os : Os) (inside : ∀ a, InSpan start count a → InSpan base length a)
    (mem : Memory) :
    mmapFixed (os.within base length) mem start count = mmapFixed os mem start count := by
  rw [mmapFixed, mmapFixed]
  split
  · rfl
  · have first := inside start
    have last := inside (start + count - 1)
    simp only [InSpan] at first last
    have ends : base ≤ start ∧ start + count ≤ base + length := by omega
    simp only [Os.within, ends, and_self, decide_true, Bool.and_true]

theorem mapSegment_within {os : Os}
    (inside : ∀ a, InSpan (fixedStart bias vaddr) (fixedLength bias vaddr memsz) a →
      InSpan base length a)
    (filesz : Nat) (src : Option Bytes) (prot : Prot) (mem : Memory) :
    mapSegment (os.within base length) bias vaddr filesz memsz src prot mem =
      mapSegment os bias vaddr filesz memsz src prot mem := by
  have fixed := mmapFixed_within os inside mem
  rw [fixedLength, fixedStart] at fixed
  simp only [mapSegment, fixed]
  rfl

theorem mapLoop_within {os : Os} {rows : List SegmentRow}
    (inside : ∀ R ∈ rows, ∀ a, InSpan (fixedStart bias (sizeT R.vaddr))
      (fixedLength bias (sizeT R.vaddr) (sizeT R.memsz)) a → InSpan base length a)
    (phoff : Int) (phdr : Nat) (mem : Memory) :
    mapLoop (os.within base length) bias phoff rows phdr mem =
      mapLoop os bias phoff rows phdr mem := by
  induction rows generalizing phdr mem with
  | nil => rfl
  | cons R rest ih =>
    rw [List.forall_mem_cons] at inside
    simp only [mapLoop, mapSegment_within inside.1, ih inside.2]
    rfl

theorem mapInterpSegments_within {os : Os} {entries : List RawPhdr}
    (inside : ∀ h ∈ entries, ∀ a, InSpan (fixedStart bias (sizeT h.vaddr))
      (fixedLength bias (sizeT h.vaddr) (sizeT h.memsz)) a → InSpan base length a)
    (pages : Bytes) (mem : Memory) :
    entries.foldlM (mapInterpSegment (os.within base length) bias pages) mem =
      entries.foldlM (mapInterpSegment os bias pages) mem :=
  foldlM_congr (fun mem h member => mapSegment_within (inside h member) _ _ _ mem) mem

theorem mapObjectRows_within (os : Os) {rows : List SegmentRow}
    (inside : ∀ R ∈ rows, ∀ a, InSpan (fixedStart bias (sizeT R.vaddr))
      (fixedLength bias (sizeT R.vaddr) (sizeT R.memsz)) a → InSpan base length a) (mem : Memory) :
    rows.foldlM (fun mem R => mapObjectRow (os.within base length) bias R mem) mem =
      rows.foldlM (fun mem R => mapObjectRow os bias R mem) mem := by
  refine foldlM_congr (fun mem R member => ?_) mem
  have fixed := mmapFixed_within os (inside R member)
  simp only [fixedLength, fixedStart] at fixed
  simp only [mapObjectRow, fixed]
  rfl

theorem exportLoop_within (os : Os) (bias : Nat) (rows : List (String × Int)) (syms : List Sym) :
    exportLoop (os.within base length) bias rows syms = exportLoop os bias rows syms := by
  induction rows generalizing syms with
  | nil => rfl
  | cons row rest ih =>
    simp only [exportLoop, ih]
    rfl

/-! The three places that reserve a hole. -/

/-- The `(vaddr, memsz)` of the load rows. -/
def Database.loads (db : Database) : List (Int × Int) := db.loadRows.map fun R => (R.vaddr, R.memsz)

theorem FitsHole.rows {db : Database} (fits : FitsHole db.loads base) :
    ∀ R ∈ db.loadRows, ∀ a, InSpan (fixedStart (biasAt db.loads base) (sizeT R.vaddr))
      (fixedLength (biasAt db.loads base) (sizeT R.vaddr) (sizeT R.memsz)) a →
      InSpan base (holeLength db.loads) a :=
  fun _ member => fits.ranges _ (List.mem_map_of_mem member)

def interpLoadsOf (entries : List RawPhdr) : List (Int × Int) :=
  entries.map fun h => (h.vaddr, h.memsz)

/-- The bias comes from the answer to the reservation. -/
theorem reserveSpan_bias {loads : List (Int × Int)}
    (chosen : mmapAnywhere os mem (holeLength loads) = some (base, after))
    (reserved : reserveSpan os (boundsLoop loads (2 ^ 64 - 1, 0)).1
      (boundsLoop loads (2 ^ 64 - 1, 0)).2 true mem =
      .ok (bias, next)) : bias = biasAt loads base := by
  simp only [reserveSpan, if_true, bind_eq_ok_iff, orDie_eq_ok_iff] at reserved
  obtain ⟨⟨place, mapped⟩, answer, result⟩ := reserved
  cases answer.symm.trans chosen
  cases result
  rfl

/-- What a run of `map_program` that completes has read and done. -/
theorem mapProgram_steps {db : Database}
    (mapped : mapProgram os db.connect mem = .ok (exe, after)) :
    ∃ et entry phoff before, selfGetInt db.connect .et = some et ∧
      selfGetInt db.connect .entry = some entry ∧
      selfGetInt db.connect .phoff = some phoff ∧
      reserveSpan os (boundsLoop db.loads (2 ^ 64 - 1, 0)).1 (boundsLoop db.loads (2 ^ 64 - 1, 0)).2
        (et = etDyn) mem = .ok (exe.loadBias, before) ∧
      mapLoop os exe.loadBias phoff db.loadRows 0 before = .ok (exe.phdr, after) ∧
      exe.entry = wrap (exe.loadBias + sizeT entry) ∧
        selfGetInt db.connect .phnum = some exe.phnum := by
  simp only [mapProgram, bind_eq_ok_iff, selfMetaInt_eq_ok_iff] at mapped
  obtain ⟨et, hEt, entry, hEntry, phoff, hPhoff, ⟨bias, before⟩, reserved, ⟨phdr, _⟩, looped, phnum,
    hPhnum, _, _, result⟩ := mapped
  cases result
  exact ⟨et, entry, phoff, before, hEt, hEntry, hPhoff, reserved, looped, rfl, hPhnum⟩

theorem mapObject_steps {db : Database} (opened : world.files path = some db.connect)
    (mapped : mapObject world path slot state = .ok (obj, after)) :
    ∃ before, obj.conn = db.connect ∧
      reserveSpan world.os (boundsLoop db.loads (2 ^ 64 - 1, 0)).1
        (boundsLoop db.loads (2 ^ 64 - 1, 0)).2 true
        state.memory = .ok (obj.loadBias, before) ∧
      db.loadRows.foldlM (fun mem R => mapObjectRow world.os obj.loadBias R mem) before =
        .ok after.memory := by
  simp only [mapObject, bind_eq_ok_iff, orDie_eq_ok_iff] at mapped
  obtain ⟨_, opened', _, _, ⟨bias, before⟩, reserved, _, rows, _, _, result⟩ := mapped
  cases result
  cases opened'.symm.trans opened
  exact ⟨before, rfl, reserved, rows⟩

theorem mapProgram_bias {db : Database} (dyn : selfGetInt db.connect .et = some etDyn)
    (chosen : mmapAnywhere os mem (holeLength db.loads) = some (base, after))
    (mapped : mapProgram os db.connect mem = .ok (exe, final)) :
    exe.loadBias = biasAt db.loads base := by
  obtain ⟨et, _, _, _, found, _, _, reserved, _⟩ := mapProgram_steps mapped
  cases found.symm.trans dyn
  exact reserveSpan_bias chosen reserved

theorem mapInterp_bias (opened : files path = some file)
    (chosen : mmapFile os first file = some (place, mem))
    (read : interpLoads (filePages file) = .ok entries)
    (reserved : mmapAnywhere os mem (holeLength (interpLoadsOf entries)) = some (base, after))
    (mapped : mapInterp os files path first = .ok (object, final)) :
    object.loadBias = biasAt (interpLoadsOf entries) base := by
  simp only [mapInterp, bind_eq_ok_iff, orDie_eq_ok_iff] at mapped
  obtain ⟨_, opened', _, chosen', _, _, _, read', ⟨bias, _⟩, reserved', _, _, result⟩ := mapped
  cases result
  cases opened'.symm.trans opened
  cases chosen'.symm.trans chosen
  cases read'.symm.trans read
  exact reserveSpan_bias reserved reserved'

theorem mapObject_bias {db : Database} (opened : world.files path = some db.connect)
    (chosen : mmapAnywhere world.os state.memory (holeLength db.loads) = some (base, after))
    (mapped : mapObject world path slot state = .ok (obj, final)) :
    obj.loadBias = biasAt db.loads base := by
  obtain ⟨_, _, reserved, _⟩ := mapObject_steps opened mapped
  exact reserveSpan_bias chosen reserved

theorem mapProgram_within {db : Database} (fits : FitsHole db.loads base)
    (dyn : selfGetInt db.connect .et = some etDyn)
    (chosen : mmapAnywhere os mem (holeLength db.loads) = some (base, after)) :
    mapProgram (os.within base (holeLength db.loads)) db.connect mem =
      mapProgram os db.connect mem := by
  refine bind_congr_ok fun et found => bind_congr_ok fun entry _ => bind_congr_ok fun phoff _ =>
    bind_congr_ok fun ⟨bias, next⟩ reserved => ?_
  cases ((selfMetaInt_eq_ok_iff _ _ _).mp found).symm.trans dyn
  cases reserveSpan_bias chosen reserved
  exact congrArg (· >>= _) (mapLoop_within fits.rows phoff 0 next)

theorem mapInterp_within (fits : FitsHole (interpLoadsOf entries) base)
    (opened : files path = some file) (chosen : mmapFile os first file = some (place, mem))
    (read : interpLoads (filePages file) = .ok entries)
    (reserved : mmapAnywhere os mem (holeLength (interpLoadsOf entries)) = some (base, after)) :
    mapInterp (os.within base (holeLength (interpLoadsOf entries))) files path first =
      mapInterp os files path first := by
  refine bind_congr_ok fun file' opened' => bind_congr_ok fun ⟨place', next⟩ chosen' =>
    bind_congr_ok fun _ _ => bind_congr_ok fun entries' read' =>
      bind_congr_ok fun ⟨bias, hole⟩ reserved' => ?_
  cases ((orDie_eq_ok_iff _ _ _).mp opened').symm.trans opened
  cases ((orDie_eq_ok_iff _ _ _).mp chosen').symm.trans chosen
  cases read'.symm.trans read
  cases reserveSpan_bias reserved reserved'
  have ranges := fits.ranges
  rw [interpLoadsOf, List.forall_mem_map] at ranges
  exact congrArg (· >>= _) (mapInterpSegments_within ranges (filePages file) hole)

theorem mapObject_within {db : Database} (fits : FitsHole db.loads base)
    (opened : world.files path = some db.connect)
    (chosen : mmapAnywhere world.os state.memory (holeLength db.loads) = some (base, after)) :
    mapObject { world with os := world.os.within base (holeLength db.loads) } path slot state =
      mapObject world path slot state := by
  refine bind_congr_ok fun conn opened' => bind_congr_ok fun _ _ =>
    bind_congr_ok fun ⟨bias, next⟩ reserved => ?_
  cases ((orDie_eq_ok_iff _ _ _).mp opened').symm.trans opened
  cases reserveSpan_bias chosen reserved
  have same := mapObjectRows_within world.os fits.rows next
  change (List.foldlM _ next db.loadRows >>= _) = (List.foldlM _ next db.loadRows >>= _)
  rw [same]
  exact congrArg _ (funext fun _ => congrArg (· >>= _) (exportLoop_within ..))

/-- In each of the three places a reservation that the kernel makes at a page, and
without wrapping, is where all MAP_FIXED requests of the run are made. -/
theorem mapFixed_inside {os : Os} {loads : List (Int × Int)}
    (small : ∀ load ∈ loads, SmallLoad load)
    (reserved : mmapAnywhere os mem (holeLength loads) = some (base, after))
    (page : base % pageSize = 0) (room : base + holeLength loads ≤ 2 ^ 64) :
    FitsHole loads base ∧
    (∀ {db : Database}, db.loads = loads → selfGetInt db.connect .et = some etDyn →
      mapProgram (os.within base (holeLength loads)) db.connect mem = mapProgram os db.connect mem ∧
      ∀ {exe final}, mapProgram os db.connect mem = .ok (exe, final) →
        exe.loadBias = biasAt loads base) ∧
    (∀ {files path file first place entries}, files path = some file →
      mmapFile os first file = some (place, mem) →
      interpLoads (filePages file) = .ok entries → interpLoadsOf entries = loads →
        mapInterp (os.within base (holeLength loads)) files path first =
          mapInterp os files path first ∧
        ∀ {object final}, mapInterp os files path first = .ok (object, final) →
          object.loadBias = biasAt loads base) ∧
    ∀ {world : World} {path slot syms} {db : Database}, world.os = os →
      world.files path = some db.connect →
      db.loads = loads →
        mapObject { world with os := os.within base (holeLength loads) } path slot ⟨mem, syms⟩ =
          mapObject world path slot ⟨mem, syms⟩ ∧
        ∀ {obj final}, mapObject world path slot ⟨mem, syms⟩ = .ok (obj, final) →
          obj.loadBias = biasAt loads base := by
  have positive : holeLength loads ≠ 0 := by
    intro empty
    rw [mmapAnywhere, if_pos empty] at reserved
    cases reserved
  have fits := fitsHole small page positive room
  refine ⟨fits, ?_, ?_, ?_⟩
  · rintro db rfl dyn
    exact ⟨mapProgram_within fits dyn reserved, mapProgram_bias dyn reserved⟩
  · rintro files path file first place entries opened chosen read rfl
    exact ⟨mapInterp_within fits opened chosen read reserved,
      mapInterp_bias opened chosen read reserved⟩
  · rintro world path slot syms db rfl opened rfl
    exact ⟨mapObject_within fits opened reserved, mapObject_bias opened reserved⟩

/-- Two rows that share a page; the second one ends two pages later. -/
def splitProgram : Database where
  selfMeta := linkedLow.selfMeta
  segments := ⟨[codeRow 0x1000, { loadRow 1 0x1801 [1, 2] with memsz := 0x1900 }], by decide⟩
  needed := .empty
  symbols := .empty
  relocations := .empty
  metaStored := linkedLow.metaStored
  segmentsStored := by decide

def splitWorld (os : Os) : World where
  os := os
  files path := if path = "/main.self" then some splitProgram.connect else none
  resolver := none

/-- Both loaders, on a kernel that answers its first free place. -/
theorem mapFixed_inside_splitProgram :
    FitsHole splitProgram.loads 0x1000000 ∧
    mapProgram (Os.lowest.within 0x1000000 0x3000) splitProgram.connect unmappedSpace =
      mapProgram .lowest splitProgram.connect unmappedSpace ∧
    mapObject (splitWorld (Os.lowest.within 0x1000000 0x3000)) "/main.self" (.ok ())
        ⟨unmappedSpace, []⟩ =
      mapObject (splitWorld .lowest) "/main.self" (.ok ()) ⟨unmappedSpace, []⟩ := by
  have length : holeLength splitProgram.loads = 0x3000 := by decide
  have reserved : mmapAnywhere .lowest unmappedSpace (holeLength splitProgram.loads) =
      some (0x1000000, unmappedSpace.mapAnonymous 0x1000000 0x3000 .noAccess) := by
    rw [length, mmapAnywhere, if_neg (by decide), show Os.lowest.reserve unmappedSpace 0x3000 =
      some 0x1000000 by decide +kernel]
    rfl
  obtain ⟨fits, program, _, object⟩ :=
    mapFixed_inside (show ∀ load ∈ splitProgram.loads, SmallLoad load by decide) reserved
      (by decide) (by decide)
  rw [length] at program object
  exact ⟨fits, (program rfl (by decide)).1,
    (object (show (splitWorld .lowest).os = .lowest from rfl) rfl rfl).1⟩

end SelfDb
