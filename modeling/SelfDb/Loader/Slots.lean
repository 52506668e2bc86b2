import SelfDb.Loader.Protection

/-! Two loops of `run_selfld` fill one array of 32 slots. Neither looks at how far
it is filled, so the run is compared with one whose array has room for all. -/
namespace SelfDb
open Paging

/-- What the two loops map, in order: the NEEDED names at the paths the resolver
has for them, then the preload rows. -/
def listedPaths (world : World) (main : SelfObject) : List (Run String) :=
  main.conn.needed.rows.map (resolveNeeded world) ++ (preloadPaths world).map .ok

/-- The step of both loops, into the array of the source. -/
def slotStep (world : World) (filled : List SelfObject × Linking) (located : Run String) :
    Run (List SelfObject × Linking) := do
  let path ← located
  let (lib, state) ← mapObject world path (libSlot filled.1.length) filled.2
  return (filled.1 ++ [lib], state)

/-- The same step into an array with room. -/
def mapListed (world : World) (filled : List SelfObject × Linking) (located : Run String) :
    Run (List SelfObject × Linking) := do
  let path ← located
  let (lib, state) ← mapObject world path (.ok ()) filled.2
  return (filled.1 ++ [lib], state)

/-- `run_selfld` with its two loops as one. -/
def linkBy (step : World → List SelfObject × Linking → Run String → Run (List SelfObject × Linking))
    (world : World) (maindb : Connection) (path : String) (mem : Memory) : Run Linked := do
  let em ← selfMetaInt maindb .em
  orDie (.machine em) (if em = emX86_64 then some () else none)
  let (main, state) ← mapObject world path (.ok ()) ⟨mem, []⟩
  let (libs, state) ← (listedPaths world main).foldlM (step world) ([], state)
  let mem ← (libs ++ [main]).foldlM (relocate state.syms) state.memory
  return ⟨main, libs, state.syms, mem⟩

/-- `run_selfld` with an array that has room for every listed object. -/
def linkListed : World → Connection → String → Memory → Run Linked := linkBy mapListed

/-- The first 32 listed objects are mapped, and the file of one more can be opened. -/
def FillsSlots (world : World) (main : SelfObject) (state : Linking) : Prop :=
  ∃ filled libpath file, ((listedPaths world main).take maxLibs).foldlM (mapListed world)
    ([], state) = .ok filled ∧
    (listedPaths world main)[maxLibs]? = some (.ok libpath) ∧ world.files libpath = some file

/-- The array is full when the run comes to one more object. -/
def Overfills (world : World) (maindb : Connection) (path : String) (mem : Memory) : Prop :=
  selfMetaInt maindb .em = .ok emX86_64 ∧
    ∃ main state, mapObject world path (.ok ()) ⟨mem, []⟩ = .ok (main, state) ∧
      FillsSlots world main state

/-- All that is listed is mapped into a slot of the array, and relocated once. -/
structure Recorded (world : World) (path : String) (mem : Memory) (out : Linked) : Prop where
  main : world.files path = some out.main.conn
  listed : List.Forall₂ (fun located obj => ∃ libpath, located = .ok libpath ∧
    world.files libpath = some obj.conn)
    (listedPaths world out.main) out.libs
  slots : out.libs.length ≤ maxLibs
  relocated : ∃ layers, ObjectsLaid world.os mem (out.main :: out.libs) layers ∧
    (out.libs ++ [out.main]).foldlM (relocate out.syms) (layers.foldl Memory.lay mem) =
      .ok out.memory

/-- The run stops with a message, or records and relocates all. -/
def Records (world : World) (maindb : Connection) (path : String) (mem : Memory) : Prop :=
  (∃ why, runSelfld world maindb path mem = .error (.die why)) ∨
    ∃ out, runSelfld world maindb path mem = .ok out ∧ Recorded world path mem out

/-! The two loops are one. -/

theorem libsLoop_eq (world : World) (pathOf : String → Run String) (rows : List String)
    (libs : List SelfObject) (state : Linking) :
    libsLoop world pathOf rows libs state = (rows.map pathOf).foldlM (slotStep world)
      (libs, state) := by
  induction rows generalizing libs state with
  | nil => rfl
  | cons row rest ih =>
    simp only [libsLoop, List.map_cons, List.foldlM_cons, slotStep, bind_assoc, pure_bind, ih]

theorem loops_eq (world : World) (main : SelfObject) (state : Linking) :
    (libsLoop world (resolveNeeded world) main.conn.needed.rows [] state >>= fun filled =>
      libsLoop world .ok (preloadPaths world) filled.1 filled.2) =
      (listedPaths world main).foldlM (slotStep world) ([], state) := by
  rw [listedPaths, List.foldlM_append, libsLoop_eq]
  simp only [libsLoop_eq]

/-! While there is room, the array makes no difference. -/

theorem slotStep_room (room : filled.1.length < maxLibs) (located : Run String) :
    slotStep world filled located = mapListed world filled located := by
  rw [slotStep, mapListed, libSlot, if_pos room]

theorem mapListed_length (mapped : mapListed world filled located = .ok after) :
    after.1.length = filled.1.length + 1 := by
  simp only [mapListed, bind_eq_ok_iff] at mapped
  obtain ⟨_, _, _, _, result⟩ := mapped
  cases result
  rw [List.length_append, List.length_singleton]

theorem mapListed_foldlM_length {listed : List (Run String)}
    (mapped : listed.foldlM (mapListed world) filled = .ok after) :
    after.1.length = filled.1.length + listed.length := by
  induction listed generalizing filled with
  | nil =>
    cases mapped
    rfl
  | cons located rest ih =>
    rw [List.foldlM_cons, bind_eq_ok_iff] at mapped
    obtain ⟨next, step, later⟩ := mapped
    rw [ih later, mapListed_length step, List.length_cons]
    omega

theorem slots_room {listed : List (Run String)} (room : filled.1.length + listed.length ≤ maxLibs) :
    listed.foldlM (slotStep world) filled = listed.foldlM (mapListed world) filled := by
  induction listed generalizing filled with
  | nil => rfl
  | cons located rest ih =>
    rw [List.length_cons] at room
    rw [List.foldlM_cons, List.foldlM_cons, slotStep_room (by omega)]
    refine bind_congr_ok fun next step => ih ?_
    rw [mapListed_length step]
    omega

theorem mapObject_unopened (unopened : world.files path = none) :
    mapObject world path slot state = .error (.die (.cannotOpen path)) := by
  rw [mapObject, unopened]
  rfl

theorem mapObject_stopped (opened : world.files path = some file) :
    mapObject world path (.error stop) state = .error stop := by
  rw [mapObject, opened]
  rfl

/-- The step at a full array: the first write through the new slot is outside, when it is
reached. -/
theorem slotStep_full (full : filled.1.length = maxLibs) (located : Run String) :
    ((∃ libpath file, located = .ok libpath ∧ world.files libpath = some file) ∧
      slotStep world filled located = .error .fault) ∨
    (¬ (∃ libpath file, located = .ok libpath ∧ world.files libpath = some file) ∧
      ∃ stop, slotStep world filled located = .error stop ∧
        mapListed world filled located = .error stop) := by
  have faults : libSlot filled.1.length = .error .fault := if_neg (by omega)
  cases located with
  | error stop =>
    refine .inr ⟨?_, stop, rfl, rfl⟩
    rintro ⟨_, _, found, _⟩
    cases found
  | ok libpath =>
    cases opened : world.files libpath with
    | none =>
      refine .inr ⟨?_, .die (.cannotOpen libpath), ?_, ?_⟩
      · rintro ⟨_, _, found, file⟩
        cases found
        cases opened.symm.trans file
      · change (mapObject world libpath (libSlot filled.1.length) filled.2 >>= _) = _
        exact bind_error_of (mapObject_unopened opened)
      · change (mapObject world libpath (.ok ()) filled.2 >>= _) = _
        exact bind_error_of (mapObject_unopened opened)
    | some file =>
      refine .inl ⟨⟨libpath, file, rfl, opened⟩, ?_⟩
      change (mapObject world libpath (libSlot filled.1.length) filled.2 >>= _) = _
      rw [faults]
      exact bind_error_of (mapObject_stopped opened)

/-- The loops fault in the array, or do what they do with room. -/
theorem slots_cases (world : World) (main : SelfObject) (state : Linking) :
    (FillsSlots world main state ∧
      (listedPaths world main).foldlM (slotStep world) ([], state) = .error .fault) ∨
    (¬ FillsSlots world main state ∧ (listedPaths world main).foldlM (slotStep world) ([], state) =
      (listedPaths world main).foldlM (mapListed world) ([], state)) := by
  rw [FillsSlots]
  generalize listedPaths world main = listed
  have front : (listed.take maxLibs).foldlM (slotStep world) ([], state) =
      (listed.take maxLibs).foldlM (mapListed world) ([], state) :=
    slots_room (by simp)
  have split (step : List SelfObject × Linking → Run String → Run (List SelfObject × Linking)) :
      listed.foldlM step ([], state) =
        (listed.take maxLibs).foldlM step ([], state) >>= fun filled =>
          (listed.drop maxLibs).foldlM step filled := by
    rw [← List.foldlM_append, List.take_append_drop]
  rw [split, split, front]
  cases mapped : (listed.take maxLibs).foldlM (mapListed world) ([], state) with
  | error stop =>
    refine .inr ⟨?_, rfl⟩
    rintro ⟨_, _, _, filled, _⟩
    cases filled
  | ok filled =>
    have length := mapListed_foldlM_length mapped
    cases next : listed[maxLibs]? with
    | none =>
      have short := List.getElem?_eq_none_iff.mp next
      refine .inr ⟨?_, ?_⟩
      · rintro ⟨_, _, _, _, more, _⟩
        cases more
      · rw [List.drop_eq_nil_of_le short]
        rfl
    | some located =>
      obtain ⟨more, rfl⟩ := List.getElem?_eq_some_iff.mp next
      have full : filled.1.length = maxLibs := by
        rw [length, List.length_take, List.length_nil]
        omega
      rw [List.drop_eq_getElem_cons more]
      rcases slotStep_full full listed[maxLibs] with ⟨⟨libpath, file, found, opened⟩,
        stopped⟩ | ⟨unreached, stop, stopped, same⟩
      · refine .inl ⟨⟨filled, libpath, file, rfl, congrArg some found, opened⟩, ?_⟩
        change (slotStep world filled listed[maxLibs] >>= _) = _
        exact bind_error_of stopped
      · refine .inr ⟨?_, ?_⟩
        · rintro ⟨_, libpath, file, _, found, opened⟩
          exact unreached ⟨libpath, file, Option.some.inj found, opened⟩
        · change (slotStep world filled listed[maxLibs] >>= _) =
            (mapListed world filled listed[maxLibs] >>= _)
          exact (bind_error_of stopped).trans (bind_error_of same).symm

/-! The whole run. -/

theorem runSelfld_eq (world : World) (maindb : Connection) (path : String) (mem : Memory) :
    runSelfld world maindb path mem = linkBy slotStep world maindb path mem := by
  simp only [runSelfld, linkBy, ← loops_eq, List.foldlM_append, List.foldlM_cons, List.foldlM_nil,
    bind_assoc, bind_pure]

theorem runSelfld_cases (world : World) (maindb : Connection) (path : String) (mem : Memory) :
    (Overfills world maindb path mem ∧ runSelfld world maindb path mem = .error .fault) ∨
    (¬ Overfills world maindb path mem ∧ runSelfld world maindb path mem =
      linkListed world maindb path mem) := by
  rw [runSelfld_eq]
  by_cases overfills : Overfills world maindb path mem
  · refine .inl ⟨overfills, ?_⟩
    obtain ⟨em, main, state, mapped, fills⟩ := overfills
    obtain ⟨_, stopped⟩ := (slots_cases world main state).resolve_right fun room => room.1 fills
    simp only [linkBy, em, mapped]
    change ((listedPaths world main).foldlM (slotStep world) ([], state) >>= _) = _
    exact bind_error_of stopped
  · refine .inr ⟨overfills, ?_⟩
    refine bind_congr_ok fun em found => bind_congr_ok fun _ machine =>
      bind_congr_ok fun ⟨main, state⟩ mapped => ?_
    obtain ⟨rfl, _⟩ := Option.ite_none_right_eq_some.mp ((orDie_eq_ok_iff _ _ _).mp machine)
    obtain ⟨_, same⟩ := (slots_cases world main state).resolve_left fun full =>
      overfills ⟨found, main, state, mapped, full.1⟩
    exact congrArg (· >>= _) same

/-- A step that stores an object has a slot for it. -/
theorem slotStep_slot (stepped : slotStep world filled located = .ok after) :
    after.1.length ≤ maxLibs := by
  simp only [slotStep, bind_eq_ok_iff] at stepped
  obtain ⟨libpath, _, _, mapped, result⟩ := stepped
  cases result
  rw [mapObject, bind_eq_ok_iff] at mapped
  obtain ⟨_, _, mapped⟩ := mapped
  rw [bind_eq_ok_iff] at mapped
  obtain ⟨_, slot, _⟩ := mapped
  rw [libSlot] at slot
  split at slot
  · rw [List.length_append, List.length_singleton]
    omega
  · cases slot

theorem runSelfld_slots (reached : runSelfld world maindb path mem = .ok out) :
    out.libs.length ≤ maxLibs := by
  simp only [runSelfld_eq, linkBy, bind_eq_ok_iff] at reached
  obtain ⟨_, _, _, _, _, _, ⟨libs, state⟩, filled, _, _, result⟩ := reached
  cases result
  exact foldlM_preserves (P := fun filled => filled.1.length ≤ maxLibs)
    (fun _ _ _ _ _ => slotStep_slot) (Nat.zero_le _) filled

theorem runSelfld_recorded (reached : runSelfld world maindb path mem = .ok out) :
    Recorded world path mem out := by
  have bound := runSelfld_bound reached
  obtain ⟨layers, laid, relocated⟩ := runSelfld_laid reached
  rw [Linked.objects_eq] at laid
  refine ⟨bound.main, ?_, runSelfld_slots reached, layers, laid, relocated⟩
  have split : out.libs = out.needed ++ out.preloads := (List.take_append_drop _ _).symm
  rw [split, listedPaths]
  refine List.rel_append ?_ ?_
  · exact List.forall₂_map_left_iff.mpr bound.needed
  · refine List.forall₂_map_left_iff.mpr (bound.preloads.imp fun preload obj opened => ?_)
    exact ⟨preload, rfl, opened⟩

theorem listedPaths_length (world : World) (main : SelfObject) :
    (listedPaths world main).length = main.conn.needed.rows.length +
    (preloadPaths world).length := by
  rw [listedPaths, List.length_append, List.length_map, List.length_map]

/-- In a run that would get through with room, one listed object too many is what overfills
the array. -/
theorem overfills_iff (linked : linkListed world maindb path mem = .ok out) :
    Overfills world maindb path mem ↔
      maxLibs < out.main.conn.needed.rows.length + (preloadPaths world).length := by
  simp only [linkListed, linkBy, bind_eq_ok_iff, orDie_eq_ok_iff] at linked
  obtain ⟨em, found, _, machine, ⟨main, state⟩, mapped, ⟨libs, last⟩, filled, _, _, result⟩ :=
    linked
  cases result
  rw [← listedPaths_length world]
  constructor
  · rintro ⟨_, main', state', mapped', _, _, _, _, next, _⟩
    cases mapped.symm.trans mapped'
    exact (List.getElem?_eq_some_iff.mp next).1
  · intro more
    obtain ⟨rfl, _⟩ := Option.ite_none_right_eq_some.mp machine
    rw [← List.take_append_drop maxLibs (listedPaths world main), List.foldlM_append,
      bind_eq_ok_iff, List.drop_eq_getElem_cons more] at filled
    obtain ⟨front, mappedFront, rest⟩ := filled
    rw [List.foldlM_cons, bind_eq_ok_iff] at rest
    obtain ⟨_, step, _⟩ := rest
    simp only [mapListed, bind_eq_ok_iff] at step
    obtain ⟨libpath, located, ⟨lib, _⟩, mappedLib, _⟩ := step
    refine ⟨found, main, state, mapped, front, libpath, lib.conn, mappedFront, ?_,
      (mapObject_inv mappedLib).1⟩
    rw [List.getElem?_eq_getElem more, located]

theorem not_records_of_fault (stopped : runSelfld world maindb path mem = .error .fault) :
    ¬ Records world maindb path mem := by
  rintro (⟨_, died⟩ | ⟨_, reached, _⟩)
  · cases stopped.symm.trans died
  · cases stopped.symm.trans reached

/-- A run stops with a message, or has a slot for every listed object and relocates
each once, exactly when the array is not overfilled and no other access faults. -/
theorem runSelfld_recorded_iff (world : World) (maindb : Connection) (path : String)
    (mem : Memory) :
    (Records world maindb path mem ↔
      ¬ Overfills world maindb path mem ∧ linkListed world maindb path mem ≠ .error .fault) ∧
    ∀ out, linkListed world maindb path mem = .ok out →
      (Overfills world maindb path mem ↔
        maxLibs < out.main.conn.needed.rows.length + (preloadPaths world).length) := by
  refine ⟨?_, fun out => overfills_iff⟩
  rcases runSelfld_cases world maindb path mem with ⟨overfills, stopped⟩ | ⟨room, same⟩
  · exact iff_of_false (not_records_of_fault stopped) fun holds => holds.1 overfills
  · rw [← same]
    cases run : runSelfld world maindb path mem with
    | error stop =>
      cases stop with
      | die why => exact iff_of_true (.inl ⟨why, run⟩) ⟨room, nofun⟩
      | fault => exact iff_of_false (not_records_of_fault run) fun holds => holds.2 rfl
    | ok out => exact iff_of_true (.inr ⟨out, run, runSelfld_recorded run⟩) ⟨room, nofun⟩

/-- A program with 33 NEEDED rows, each of which has a file. -/
def needsMany : Database :=
  exporting 0x300 ⟨(List.range 33).map fun k => ⟨k, "libf.so"⟩, by decide⟩ .empty

def manyLibraries : World where
  os := .lowest
  files path :=
    if path = "/main.self" then some needsMany.connect
    else if path = "/libf.self" then some (exporting 0x200 .empty .empty).connect
    else none
  resolver := some ⟨fun _ => .cursor ["/libf.self"] .done, .prepareError⟩

/-- The run that would map all 33 writes behind the array. -/
theorem runSelfld_overfills :
    runSelfld manyLibraries needsMany.connect "/main.self" unmappedSpace = .error .fault ∧
      ¬ Records manyLibraries needsMany.connect "/main.self" unmappedSpace ∧
      ∃ out, linkListed manyLibraries needsMany.connect "/main.self" unmappedSpace = .ok out ∧
        out.libs.length = 33 := by
  have stopped : runSelfld manyLibraries needsMany.connect "/main.self" unmappedSpace =
      .error .fault :=
    error_of_map (by decide +kernel)
  exact ⟨stopped, not_records_of_fault stopped, exists_of_map_decide (by decide +kernel)⟩

end SelfDb
