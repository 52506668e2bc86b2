import SelfDb.Loader.ImageProofs
import SelfDb.Loader.SelfLdProofs

/-! What the loaders do when a statement fails. The scans step a statement until
it yields no row and never look at why. -/
namespace SelfDb
open Paging

/-- What running a statement can come to when its complete answer is `rows`. -/
inductive Query.Runs (rows : List α) : Query α → Prop where
  | prepareError : Runs rows .prepareError
  | done : Runs rows (.cursor rows .done)
  | error (seen : List α) (part : seen <+: rows) : Runs rows (.cursor seen .error)

/-- The statement ended in an error. -/
def Query.Failed : Query α → Prop
  | .prepareError => True
  | .cursor _ ending => ending = .error

/-- Any way in which the statements of a connection can run on a database. -/
structure Connection.Runs (db : Database) (conn : Connection) : Prop where
  metaValue : ∀ key, (conn.metaValue key).Runs (db.selfMeta key).toList
  segments : conn.segments.Runs db.segments.rows
  loadBounds : conn.loadBounds.Runs (db.loadRows.map fun row => (row.vaddr, row.memsz))
  loadSegments : conn.loadSegments.Runs db.loadRows
  needed : conn.needed.Runs (db.needed.rows.map (·.soname))
  exports : conn.exports.Runs db.exports
  relocations : conn.relocations.Runs db.boundRelocations

theorem Database.connect_runs (db : Database) : db.connect.Runs db where
  metaValue _ := .done
  segments := .done
  loadBounds := .done
  loadSegments := .done
  needed := .done
  exports := .done
  relocations := .done

/-- All scans of the connection fail before their first row. -/
def Database.failing (db : Database) : Connection where
  metaValue key := .cursor (db.selfMeta key).toList .done
  segments := .cursor [] .error
  loadBounds := .cursor [] .error
  loadSegments := .cursor [] .error
  needed := .cursor [] .error
  exports := .cursor [] .error
  relocations := .cursor [] .error

theorem Database.failing_runs (db : Database) : db.failing.Runs db where
  metaValue _ := .done
  segments := .error [] List.nil_prefix
  loadBounds := .error [] List.nil_prefix
  loadSegments := .error [] List.nil_prefix
  needed := .error [] List.nil_prefix
  exports := .error [] List.nil_prefix
  relocations := .error [] List.nil_prefix

theorem Query.Runs.part {rows : List α} {answer : Query α} (runs : answer.Runs rows) :
    answer.rows <+: rows := by
  cases runs with
  | prepareError => exact List.nil_prefix
  | done => exact List.prefix_refl rows
  | error seen part => exact part

theorem connect_selfGetInt (db : Database) (key : MetaKey) :
    selfGetInt db.connect key = (db.selfMeta key).map Value.columnInt64 := by
  rw [selfGetInt, Database.connect, Query.rows]
  cases db.selfMeta key <;> rfl

/-- A lookup finds what is stored, or nothing. -/
theorem Connection.Runs.selfGetInt {db : Database} {conn : Connection} (runs : conn.Runs db)
    (found : selfGetInt conn key = some value) : selfGetInt db.connect key = some value := by
  rw [SelfDb.selfGetInt, Option.map_eq_some_iff] at found
  obtain ⟨stored, first, rfl⟩ := found
  obtain ⟨rest, rows⟩ := (runs.metaValue key).part
  have head : (db.selfMeta key).toList.head? = some stored := by
    rw [← rows, List.head?_append, first]
    rfl
  exact congrArg (Option.map Value.columnInt64) head

theorem Connection.Runs.selfGetInt_none {db : Database} {conn : Connection} (runs : conn.Runs db)
    (absent : db.selfMeta key = none) : SelfDb.selfGetInt conn key = none := by
  by_contra present
  obtain ⟨value, found⟩ := Option.ne_none_iff_exists'.mp present
  have stored := runs.selfGetInt found
  rw [connect_selfGetInt, absent] at stored
  cases stored

theorem Database.failing_selfGetInt (db : Database) (key : MetaKey) :
    selfGetInt db.failing key = (db.selfMeta key).map Value.columnInt64 :=
  connect_selfGetInt db key

/-- A lookup is stepped once, so it fails only before its row. -/
def Connection.LookupFailed (conn : Connection) (key : MetaKey) : Prop :=
  (conn.metaValue key).Failed ∧ (conn.metaValue key).rows = []

/-! `self_build_elf` -/

def imageKeys : List MetaKey := [.et, .em, .entry, .phoff, .eflags, .phnum, .osabi]

theorem readMeta_isSome_iff (conn : Connection) :
    (readMeta conn).isSome ↔ ∀ key ∈ imageKeys, (selfGetInt conn key).isSome := by
  simp only [readMeta, imageKeys, List.forall_mem_cons, List.not_mem_nil, false_implies,
    implies_true, and_true, Option.bind_eq_bind, Option.isSome_iff_exists, Option.bind_eq_some_iff]
  constructor
  · rintro ⟨_, et, found, em, foundEm, entry, foundEntry, phoff, foundPhoff, eflags, foundEflags,
      phnum, foundPhnum, osabi, foundOsabi, _⟩
    exact ⟨⟨et, found⟩, ⟨em, foundEm⟩, ⟨entry, foundEntry⟩, ⟨phoff, foundPhoff⟩,
      ⟨eflags, foundEflags⟩, ⟨phnum, foundPhnum⟩, osabi, foundOsabi⟩
  · rintro ⟨⟨et, found⟩, ⟨em, foundEm⟩, ⟨entry, foundEntry⟩, ⟨phoff, foundPhoff⟩,
      ⟨eflags, foundEflags⟩, ⟨phnum, foundPhnum⟩, osabi, foundOsabi⟩
    exact ⟨_, et, found, em, foundEm, entry, foundEntry, phoff, foundPhoff, eflags, foundEflags,
      phnum, foundPhnum, osabi, foundOsabi, rfl⟩

theorem selfBuildElf_missing (missing : selfGetInt conn key = none) (member : key ∈ imageKeys)
    (heap : Heap) : selfBuildElf heap conn = .null := by
  have absent : readMeta conn = none := by
    rw [← Option.not_isSome_iff_eq_none, readMeta_isSome_iff]
    intro all
    have found := all key member
    rw [missing] at found
    cases found
  rw [selfBuildElf, absent]

/-- No image is built when the segments scan or a lookup ends in an error. -/
def ImageFailStop (db : Database) : Prop :=
  ∀ conn : Connection, conn.Runs db →
    (conn.segments.Failed ∨ ∃ key ∈ imageKeys, conn.LookupFailed key) →
      ∀ heap, selfBuildElf heap conn = .null

theorem selfGetInt_eq_none_iff (conn : Connection) (key : MetaKey) :
    selfGetInt conn key = none ↔ (conn.metaValue key).rows = [] := by
  rw [selfGetInt, Option.map_eq_none_iff, List.head?_eq_none_iff]

/-- In one run, only a lookup without a row and a statement that does not prepare are noticed. -/
theorem selfBuildElf_null_iff (conn : Connection) :
    (∀ heap, selfBuildElf heap conn = .null) ↔
      (∃ key ∈ imageKeys, (conn.metaValue key).rows = []) ∨ conn.segments = .prepareError := by
  constructor
  · intro stops
    by_contra present
    simp only [not_or, not_exists, not_and, ← selfGetInt_eq_none_iff] at present
    have found : ∀ key ∈ imageKeys, (selfGetInt conn key).isSome := fun key member =>
      Option.isSome_iff_ne_none.mpr (present.1 key member)
    obtain ⟨m, read⟩ := Option.isSome_iff_exists.mp ((readMeta_isSome_iff conn).mpr found)
    cases scan : conn.segments with
    | prepareError => exact present.2 scan
    | cursor rows ending =>
      have null := stops .ample
      rw [selfBuildElf_eq .ample read scan] at null
      generalize rowLoop .ample _ 0 rows _ = looped at null
      cases looped with
      | error kind => cases null
      | ok size =>
        rw [afterRows, if_pos (show Heap.ample.image size = true from rfl)] at null
        split at null <;> cases null
  · rintro (⟨key, member, none⟩ | unprepared) heap
    · exact selfBuildElf_missing ((selfGetInt_eq_none_iff conn key).mpr none) member heap
    · rw [selfBuildElf, unprepared]
      split <;> rfl

theorem imageFailStop_iff (db : Database) :
    ImageFailStop db ↔ ∃ key ∈ imageKeys, db.selfMeta key = none := by
  constructor
  · intro stops
    have null := (selfBuildElf_null_iff db.failing).mp
      (stops db.failing db.failing_runs (.inl rfl))
    simpa only [Database.failing, Query.rows, Option.toList_eq_nil_iff, reduceCtorEq, or_false]
      using null
  · rintro ⟨key, member, absent⟩ conn runs _ heap
    exact selfBuildElf_missing (runs.selfGetInt_none absent) member heap

/-! `map_program` -/

def mapKeys : List MetaKey := [.et, .entry, .phoff, .phnum, .phentsize]

/-- No program is mapped when a scan or a lookup ends in an error. -/
def MapFailStop (db : Database) : Prop :=
  ∀ conn : Connection, conn.Runs db →
    (conn.loadBounds.Failed ∨ conn.loadSegments.Failed ∨ ∃ key ∈ mapKeys, conn.LookupFailed key) →
      ∀ os mem out, mapProgram os conn mem ≠ .ok out

theorem mapProgram_keys (mapped : mapProgram os conn mem = .ok out) :
    ∀ key ∈ mapKeys, selfGetInt conn key ≠ none := by
  simp only [mapProgram, bind_eq_ok_iff, selfMetaInt_eq_ok_iff] at mapped
  obtain ⟨et, hEt, entry, hEntry, phoff, hPhoff, _, _, _, _, phnum, hPhnum, phent, hPhent, _⟩ :=
    mapped
  simp [mapKeys, hEt, hEntry, hPhoff, hPhnum, hPhent]

/-- The bounds of no row can be reserved. -/
theorem reserveSpan_empty (isPie : Bool) :
    ∃ span, reserveSpan .userSpace (2 ^ 64 - 1) 0 isPie unmappedSpace = .ok span := by
  cases isPie <;> exact exists_of_isSome (by decide +kernel)

/-- Where the keys are found, scans that fail at once leave an empty program. -/
theorem mapProgram_failing {db : Database} (keys : ∀ key ∈ mapKeys, db.selfMeta key ≠ none) :
    ∃ out, mapProgram .userSpace db.failing unmappedSpace = .ok out := by
  have found : ∀ key ∈ mapKeys, ∃ value, selfGetInt db.failing key = some value := by
    intro key member
    rw [db.failing_selfGetInt]
    obtain ⟨value, stored⟩ := Option.ne_none_iff_exists'.mp (keys key member)
    exact ⟨_, congrArg (Option.map Value.columnInt64) stored⟩
  simp only [mapKeys, List.forall_mem_cons, List.not_mem_nil, false_implies, implies_true,
    and_true] at found
  obtain ⟨⟨et, hEt⟩, ⟨entry, hEntry⟩, ⟨phoff, hPhoff⟩, ⟨phnum, hPhnum⟩, phent, hPhent⟩ := found
  obtain ⟨span, reserved⟩ := reserveSpan_empty (et = etDyn)
  simp only [mapProgram, bind_eq_ok_iff, selfMetaInt_eq_ok_iff]
  exact ⟨_, et, hEt, entry, hEntry, phoff, hPhoff, span, reserved, _, rfl, phnum, hPhnum, phent,
    hPhent, rfl⟩

theorem mapFailStop_iff (db : Database) :
    MapFailStop db ↔ ∃ key ∈ mapKeys, db.selfMeta key = none := by
  constructor
  · intro stops
    by_contra present
    simp only [not_exists, not_and] at present
    obtain ⟨out, mapped⟩ := mapProgram_failing present
    exact stops db.failing db.failing_runs (.inl rfl) _ _ out mapped
  · rintro ⟨key, member, absent⟩ conn runs _ os mem out mapped
    exact mapProgram_keys mapped key member (runs.selfGetInt_none absent)

/-! `map_object`, `relocate` and the scans of `run_selfld` -/

/-- No object is mapped when one of the scans of `map_object` ends in an error. -/
def ObjectFailStop (db : Database) : Prop :=
  ∀ conn : Connection, conn.Runs db →
    (conn.loadBounds.Failed ∨ conn.loadSegments.Failed ∨ conn.exports.Failed) →
      ∀ world path state out, world.files path = some conn →
        mapObject world path (.ok ()) state ≠ .ok out

/-- No object is relocated when the scan of its relocations ends in an error. -/
def RelocateFailStop (db : Database) : Prop :=
  ∀ conn : Connection, conn.Runs db → conn.relocations.Failed →
    ∀ syms mem bias entry out, relocate syms mem ⟨conn, bias, entry⟩ ≠ .ok out

/-- No program is started when the scan of its NEEDED names ends in an error. -/
def NeededFailStop (db : Database) : Prop :=
  ∀ maindb conn : Connection, maindb.Runs db → conn.Runs db → conn.needed.Failed →
    ∀ world path mem out, world.files path = some conn → runSelfld world maindb path mem ≠ .ok out

/-- No program is started when the scan of an existing preload table ends in an error. -/
def PreloadFailStop (db : Database) : Prop :=
  ∀ maindb conn : Connection, maindb.Runs db → conn.Runs db →
    ∀ world path mem out rdb paths, world.files path = some conn → world.resolver = some rdb →
      rdb.preload = .cursor paths .error → runSelfld world maindb path mem ≠ .ok out

/-- All files are the program, and all its scans and that of the preload table fail at once. -/
def failingWorld (db : Database) : World where
  os := .userSpace
  files _ := some db.failing
  resolver := some ⟨fun _ => .cursor [] .error, .cursor [] .error⟩

theorem mapObject_failing (db : Database) (path : String) :
    ∃ bias entry mem, mapObject (failingWorld db) path (.ok ()) ⟨unmappedSpace, []⟩ =
      .ok (⟨db.failing, bias, entry⟩, ⟨mem, []⟩) := by
  obtain ⟨⟨bias, mem⟩, reserved⟩ := reserveSpan_empty true
  refine ⟨bias, ((selfGetInt db.failing .entry).map fun value => wrap (bias + sizeT value)).getD 0,
    mem, ?_⟩
  simp only [mapObject, bind_eq_ok_iff, orDie_eq_ok_iff]
  exact ⟨db.failing, rfl, (), trivial, _, reserved, mem, rfl, [], rfl, rfl⟩

theorem runSelfld_failing {db : Database} (machine : selfGetInt db.connect .em = some emX86_64) :
    ∃ out, runSelfld (failingWorld db) db.connect "/main.self" unmappedSpace = .ok out := by
  obtain ⟨bias, entry, mem, mapped⟩ := mapObject_failing db "/main.self"
  refine ⟨⟨⟨db.failing, bias, entry⟩, [], [], mem⟩, ?_⟩
  simp only [runSelfld, bind_eq_ok_iff, selfMetaInt_eq_ok_iff]
  exact ⟨_, machine, (), rfl, _, mapped, _, rfl, _, rfl, _, rfl, _, rfl, rfl⟩

/-- The machine is checked before anything is scanned. -/
theorem runSelfld_machine {db : Database} {maindb : Connection} (runs : maindb.Runs db)
    (reached : runSelfld world maindb path mem = .ok out) :
    selfGetInt db.connect .em = some emX86_64 := by
  simp only [runSelfld, bind_eq_ok_iff, selfMetaInt_eq_ok_iff, orDie_eq_ok_iff] at reached
  obtain ⟨em, found, _, checked, _⟩ := reached
  obtain ⟨rfl, _⟩ := Option.ite_none_right_eq_some.mp checked
  exact runs.selfGetInt found

/-! A run in which statements fail, against the one in which the rows seen are all there are. -/

def Query.ended (answer : Query α) : Query α := .cursor answer.rows .done

def Connection.ended (conn : Connection) : Connection where
  metaValue key := (conn.metaValue key).ended
  segments := conn.segments.ended
  loadBounds := conn.loadBounds.ended
  loadSegments := conn.loadSegments.ended
  needed := conn.needed.ended
  exports := conn.exports.ended
  relocations := conn.relocations.ended

def World.ended (world : World) : World where
  os := world.os
  files path := (world.files path).map Connection.ended
  resolver := world.resolver.map fun rdb =>
    ⟨fun soname => (rdb.objectPath soname).ended, rdb.preload.ended⟩

def SelfObject.ended (obj : SelfObject) : SelfObject := { obj with conn := obj.conn.ended }

def Linked.ended (out : Linked) : Linked :=
  { out with main := out.main.ended, libs := out.libs.map SelfObject.ended }

theorem mapObject_ended (world : World) (path : String) (slot : Run Unit) (state : Linking) :
    mapObject world.ended path slot state =
      (mapObject world path slot state).map fun out => (out.1.ended, out.2) := by
  cases opened : world.files path with
  | none => simp only [mapObject, World.ended, opened, Option.map_none, orDie]; rfl
  | some conn =>
    simp only [mapObject, World.ended, opened, Option.map_some, orDie, ok_bind]
    refine bind_eq_map_bind fun _ _ => bind_eq_map_bind ?_
    rintro ⟨bias, mem⟩ -
    exact bind_eq_map_bind fun mem _ => bind_eq_map_bind fun syms _ => rfl

theorem libsLoop_ended (world : World) (pathOf : String → Run String) (rows : List String)
    (libs : List SelfObject) (state : Linking) :
    libsLoop world.ended pathOf rows (libs.map SelfObject.ended) state =
      (libsLoop world pathOf rows libs state).map fun out =>
        (out.1.map SelfObject.ended, out.2) := by
  induction rows generalizing libs state with
  | nil => rfl
  | cons row rest ih =>
    rw [libsLoop, libsLoop]
    refine bind_eq_map_bind fun path _ => ?_
    rw [mapObject_ended, List.length_map]
    refine map_bind_eq_map_bind ?_
    rintro ⟨lib, state⟩ -
    have later := ih (libs ++ [lib]) state
    rwa [List.map_append] at later

theorem runSelfld_ended (world : World) (maindb : Connection) (path : String) (mem : Memory) :
    runSelfld world.ended maindb.ended path mem =
      (runSelfld world maindb path mem).map Linked.ended := by
  have resolve : resolveNeeded world.ended = resolveNeeded world := by
    funext soname
    rw [resolveNeeded, resolveNeeded, World.ended]
    cases world.resolver <;> rfl
  have preload : preloadPaths world.ended = preloadPaths world := by
    rw [preloadPaths, preloadPaths, World.ended]
    cases world.resolver <;> rfl
  refine bind_eq_map_bind fun em _ => bind_eq_map_bind fun _ _ => ?_
  rw [mapObject_ended]
  refine map_bind_eq_map_bind ?_
  rintro ⟨main, state⟩ -
  have needed := libsLoop_ended world (resolveNeeded world) main.conn.needed.rows [] state
  rw [List.map_nil] at needed
  show (libsLoop world.ended (resolveNeeded world.ended) main.conn.needed.rows [] state >>= _) =
    (libsLoop world (resolveNeeded world) main.conn.needed.rows [] state >>= _).map _
  rw [resolve, needed]
  refine map_bind_eq_map_bind ?_
  rintro ⟨libs, state⟩ -
  dsimp only
  rw [preload, libsLoop_ended]
  refine map_bind_eq_map_bind ?_
  rintro ⟨libs, state⟩ -
  dsimp only
  rw [List.foldlM_map]
  exact bind_eq_map_bind fun mem _ => bind_eq_map_bind fun mem _ => rfl

/-- The loaders stop at an error exactly when they stop before the first scan,
for another reason; `map_object` and `relocate` never do. In each single run they go on
exactly as if the rows that were seen were all there are. -/
theorem failStop_iff (db : Database) :
    (ImageFailStop db ↔ ∃ key ∈ imageKeys, db.selfMeta key = none) ∧
      (MapFailStop db ↔ ∃ key ∈ mapKeys, db.selfMeta key = none) ∧
      ¬ ObjectFailStop db ∧ ¬ RelocateFailStop db ∧
      (NeededFailStop db ↔ selfGetInt db.connect .em ≠ some emX86_64) ∧
      (PreloadFailStop db ↔ selfGetInt db.connect .em ≠ some emX86_64) ∧
      (∀ conn : Connection, (∀ heap, selfBuildElf heap conn = .null) ↔
        (∃ key ∈ imageKeys, (conn.metaValue key).rows = []) ∨ conn.segments = .prepareError) ∧
      (∀ os (conn : Connection) mem, mapProgram os conn.ended mem = mapProgram os conn mem) ∧
      (∀ world path slot state, mapObject world.ended path slot state =
        (mapObject world path slot state).map fun out => (out.1.ended, out.2)) ∧
      (∀ syms mem (obj : SelfObject), relocate syms mem obj.ended = relocate syms mem obj) ∧
      ∀ world (maindb : Connection) path mem, runSelfld world.ended maindb.ended path mem =
        (runSelfld world maindb path mem).map Linked.ended := by
  refine ⟨imageFailStop_iff db, mapFailStop_iff db, ?_, ?_, ⟨?_, ?_⟩, ⟨?_, ?_⟩,
    selfBuildElf_null_iff, fun _ _ _ => rfl, mapObject_ended, fun _ _ _ => rfl, runSelfld_ended⟩
  · intro stops
    obtain ⟨_, _, _, mapped⟩ := mapObject_failing db "/main.self"
    exact stops db.failing db.failing_runs (.inl rfl) _ _ _ _ rfl mapped
  · intro stops
    exact stops db.failing db.failing_runs rfl [] unmappedSpace 0 0 unmappedSpace rfl
  · intro stops machine
    obtain ⟨out, reached⟩ := runSelfld_failing machine
    exact stops _ _ db.connect_runs db.failing_runs rfl _ _ _ out rfl reached
  · intro other maindb conn runs _ _ world path mem out _ reached
    exact other (runSelfld_machine runs reached)
  · intro stops machine
    obtain ⟨out, reached⟩ := runSelfld_failing machine
    exact stops _ _ db.connect_runs db.failing_runs _ _ _ out _ _ rfl rfl rfl reached
  · intro other maindb conn runs _ world path mem out _ _ _ _ _ reached
    exact other (runSelfld_machine runs reached)

/-- The segments of two rows cannot be read past the first. -/
def secondRowFails : Connection :=
  { sharedPage.connect with
    segments := .cursor [loadRow 0 0x400000 [1, 2]] .error
    loadSegments := .cursor [loadRow 0 0x400000 [1, 2]] .error }

def relocationsFail : Connection := { callerOfF.connect with relocations := .cursor [] .error }

/-- The image lacks a row, the mapped program a segment, and the program that
`self-ld` starts its relocation. -/
theorem loaders_continue :
    (secondRowFails.Runs sharedPage ∧ secondRowFails.segments.Failed ∧
      selfBuildElf .ample secondRowFails ≠ .null) ∧
    (secondRowFails.loadSegments.Failed ∧
      ∃ out, mapProgram .userSpace secondRowFails unmappedSpace = .ok out) ∧
    (relocationsFail.Runs callerOfF ∧ relocationsFail.relocations.Failed ∧
      ∃ out, runSelfld { twoExporters with files := fun _ => some relocationsFail } relocationsFail
        "/main.self" unmappedSpace = .ok out ∧ out.memory.byte 0x10010 = 0) := by
  have part : [loadRow 0 0x400000 [1, 2]] <+: sharedPage.loadRows :=
    ⟨[loadRow 1 0x400100 [3]], by decide⟩
  refine ⟨⟨?_, rfl, by decide +kernel⟩, ⟨rfl, ?_⟩, ?_, rfl, ?_⟩
  · exact { sharedPage.connect_runs with segments := .error _ part, loadSegments := .error _ part }
  · have ran : ∃ out, mapProgram .userSpace secondRowFails unmappedSpace = .ok out ∧
        out.2.byte 0x400000 = 1 := exists_of_map_decide (by decide +kernel)
    obtain ⟨out, mapped, _⟩ := ran
    exact ⟨out, mapped⟩
  · exact { callerOfF.connect_runs with relocations := .error _ List.nil_prefix }
  · exact exists_of_map_decide (by decide +kernel)

end SelfDb
