import SelfDb.Registry.FirstCome
import SelfDb.Registry.Numbering
import SelfDb.Selfconv.Closure

/-! What a closure database records. An object is recorded at the first visit of
its path, and what is recorded does not depend on how the path was reached. -/
namespace SelfDb
open Registry

/-- What is recorded about an object, apart from its id and its role. -/
structure ObjectRecord where
  columns : ObjectColumns
  needs : List NeedsEntry
  segments : List SegmentRow
  symbols : List SymbolEntry
  deriving DecidableEq

def ObjectColumns.as (columns : ObjectColumns) (isRoot : Bool) : ObjectColumns :=
  { columns with kind := if isRoot then .exe else .lib, isRoot := if isRoot then 1 else 0 }

/-- The record of a path; its columns are those of a library. -/
def objectRecord (host : Host) (withSegments : Bool) (path : String) :
    Except PyError ObjectRecord := do
  let data ← orRaise .osError (host.files path)
  let (ehdr, phdrs) ← parseImage data
  let b ← orRaise .attributeError (host.lief path)
  let soname ← sonameOf b.dynamicEntries
  let columns := objectColumns path false soname ehdr phdrs.length b.notes
  Py.raiseIf (¬ columns.Stored) .overflowError
  let resolved ← lddMap host path
  let segments ← segmentEntries data phdrs withSegments
  let symbols ← symbolEntries b.dynamicSymbols
  return ⟨columns, needsEntries resolved b.libraries, segments, symbols⟩

theorem objectRecord_path (recorded : objectRecord host withSegments path = .ok record) :
    record.columns.path = path := by
  simp only [objectRecord, bind_eq_ok_iff] at recorded
  obtain ⟨_, _, ⟨_, _⟩, _, _, _, _, _, _, _, _, _, _, _, _, _, result⟩ := recorded
  cases result
  rfl

theorem objectColumns_stored (path : String) (isRoot : Bool) (soname : Option String) (ehdr : Ehdr)
    (phnum : Nat)
    (notes : List LiefNote) : (objectColumns path isRoot soname ehdr phnum notes).Stored ↔
      (objectColumns path false soname ehdr phnum notes).Stored := by
  have flag : Storable (if isRoot then 1 else 0) := by cases isRoot <;> decide
  simp only [ObjectColumns.Stored, objectColumns, List.forall_mem_cons, flag, true_and]
  exact (and_iff_right (by decide)).symm

/-- The state after a new object. -/
structure Added (state : Packing) (isRoot : Bool) (record : ObjectRecord)
    (next : Packing) : Prop where
  objects : next.db.objects.rows =
    state.db.objects.rows ++ [⟨record.columns.as isRoot, state.db.objects.nextKey⟩]
  needs : next.db.needs = state.db.needs ++ record.needs.map (.mk state.db.objects.nextKey)
  segments : next.db.segments = state.db.segments ++
    record.segments.map (.mk state.db.objects.nextKey)
  symbols : next.db.symbols = state.db.symbols ++ record.symbols.map (.mk state.db.objects.nextKey)
  seen : next.seen = state.seen.insert record.columns.path state.db.objects.nextKey

theorem insertObjectRow_exists (fresh : columns.path ∉ db.objects.rows.map (·.path))
    (stored : columns.Stored) :
    ∃ after, Closure.insertObjectRow db columns = .ok after := by
  rw [Closure.insertObjectRow, if_pos stored, dif_neg fresh]
  exact ⟨_, rfl⟩

theorem insertObjectRow_inv (inserted : Closure.insertObjectRow db columns = .ok after) :
    columns.Stored ∧ after.objects.rows = db.objects.rows ++ [⟨columns, db.objects.nextKey⟩] ∧
      after.needs = db.needs ∧ after.segments = db.segments ∧ after.symbols = db.symbols := by
  rw [Closure.insertObjectRow] at inserted
  split at inserted
  · split at inserted
    · cases inserted
    · cases inserted
      exact ⟨‹_›, rfl, rfl, rfl, rfl⟩
  · cases inserted

theorem insertObject_added (fresh : state.seen.lookup path = none)
    (inserted : insertObject host withSegments path isRoot state = .ok (oid, next)) :
    ∃ record, objectRecord host withSegments path = .ok record ∧
      Added state isRoot record next := by
  simp only [insertObject, fresh, bind_eq_ok_iff] at inserted
  obtain ⟨data, read, ⟨ehdr, phdrs⟩, parsed, b, lief, soname, named, db, row, resolved, ldd,
    segments, sliced, symbols, listed, result⟩ := inserted
  cases result
  obtain ⟨stored, objects, needs, segments', symbols'⟩ := insertObjectRow_inv row
  rw [objectColumns_stored] at stored
  refine ⟨⟨objectColumns path false soname ehdr phdrs.length b.notes,
    needsEntries resolved b.libraries, segments, symbols⟩, ?_, ?_⟩
  · simp only [objectRecord, bind_eq_ok_iff, Py.raiseIf_eq_ok_iff, not_not]
    exact ⟨data, read, (ehdr, phdrs), parsed, b, lief, soname, named, (), stored, resolved, ldd,
      segments, sliced, symbols, listed, rfl⟩
  · exact ⟨objects, congrArg (· ++ _) needs, congrArg (· ++ _) segments',
      congrArg (· ++ _) symbols', rfl⟩

theorem insertObject_exists (fresh : state.seen.lookup path = none)
    (absent : path ∉ state.db.objects.rows.map (·.path))
    (recorded : objectRecord host withSegments path = .ok record) (isRoot : Bool) :
    ∃ out, insertObject host withSegments path isRoot state = .ok out := by
  simp only [objectRecord, bind_eq_ok_iff, Py.raiseIf_eq_ok_iff, not_not] at recorded
  obtain ⟨data, read, ⟨ehdr, phdrs⟩, parsed, b, lief, soname, named, _, stored, resolved, ldd,
    segments, sliced, symbols, listed, _⟩ := recorded
  obtain ⟨db, row⟩ := insertObjectRow_exists absent
    ((objectColumns_stored path isRoot ..).mpr stored)
  simp only [insertObject, fresh, bind_eq_ok_iff]
  exact ⟨_, data, read, (ehdr, phdrs), parsed, b, lief, soname, named, db, row, resolved, ldd,
    segments, sliced, symbols, listed, rfl⟩

/-! The database as a list of entries, numbered in the order of their first visit. -/

/-- A root has the flag of its entry. -/
abbrev Packed := Entry String ObjectRecord

def Packed.objectRow (entry : Packed) (id : Nat) : ObjectRow :=
  ⟨entry.value.columns.as entry.flag, id⟩

/-- The database holds these entries. -/
structure Packs (entries : List Packed) (state : Packing) : Prop where
  paths : ∀ entry ∈ entries, entry.value.columns.path = entry.key
  objects : state.db.objects.rows = (entries.zipIdx 1).map fun e => Packed.objectRow e.1 e.2
  needs : state.db.needs = (ownedRows 1 (·.value.needs) entries).map fun p => ⟨p.1, p.2⟩
  segments : state.db.segments = (ownedRows 1 (·.value.segments) entries).map fun p => ⟨p.1, p.2⟩
  symbols : state.db.symbols = (ownedRows 1 (·.value.symbols) entries).map fun p => ⟨p.1, p.2⟩
  seen : ∀ path, path ∈ state.seen ↔ path ∈ keys entries

theorem packs_empty : Packs [] ⟨.empty, ∅⟩ where
  paths := by simp
  objects := rfl
  needs := rfl
  segments := rfl
  symbols := rfl
  seen := by simp [keys]

theorem Packs.path_eq (packs : Packs entries state) :
    state.db.objects.rows.map (·.path) = keys entries := by
  have each : ∀ e ∈ entries.zipIdx 1, (Packed.objectRow e.1 e.2).path = e.1.key :=
    fun e member => packs.paths e.1 (List.fst_mem_of_mem_zipIdx member)
  have first := congrArg keys (List.zipIdx_map_fst 1 entries)
  rw [keys, List.map_map] at first
  rw [packs.objects, List.map_map]
  exact (List.map_congr_left each).trans first

theorem Packs.nextKey (packs : Packs entries state) :
    state.db.objects.nextKey = (1 + entries.length : Nat) := by
  rw [Table.nextKey, packs.objects]
  rcases entries.eq_nil_or_concat with rfl | ⟨front, last, rfl⟩
  · rfl
  · simp [List.zipIdx_append, Packed.objectRow]
    omega

/-- A new object becomes the last entry. -/
theorem Packs.append (packs : Packs entries state) (added : Added state isRoot record next)
    (path : record.columns.path = key) : Packs (entries ++ [⟨key, isRoot, record⟩]) next where
  paths := List.forall_mem_append.mpr ⟨packs.paths, List.forall_mem_singleton.mpr path⟩
  objects := by
    rw [added.objects, packs.nextKey, packs.objects, List.zipIdx_append, List.map_append]
    rfl
  needs := by
    rw [added.needs, packs.nextKey, packs.needs, ownedRows_append, List.map_append]
    simp [ownedRows, Function.comp_def]
  segments := by
    rw [added.segments, packs.nextKey, packs.segments, ownedRows_append, List.map_append]
    simp [ownedRows, Function.comp_def]
  symbols := by
    rw [added.symbols, packs.nextKey, packs.symbols, ownedRows_append, List.map_append]
    simp [ownedRows, Function.comp_def]
  seen other := by
    rw [added.seen, AList.mem_insert, packs.seen, path]
    simp [keys, or_comm]

theorem promoteRow_objectRow {entry : Packed} (path : entry.value.columns.path = entry.key)
    (root : String) (id : Nat) :
    Closure.promoteRow root (entry.objectRow id) = Packed.objectRow
      (entry.raise (root, true)) id := by
  have here : (entry.objectRow id).path = root ↔ entry.key = root := path ▸ Iff.rfl
  rw [Closure.promoteRow, Entry.raise]
  by_cases same : entry.key = root
  · rw [if_pos (here.mpr same), if_pos same, Bool.or_true]
    rfl
  · rw [if_neg (mt here.mp same), if_neg same]

/-- Another visit of a path can only make its object a root. -/
theorem Packs.raise (packs : Packs entries state) (path : String) (isRoot : Bool) :
    Packs (entries.map (Entry.raise (path, isRoot)))
      (if isRoot then { state with db := state.db.promote path } else state) := by
  cases isRoot with
  | false =>
    have same : entries.map (Entry.raise (path, false)) = entries := by simp
    rw [same]
    exact packs
  | true =>
    have owned : ∀ {β : Type} (rows : ObjectRecord → List β),
        ownedRows 1 (fun e : Packed => rows e.value) (entries.map (Entry.raise (path, true))) =
          ownedRows 1 (fun e => rows e.value) entries := by
      intro β rows
      simp only [ownedRows_map, Entry.raise_value]
    refine ⟨?_, ?_, ?_, ?_, ?_, fun other => ?_⟩
    · simpa only [List.forall_mem_map, Entry.raise_value, Entry.raise_key] using packs.paths
    · have each : ∀ e ∈ entries.zipIdx 1, Closure.promoteRow path (Packed.objectRow e.1 e.2) =
          Packed.objectRow (e.1.raise (path, true)) e.2 :=
        fun e member => promoteRow_objectRow (packs.paths _ (List.fst_mem_of_mem_zipIdx member))
          path e.2
      have rows : (state.db.promote path).objects.rows =
          state.db.objects.rows.map (Closure.promoteRow path) := rfl
      rw [List.zipIdx_map, List.map_map]
      exact rows.trans (by rw [packs.objects, List.map_map]; exact List.map_congr_left each)
    · rw [owned ObjectRecord.needs]
      exact packs.needs
    · rw [owned ObjectRecord.segments]
      exact packs.segments
    · rw [owned ObjectRecord.symbols]
      exact packs.symbols
    · have same : keys (entries.map (Entry.raise (path, true))) = keys entries := by
        simp [keys, Function.comp_def]
      rw [same]
      exact packs.seen other

/-- One call of `_insert_object` is one visit. -/
theorem Packs.insert (packs : Packs entries state)
    (inserted : insertObject host withSegments path isRoot state = .ok (oid, next)) :
    ∃ after, visit (objectRecord host withSegments) entries (path, isRoot) = .ok after ∧
      Packs after next := by
  rw [visit]
  cases known : state.seen.lookup path with
  | some known_id =>
    have member : path ∈ keys entries := (packs.seen path).mp (AList.lookup_isSome.mp (known ▸ rfl))
    simp only [insertObject, known] at inserted
    cases inserted
    rw [if_pos member]
    exact ⟨_, rfl, packs.raise path isRoot⟩
  | none =>
    have absent : path ∉ keys entries := fun member =>
      AList.lookup_eq_none.mp known ((packs.seen path).mpr member)
    obtain ⟨record, recorded, added⟩ := insertObject_added known inserted
    rw [if_neg absent, recorded]
    exact ⟨_, rfl, packs.append added (objectRecord_path recorded)⟩

theorem Packs.insert_exists (packs : Packs entries state)
    (recorded : ∃ record, objectRecord host withSegments path = .ok record) (isRoot : Bool) :
    ∃ out, insertObject host withSegments path isRoot state = .ok out := by
  cases known : state.seen.lookup path with
  | some _ =>
    simp only [insertObject, known]
    exact ⟨_, rfl⟩
  | none =>
    obtain ⟨_, recorded⟩ := recorded
    refine insertObject_exists known (fun member => ?_) recorded isRoot
    rw [packs.path_eq] at member
    exact AList.lookup_eq_none.mp known ((packs.seen path).mpr member)

/-! The calls of `_insert_object` that the roots lead to. -/

def libCalls (libs : List String) : List (String × Bool) := libs.map fun lib => (lib, false)

def rootCalls (host : Host) : List String → Except PyError (List (String × Bool))
  | [] => .ok []
  | root :: rest =>
    if isElf host root then do
      let libs ← lddClosure host root
      let later ← rootCalls host rest
      return (root, true) :: libCalls libs ++ later
    else rootCalls host rest

theorem libLoop_visits (packs : Packs entries state)
    (looped : libLoop host withSegments libs state = .ok next) :
    ∃ after, (libCalls libs).foldlM (visit (objectRecord host withSegments)) entries = .ok after ∧
      Packs after next := by
  induction libs generalizing entries state with
  | nil =>
    cases looped
    exact ⟨entries, rfl, packs⟩
  | cons lib rest ih =>
    simp only [libLoop, bind_eq_ok_iff] at looped
    obtain ⟨⟨_, _⟩, inserted, later⟩ := looped
    obtain ⟨middle, visited, packs⟩ := packs.insert inserted
    obtain ⟨after, visits, packs⟩ := ih packs later
    refine ⟨after, ?_, packs⟩
    simp only [libCalls, List.map_cons, List.foldlM_cons, bind_eq_ok_iff]
    exact ⟨middle, visited, visits⟩

theorem rootLoop_visits (packs : Packs entries state)
    (looped : rootLoop host withSegments roots skipped state = .ok (skipped', next)) :
    ∃ calls after, rootCalls host roots = .ok calls ∧
      calls.foldlM (visit (objectRecord host withSegments)) entries = .ok after ∧
        Packs after next := by
  induction roots generalizing entries skipped state with
  | nil =>
    cases looped
    exact ⟨[], entries, rfl, rfl, packs⟩
  | cons root rest ih =>
    rw [rootLoop] at looped
    rw [rootCalls]
    split at looped
    · rename_i elf
      simp only [bind_eq_ok_iff] at looped
      obtain ⟨⟨_, _⟩, inserted, libs, ldd, _, loop, later⟩ := looped
      obtain ⟨first, visited, packs⟩ := packs.insert inserted
      obtain ⟨second, visits, packs⟩ := libLoop_visits packs loop
      obtain ⟨calls, after, listed, others, packs⟩ := ih packs later
      refine ⟨(root, true) :: libCalls libs ++ calls, after, ?_, ?_, packs⟩
      · simp only [if_pos elf, bind_eq_ok_iff]
        exact ⟨libs, ldd, calls, listed, rfl⟩
      · simp only [List.cons_append, List.foldlM_cons, List.foldlM_append, bind_eq_ok_iff]
        exact ⟨first, visited, second, visits, others⟩
    · rename_i other
      rw [if_neg other]
      exact ih packs looped

theorem libLoop_exists (packs : Packs entries state)
    (recorded : ∀ lib ∈ libs, ∃ record, objectRecord host withSegments lib = .ok record) :
    ∃ next, libLoop host withSegments libs state = .ok next := by
  induction libs generalizing entries state with
  | nil => exact ⟨state, rfl⟩
  | cons lib rest ih =>
    rw [List.forall_mem_cons] at recorded
    obtain ⟨out, inserted⟩ := packs.insert_exists recorded.1 false
    obtain ⟨_, _, packs⟩ := packs.insert inserted
    obtain ⟨next, later⟩ := ih packs recorded.2
    refine ⟨next, ?_⟩
    simp only [libLoop, bind_eq_ok_iff]
    exact ⟨out, inserted, later⟩

theorem rootLoop_exists (packs : Packs entries state) (listed : rootCalls host roots = .ok calls)
    (recorded : ∀ call ∈ calls, ∃ record, objectRecord host withSegments call.1 = .ok record)
    (skipped : List String) :
    ∃ out, rootLoop host withSegments roots skipped state = .ok out := by
  induction roots generalizing entries skipped state calls with
  | nil => exact ⟨_, rfl⟩
  | cons root rest ih =>
    rw [rootCalls] at listed
    rw [rootLoop]
    split at listed
    · rename_i elf
      simp only [bind_eq_ok_iff] at listed
      obtain ⟨libs, ldd, later, listed, result⟩ := listed
      cases result
      rw [List.cons_append, List.forall_mem_cons, List.forall_mem_append, libCalls,
        List.forall_mem_map] at recorded
      obtain ⟨here, own, others⟩ := recorded
      obtain ⟨first, inserted⟩ := packs.insert_exists here true
      obtain ⟨_, _, packs⟩ := packs.insert inserted
      obtain ⟨second, loop⟩ := libLoop_exists packs own
      obtain ⟨_, _, packs⟩ := libLoop_visits packs loop
      obtain ⟨out, rest⟩ := ih packs listed others skipped
      refine ⟨out, ?_⟩
      simp only [if_pos elf, bind_eq_ok_iff]
      exact ⟨first, inserted, libs, ldd, second, loop, rest⟩
    · rename_i other
      rw [if_neg other]
      exact ih packs listed recorded _

/-! Members of the union of the closures. -/

/-- A root that is packed: the real path of a root, and an ELF file. -/
def IsRoot (host : Host) (roots : List String) (path : String) : Prop :=
  path ∈ roots.map host.realpath ∧ isElf host path = true

/-- A path in the `ldd` closure of an object. -/
def LddLists (host : Host) (object path : String) : Prop :=
  ∃ resolved, lddMap host object = .ok resolved ∧ path ∈ resolved.values

/-- An ELF root, or a path in the `ldd` closure of one. -/
def Member (host : Host) (roots : List String) (path : String) : Prop :=
  ∃ root, IsRoot host roots root ∧ (path = root ∨ LddLists host root path)

theorem mem_lddClosure (listed : lddClosure host object = .ok libs) (path : String) :
    path ∈ libs ↔ LddLists host object path := by
  rw [lddClosure] at listed
  rw [LddLists]
  cases resolved : lddMap host object with
  | error e =>
    rw [resolved] at listed
    cases listed
  | ok dict =>
    rw [resolved] at listed
    cases listed
    simp only [sortedSet, Except.ok.injEq, exists_eq_left', (List.perm_insertionSort _ _).mem_iff,
      List.mem_dedup]

theorem mem_rootCalls (listed : rootCalls host wanted = .ok calls) (call : String × Bool) :
    call ∈ calls ↔ ∃ root ∈ wanted, isElf host root = true ∧
      (call = (root, true) ∨ ∃ path, LddLists host root path ∧ call = (path, false)) := by
  induction wanted generalizing calls with
  | nil =>
    cases listed
    simp
  | cons root rest ih =>
    rw [rootCalls] at listed
    split at listed
    · rename_i elf
      simp only [bind_eq_ok_iff] at listed
      obtain ⟨libs, ldd, later, listed, result⟩ := listed
      cases result
      have own : call ∈ libCalls libs ↔ ∃ path, LddLists host root path ∧ call = (path, false) := by
        simp only [libCalls, List.mem_map, mem_lddClosure ldd, eq_comm (a := call)]
      simp only [List.cons_append, List.mem_cons, List.mem_append, ih listed, own, exists_eq_or_imp,
        elf, true_and, or_assoc]
    · rename_i other
      simp only [ih listed, List.mem_cons, exists_eq_or_imp, other, Bool.false_eq_true, false_and,
        false_or]

theorem rootCalls_exists
    (resolved : ∀ root ∈ wanted, isElf host root = true → ∃ libs, lddClosure host root = .ok libs) :
    ∃ calls, rootCalls host wanted = .ok calls := by
  induction wanted with
  | nil => exact ⟨[], rfl⟩
  | cons root rest ih =>
    rw [List.forall_mem_cons] at resolved
    obtain ⟨later, listed⟩ := ih resolved.2
    rw [rootCalls]
    split
    · obtain ⟨libs, ldd⟩ := resolved.1 ‹_›
      simp only [bind_eq_ok_iff]
      exact ⟨_, libs, ldd, later, listed, rfl⟩
    · exact ⟨later, listed⟩

theorem rootCalls_resolved (listed : rootCalls host wanted = .ok calls) :
    ∀ root ∈ wanted, isElf host root = true → ∃ libs, lddClosure host root = .ok libs := by
  induction wanted generalizing calls with
  | nil => simp
  | cons root rest ih =>
    rw [rootCalls] at listed
    rw [List.forall_mem_cons]
    split at listed
    · simp only [bind_eq_ok_iff] at listed
      obtain ⟨libs, ldd, later, listed, _⟩ := listed
      exact ⟨fun _ => ⟨libs, ldd⟩, ih listed⟩
    · rename_i other
      exact ⟨fun elf => absurd elf other, ih listed⟩

end SelfDb
