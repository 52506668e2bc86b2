import SelfDb.Selfconv.ClosureProofs
import SelfDb.Selfconv.RoundTrip

/-! Packing roots together: the rows about an object are those of packing it
alone, whatever the other roots and their order. -/
namespace SelfDb
open Registry

/-! What a database says about its objects. -/

/-- The rows of one object, without its id. -/
def ownedBy (id : Int) (rows : List (Owned α)) : List α :=
  (rows.filter (·.objectId = id)).map Owned.row

/-- What the database records about a path, apart from id and role. -/
def Closure.recorded (db : Closure) (path : String) : Option ObjectRecord :=
  (db.objects.rows.find? (·.path = path)).map fun row =>
    ⟨row.toObjectColumns.as false, ownedBy row.id db.needs, ownedBy row.id db.segments,
      ownedBy row.id db.symbols⟩

def ObjectRow.renumber (f : Int → Int) (row : ObjectRow) : ObjectRow := { row with id := f row.id }

def Owned.renumber (f : Int → Int) (owned : Owned α) : Owned α :=
  { owned with objectId := f owned.objectId }

/-- The same rows in some order, with other ids. -/
def Closure.SameUpToIds (db other : Closure) : Prop :=
  ∃ f : Int → Int, (∀ row ∈ db.objects.rows, ∀ row' ∈ db.objects.rows, f row.id = f row'.id →
    row.id = row'.id) ∧
    (db.objects.rows.map (ObjectRow.renumber f)).Perm other.objects.rows ∧
    (db.needs.map (Owned.renumber f)).Perm other.needs ∧
    (db.segments.map (Owned.renumber f)).Perm other.segments ∧
    (db.symbols.map (Owned.renumber f)).Perm other.symbols

theorem ownedBy_ownedRows {entries : List Packed} (found : entries[k]? = some entry)
    (rows : Packed → List β) :
    ownedBy (1 + k : Nat) ((ownedRows 1 rows entries).map fun p => ⟨p.1, p.2⟩) = rows entry := by
  rw [← filter_ownedRows 1 rows found, ownedBy, List.filter_map, List.map_map]
  simp only [Function.comp_def, Int.natCast_inj]

theorem Packs.recorded (packs : Packs entries state) (member : entry ∈ entries)
    (lib : entry.value.columns.as false = entry.value.columns) :
    state.db.recorded entry.key = some entry.value := by
  obtain ⟨k, found⟩ := List.getElem?_of_mem member
  have listed : Packed.objectRow entry (1 + k) ∈ state.db.objects.rows := by
    rw [packs.objects]
    refine List.mem_map.mpr ⟨(entry, 1 + k), ?_, rfl⟩
    rw [List.mem_zipIdx_iff_le_and_getElem?_sub, Nat.add_sub_cancel_left]
    exact ⟨Nat.le_add_right 1 k, found⟩
  have path : (Packed.objectRow entry (1 + k)).path = entry.key := packs.paths entry member
  have search : state.db.objects.rows.find? (·.path = entry.key) =
      some (Packed.objectRow entry (1 + k)) := by
    obtain ⟨row, first⟩ := Option.isSome_iff_exists.mp
      (List.find?_isSome.mpr ⟨_, listed, decide_eq_true path⟩ :
        (state.db.objects.rows.find? (·.path = entry.key)).isSome)
    have same : row.path = entry.key := by simpa using List.find?_some first
    rw [first, List.inj_on_of_nodup_map state.db.unique (List.mem_of_find?_eq_some first) listed
      (same.trans path.symm)]
  rw [Closure.recorded, search, Option.map_some, packs.needs, packs.segments, packs.symbols]
  have id : (Packed.objectRow entry (1 + k)).id = (1 + k : Nat) := rfl
  rw [id, ownedBy_ownedRows found, ownedBy_ownedRows found, ownedBy_ownedRows found]
  exact congrArg (fun columns => some (ObjectRecord.mk columns _ _ _)) lib

theorem Packs.sameUpToIds (packs : Packs entries state) (packs' : Packs others state')
    (perm : entries.Perm others) (distinct : entries.Nodup) : state.db.SameUpToIds state'.db := by
  obtain ⟨f, inj, renumbered⟩ := exists_renumbering perm distinct 1
  have owned : ∀ {β : Type} (rows : Packed → List β),
      (((ownedRows 1 rows entries).map fun p => (⟨p.1, p.2⟩ : Owned β)).map
        (Owned.renumber fun id => f id.toNat)).Perm
        ((ownedRows 1 rows others).map fun p => ⟨p.1, p.2⟩) := by
    intro β rows
    have moved := (ownedRows_perm renumbered rows).map fun p => (⟨p.1, p.2⟩ : Owned β)
    rw [List.map_map] at moved ⊢
    exact moved
  refine ⟨fun id => f id.toNat, ?_, ?_, ?_, ?_, ?_⟩
  · rw [packs.objects, List.forall_mem_map]
    intro p member
    rw [List.forall_mem_map]
    intro q member' same
    exact congrArg Int.ofNat (inj p member q member' (Int.natCast_inj.mp same))
  · have moved := renumbered.map fun e => Packed.objectRow e.1 e.2
    rw [packs.objects, packs'.objects]
    rw [List.map_map] at moved ⊢
    exact moved
  · rw [packs.needs, packs'.needs]
    exact owned _
  · rw [packs.segments, packs'.segments]
    exact owned _
  · rw [packs.symbols, packs'.symbols]
    exact owned _

/-! The whole of `build_closure`. -/

/-- A completed packing is the registry of its calls. -/
theorem buildClosure_packs (built : buildClosure host roots withSegments = .ok (db, stats)) :
    ∃ calls entries state, rootCalls host (roots.map host.realpath) = .ok calls ∧
      Registered (objectRecord host withSegments) calls entries ∧ Packs entries state ∧
        state.db = db := by
  simp only [buildClosure, bind_eq_ok_iff] at built
  obtain ⟨⟨skipped, state⟩, looped, result⟩ := built
  cases result
  obtain ⟨calls, entries, listed, visits, packs⟩ := rootLoop_visits packs_empty looped
  exact ⟨calls, entries, state, listed, (Registered.nil _).visits visits, packs, rfl⟩

theorem buildClosure_exists (listed : rootCalls host (roots.map host.realpath) = .ok calls)
    (recorded : ∀ call ∈ calls, ∃ record, objectRecord host withSegments call.1 = .ok record) :
    ∃ out, buildClosure host roots withSegments = .ok out := by
  obtain ⟨out, looped⟩ := rootLoop_exists packs_empty listed recorded []
  simp only [buildClosure, bind_eq_ok_iff]
  exact ⟨_, out, looped, rfl⟩

theorem member_iff (listed : rootCalls host (roots.map host.realpath) = .ok calls) (path : String) :
    Member host roots path ↔ ∃ flag, (path, flag) ∈ calls := by
  simp only [mem_rootCalls listed, Member, IsRoot]
  constructor
  · rintro ⟨root, ⟨wanted, elf⟩, rfl | listed⟩
    · exact ⟨true, path, wanted, elf, .inl rfl⟩
    · exact ⟨false, root, wanted, elf, .inr ⟨path, listed, rfl⟩⟩
  · rintro ⟨flag, root, wanted, elf, same | ⟨lib, listed, same⟩⟩
    · cases same
      exact ⟨path, ⟨wanted, elf⟩, .inl rfl⟩
    · cases same
      exact ⟨root, ⟨wanted, elf⟩, .inr listed⟩

theorem isRoot_iff (listed : rootCalls host (roots.map host.realpath) = .ok calls) (path : String) :
    IsRoot host roots path ↔ (path, true) ∈ calls := by
  simp only [mem_rootCalls listed, IsRoot]
  constructor
  · rintro ⟨wanted, elf⟩
    exact ⟨path, wanted, elf, .inl rfl⟩
  · rintro ⟨root, wanted, elf, same | ⟨_, _, same⟩⟩
    · cases same
      exact ⟨wanted, elf⟩
    · cases same

theorem objectRecord_lib (recorded : objectRecord host withSegments path = .ok record) :
    record.columns.as false = record.columns := by
  simp only [objectRecord, bind_eq_ok_iff] at recorded
  obtain ⟨_, _, ⟨_, _⟩, _, _, _, _, _, _, _, _, _, _, _, _, _, result⟩ := recorded
  cases result
  rfl

/-- Only an ELF file can be recorded. -/
theorem objectRecord_isElf (recorded : objectRecord host withSegments path = .ok record) :
    isElf host path = true := by
  simp only [objectRecord, bind_eq_ok_iff] at recorded
  obtain ⟨data, read, _, parsed, _⟩ := recorded
  simp only [parseImage, bind_eq_ok_iff, Py.raiseIf_eq_ok_iff, not_not] at parsed
  obtain ⟨_, magic, _⟩ := parsed
  rw [isElf]
  cases file : host.files path with
  | none =>
    rw [file] at read
    cases read
  | some bytes =>
    rw [file] at read
    cases read
    exact decide_eq_true magic

/-- `os.path.realpath` yields canonical paths. -/
def Host.Canonical (host : Host) : Prop :=
  ∀ path, host.realpath (host.realpath path) = host.realpath path

theorem Dict.mem_values_insert {dict : Dict β} {key : String} {new : β}
    (member : value ∈ Dict.values (dict.insert key new)) : value = new ∨ value ∈ dict.values := by
  rw [Dict.values, AList.entries_insert, List.map_cons, List.mem_cons] at member
  refine member.imp_right fun kept => ?_
  exact ((List.kerase_sublist key dict.entries).map Sigma.snd).subset kept

theorem lddLine_realpath (parsed : lddLine host line = some (soname, path)) :
    ∃ source, path = host.realpath source := by
  rw [lddLine] at parsed
  split at parsed
  · cases parsed
  · dsimp only at parsed
    split at parsed
    · cases parsed
      exact ⟨_, rfl⟩
    · cases parsed

/-- What `ldd` resolves to is a real path. -/
theorem LddLists.realpath (listed : LddLists host object path) :
    ∃ source, path = host.realpath source := by
  obtain ⟨dict, resolved, member⟩ := listed
  rw [lddMap] at resolved
  obtain ⟨lines, _, rfl⟩ := map_eq_ok_iff.mp resolved
  have each : ∀ (lines : List String) (dict : Dict String),
      (∀ value ∈ dict.values, ∃ source, value = host.realpath source) →
        ∀ value ∈ (lines.foldl (addLine host) dict).values, ∃ source, value =
          host.realpath source := by
    intro lines
    induction lines with
    | nil => exact fun _ known => known
    | cons line rest ih =>
      intro dict known
      refine ih _ fun value member => ?_
      rw [addLine] at member
      split at member
      · rename_i soname path parsed
        rcases Dict.mem_values_insert member with rfl | before
        · exact lddLine_realpath parsed
        · exact known value before
      · exact known value member
  exact each lines ∅ (fun _ none => nomatch none) path member

theorem Member.canonical (canonical : host.Canonical) (member : Member host roots path) :
    host.realpath path = path := by
  obtain ⟨root, ⟨wanted, _⟩, rfl | listed⟩ := member
  · obtain ⟨source, _, rfl⟩ := List.mem_map.mp wanted
    exact canonical source
  · obtain ⟨source, rfl⟩ := listed.realpath
    exact canonical source

theorem Packs.exists_entry (packs : Packs entries state) (member : row ∈ state.db.objects.rows) :
    ∃ entry ∈ entries, ∃ id : Nat, row = Packed.objectRow entry id ∧ row.path = entry.key := by
  rw [packs.objects] at member
  obtain ⟨e, numbered, rfl⟩ := List.mem_map.mp member
  have listed := List.fst_mem_of_mem_zipIdx numbered
  exact ⟨e.1, listed, e.2, rfl, packs.paths e.1 listed⟩

/-- Every row belongs to an object. -/
theorem Packs.exists_owner (packs : Packs entries state) (rows : Packed → List β) :
    ∀ owned ∈ (ownedRows 1 rows entries).map fun p => (⟨p.1, p.2⟩ : Owned β),
      ∃ row ∈ state.db.objects.rows, row.id = owned.objectId := by
  rw [List.forall_mem_map, packs.objects]
  intro p member
  obtain ⟨e, numbered, owner⟩ := ownedRows_owner 1 rows entries p member
  exact ⟨Packed.objectRow e.1 e.2, List.mem_map_of_mem numbered, congrArg Int.ofNat owner⟩

/-- The rows of a path are those of its record. -/
theorem buildClosure_recorded (built : buildClosure host roots withSegments = .ok (db, stats))
    (member : Member host roots path) :
    ∃ record, objectRecord host withSegments path = .ok record ∧
      db.recorded path = some record := by
  obtain ⟨calls, entries, state, listed, registered, packs, rfl⟩ := buildClosure_packs built
  obtain ⟨entry, found, rfl⟩ := List.mem_map.mp
    ((registered.visited path).mpr ((member_iff listed path).mp member))
  have recorded := registered.values entry found
  exact ⟨entry.value, recorded, packs.recorded found (objectRecord_lib recorded)⟩

/-- Packing other roots with the same set of paths completes, with the same rows. -/
theorem buildClosure_same (built : buildClosure host roots withSegments = .ok (db, stats))
    (same : ∀ root, root ∈ roots' ↔ root ∈ roots) :
    ∃ db' stats', buildClosure host roots' withSegments = .ok (db', stats') ∧
      db.SameUpToIds db' := by
  obtain ⟨calls, entries, state, listed, registered, packs, rfl⟩ := buildClosure_packs built
  have wanted : ∀ root, root ∈ roots'.map host.realpath ↔ root ∈ roots.map host.realpath := by
    simp only [List.mem_map, same, implies_true]
  obtain ⟨calls', listed'⟩ := rootCalls_exists fun root member =>
    rootCalls_resolved listed root ((wanted root).mp member)
  have equal : ∀ call, call ∈ calls ↔ call ∈ calls' := by
    intro call
    simp only [mem_rootCalls listed, mem_rootCalls listed', wanted]
  obtain ⟨⟨db', stats'⟩, built'⟩ := buildClosure_exists listed' fun call member =>
    registered.made call ((equal call).mpr member)
  obtain ⟨calls'', entries', state', again, registered', packs', rfl⟩ := buildClosure_packs built'
  cases listed'.symm.trans again
  exact ⟨_, stats', built', packs.sameUpToIds packs' (registered.perm registered' equal)
    (.of_map _ registered.distinct)⟩

/-- What a completed packing of some roots says. -/
structure PacksUnion (host : Host) (roots : List String) (withSegments : Bool)
    (db : Closure) : Prop where
  once : (db.objects.rows.map (·.path)).Nodup
  members : ∀ path, path ∈ db.objects.rows.map (·.path) ↔ Member host roots path
  roles : ∀ row ∈ db.objects.rows,
    (row.isRoot = 1 ↔ IsRoot host roots row.path) ∧ (row.kind = .exe ↔ IsRoot host roots row.path)
  /-- An object has one record, which is also that of packing it alone. -/
  records : ∀ path, Member host roots path →
    ∃ record, objectRecord host withSegments path = .ok record ∧
    db.recorded path = some record ∧ ∀ alone stats, buildClosure host [path] withSegments =
      .ok (alone, stats) →
      alone.recorded path = some record
  owners : (∀ n ∈ db.needs, ∃ row ∈ db.objects.rows, row.id = n.objectId) ∧
    (∀ s ∈ db.segments, ∃ row ∈ db.objects.rows, row.id = s.objectId) ∧
    ∀ s ∈ db.symbols, ∃ row ∈ db.objects.rows, row.id = s.objectId
  /-- Neither the order of the roots nor repetitions matter. -/
  order : ∀ roots', (∀ root, root ∈ roots' ↔ root ∈ roots) →
    ∃ db' stats, buildClosure host roots' withSegments = .ok (db', stats) ∧ db.SameUpToIds db'

theorem buildClosure_union {host : Host} (canonical : host.Canonical)
    (built : buildClosure host roots withSegments = .ok (db, stats)) :
    PacksUnion host roots withSegments db := by
  obtain ⟨calls, entries, state, listed, registered, packs, rfl⟩ := buildClosure_packs built
  refine ⟨state.db.unique, fun path => ?_, fun row member => ?_, fun path member => ?_,
    ⟨?_, ?_, ?_⟩, fun roots' same => buildClosure_same built same⟩
  · rw [packs.path_eq, registered.visited, member_iff listed]
  · obtain ⟨entry, found, id, rfl, path⟩ := packs.exists_entry member
    rw [path, isRoot_iff listed, ← registered.flags entry found]
    cases flag : entry.flag <;> simp [Packed.objectRow, ObjectColumns.as, flag]
  · obtain ⟨record, recorded, found⟩ := buildClosure_recorded built member
    refine ⟨record, recorded, found, fun alone stats packed => ?_⟩
    have itself : Member host [path] path := by
      refine ⟨path, ⟨?_, objectRecord_isElf recorded⟩, .inl rfl⟩
      rw [List.map_singleton, member.canonical canonical]
      exact List.mem_singleton_self path
    obtain ⟨record', recorded', found'⟩ := buildClosure_recorded packed itself
    cases recorded.symm.trans recorded'
    exact found'
  · rw [packs.needs]
    exact packs.exists_owner _
  · rw [packs.segments]
    exact packs.exists_owner _
  · rw [packs.symbols]
    exact packs.exists_owner _

/-! Two providers of one soname: `ldd` of the program and of its library differ. -/

def needing (libraries : List String) : LiefBinary := ⟨libraries, [], [], [], [], [], []⟩

def twoProviders : Host where
  files _ := some mappedFile
  pathExists _ := true
  realpath path := path
  ldd path := .ok (
    if path = "/app" then ["\tliba.so => /a.so (0x10000)", "\tlibb.so => /b1.so (0x20000)"]
    else if path = "/a.so" then ["\tlibb.so => /b2.so (0x20000)"]
    else [])
  lief path := some (
    if path = "/app" then needing ["liba.so"]
    else if path = "/a.so" then needing ["libb.so"]
    else needing [])

theorem twoProviders_packed : ∃ out,
    buildClosure twoProviders ["/app", "/a.so", "/app"] true = .ok out ∧
    out.1.objects.rows.map (·.path) = ["/app", "/a.so", "/b1.so", "/b2.so"] :=
  exists_of_map_decide (by decide +kernel)

theorem buildClosure_union_twoProviders :
    ∃ db stats, buildClosure twoProviders ["/app", "/a.so", "/app"] true = .ok (db, stats) ∧
      PacksUnion twoProviders ["/app", "/a.so", "/app"] true db := by
  obtain ⟨⟨db, stats⟩, built, _⟩ := twoProviders_packed
  exact ⟨db, stats, built, buildClosure_union (fun _ => rfl) built⟩

end SelfDb
