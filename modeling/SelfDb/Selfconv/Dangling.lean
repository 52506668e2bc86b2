import SelfDb.Selfconv.Union

/-! The edges of a closure database. An edge names what `ldd` says about its own
object, and the members are what `ldd` says about the roots. -/
namespace SelfDb
open Registry

/-- Every resolved edge ends at an object. -/
def Closure.Closed (db : Closure) : Prop :=
  ∀ n ∈ db.needs, ∀ path, n.row.resolvedPath = some path → path ∈ db.objects.rows.map (·.path)

/-- `needs n JOIN objects o ON n.resolved_path = o.path`. -/
def Closure.joined (db : Closure) : List (Owned NeedsEntry × ObjectRow) :=
  db.needs.flatMap fun n => (db.objects.rows.filter (n.row.resolvedPath = some ·.path)).map
    (Prod.mk n)

/-- The join loses no resolved edge. -/
def Closure.JoinsAll (db : Closure) : Prop :=
  ∀ n ∈ db.needs, n.row.resolvedPath.isSome → n ∈ db.joined.map Prod.fst

theorem Closure.closed_iff_joinsAll (db : Closure) : db.Closed ↔ db.JoinsAll := by
  refine forall₂_congr fun n member => ?_
  simp only [joined, Option.isSome_iff_exists, List.mem_map, List.mem_flatMap, List.mem_filter,
    decide_eq_true_eq, forall_exists_index]
  refine forall₂_congr fun path resolved => ?_
  constructor
  · rintro ⟨row, listed, rfl⟩
    exact ⟨(n, row), ⟨n, member, row, ⟨listed, resolved⟩, rfl⟩, rfl⟩
  · rintro ⟨_, ⟨other, _, row, ⟨listed, same⟩, rfl⟩, rfl⟩
    exact ⟨row, listed, Option.some.inj (same.symm.trans resolved)⟩

/-- `ldd` of the object resolves one of its NEEDED names to the path. -/
def Edge (host : Host) (object path : String) : Prop :=
  ∃ b resolved, host.lief object = some b ∧ lddMap host object = .ok resolved ∧
    ∃ soname ∈ b.libraries, resolved.lookup soname = some path

/-- What a packed library resolves for itself is a member too. -/
def LibrariesAgree (host : Host) (roots : List String) : Prop :=
  ∀ lib, Member host roots lib → ¬ IsRoot host roots lib → ∀ path, Edge host lib path →
    Member host roots path

theorem objectRecord_needs (recorded : objectRecord host withSegments object = .ok record)
    (path : String) :
    (∃ n ∈ record.needs, n.resolvedPath = some path) ↔ Edge host object path := by
  simp only [objectRecord, bind_eq_ok_iff] at recorded
  obtain ⟨_, _, ⟨_, _⟩, _, b, lief, _, _, _, _, resolved, ldd, _, _, _, _, result⟩ := recorded
  cases result
  have parsed := (orRaise_eq_ok_iff _ _ _).mp lief
  have libs : (∃ n ∈ needsEntries resolved b.libraries, n.resolvedPath = some path) ↔
      ∃ soname ∈ b.libraries, resolved.lookup soname = some path := by
    simp only [needsEntries, List.mem_map]
    constructor
    · rintro ⟨_, ⟨lib, member, rfl⟩, found⟩
      exact ⟨lib.1, List.fst_mem_of_mem_zipIdx member, found⟩
    · rintro ⟨soname, member, found⟩
      obtain ⟨ord, at_⟩ := List.getElem?_of_mem member
      exact ⟨_, ⟨(soname, ord), List.mem_zipIdx_iff_getElem?.mpr at_, rfl⟩, found⟩
  rw [libs]
  constructor
  · exact fun found => ⟨b, resolved, parsed, ldd, found⟩
  · rintro ⟨b', resolved', parsed', ldd', found⟩
    cases parsed.symm.trans parsed'
    cases ldd.symm.trans ldd'
    exact found

theorem Packs.mem_needs (packs : Packs entries state) (edge : NeedsEntry) :
    (∃ n ∈ state.db.needs, n.row = edge) ↔ ∃ entry ∈ entries, edge ∈ entry.value.needs := by
  rw [packs.needs]
  simp only [ownedRows, List.mem_map, List.mem_flatMap]
  constructor
  · rintro ⟨_, ⟨_, ⟨e, numbered, _, member, rfl⟩, rfl⟩, rfl⟩
    exact ⟨e.1, List.fst_mem_of_mem_zipIdx numbered, member⟩
  · rintro ⟨entry, listed, member⟩
    obtain ⟨k, found⟩ := List.getElem?_of_mem listed
    refine ⟨⟨(1 + k : Nat), edge⟩, ⟨(1 + k, edge), ⟨(entry, 1 + k), ?_, edge, member, rfl⟩, rfl⟩,
      rfl⟩
    rw [List.mem_zipIdx_iff_le_and_getElem?_sub, Nat.add_sub_cancel_left]
    exact ⟨Nat.le_add_right 1 k, found⟩

/-- An edge of a root is to a member: both come from `ldd` of the root. -/
theorem Edge.member (root : IsRoot host roots object) (edge : Edge host object path) :
    Member host roots path := by
  obtain ⟨_, resolved, _, ldd, soname, _, found⟩ := edge
  have entry := AList.mem_lookup_iff.mp found
  exact ⟨object, root, .inr ⟨resolved, ldd, List.mem_map.mpr ⟨_, entry, rfl⟩⟩⟩

/-- The stored paths are those of the members, and the stored edges theirs. -/
theorem buildClosure_edges (built : buildClosure host roots withSegments = .ok (db, stats)) :
    (∀ path, path ∈ db.objects.rows.map (·.path) ↔ Member host roots path) ∧
    ∀ path, (∃ n ∈ db.needs, n.row.resolvedPath = some path) ↔
      ∃ object, Member host roots object ∧ Edge host object path := by
  obtain ⟨calls, entries, state, listed, registered, packs, rfl⟩ := buildClosure_packs built
  constructor
  · intro path
    rw [packs.path_eq, registered.visited, member_iff listed]
  · intro path
    constructor
    · rintro ⟨n, stored, resolved⟩
      obtain ⟨entry, member, edge⟩ := (packs.mem_needs n.row).mp ⟨n, stored, rfl⟩
      refine ⟨entry.key, (member_iff listed _).mpr
        ((registered.visited _).mp (List.mem_map_of_mem member)), ?_⟩
      exact (objectRecord_needs (registered.values entry member) path).mp ⟨n.row, edge, resolved⟩
    · rintro ⟨object, member, edge⟩
      obtain ⟨entry, found, rfl⟩ :=
        List.mem_map.mp ((registered.visited object).mpr ((member_iff listed object).mp member))
      obtain ⟨row, recorded, resolved⟩ :=
        (objectRecord_needs (registered.values entry found) path).mpr edge
      obtain ⟨n, stored, rfl⟩ := (packs.mem_needs row).mpr ⟨entry, found, recorded⟩
      exact ⟨n, stored, resolved⟩

/-- All edges end at objects, and a join keeps them, exactly when the libraries
agree with the roots. -/
theorem buildClosure_closed_iff (built : buildClosure host roots withSegments = .ok (db, stats)) :
    (db.Closed ↔ LibrariesAgree host roots) ∧ (db.JoinsAll ↔ LibrariesAgree host roots) := by
  rw [← db.closed_iff_joinsAll, and_self]
  obtain ⟨paths, edges⟩ := buildClosure_edges built
  constructor
  · intro closed lib member _ path edge
    obtain ⟨n, stored, resolved⟩ := (edges path).mpr ⟨lib, member, edge⟩
    exact (paths path).mp (closed n stored path resolved)
  · intro agree n stored path resolved
    obtain ⟨object, member, edge⟩ := (edges path).mp ⟨n, stored, resolved⟩
    rw [paths]
    by_cases root : IsRoot host roots object
    · exact edge.member root
    · exact agree object member root path edge

theorem buildClosure_closed_iff_twoProviders :
    ∃ db stats, buildClosure twoProviders ["/app", "/a.so"] true = .ok (db, stats) ∧
      (db.Closed ↔ LibrariesAgree twoProviders ["/app", "/a.so"]) ∧
      (db.JoinsAll ↔ LibrariesAgree twoProviders ["/app", "/a.so"]) := by
  have ran : ∃ out, buildClosure twoProviders ["/app", "/a.so"] true = .ok out ∧
      out.2.objects = 4 :=
    exists_of_map_decide (by decide +kernel)
  obtain ⟨⟨db, stats⟩, built, _⟩ := ran
  exact ⟨db, stats, built, buildClosure_closed_iff built⟩

/-- The library needs the provider that `ldd` of the program does not list. -/
theorem buildClosure_dangling :
    ∃ db stats, buildClosure twoProviders ["/app"] true = .ok (db, stats) ∧ ¬ db.Closed := by
  have ran : ∃ out, buildClosure twoProviders ["/app"] true = .ok out ∧
      (∃ n ∈ out.1.needs, n.row.resolvedPath = some "/b2.so") ∧
        "/b2.so" ∉ out.1.objects.rows.map (·.path) :=
    exists_of_map_decide (by decide +kernel)
  obtain ⟨⟨db, stats⟩, built, ⟨n, stored, resolved⟩, absent⟩ := ran
  exact ⟨db, stats, built, fun closed => absent (closed n stored "/b2.so" resolved)⟩

end SelfDb
