import SelfDb.Paging.Layers
import SelfDb.Selfconv.Scan

/-! What a resolver database holds after a history of scans: the last recognition of
each path. Nothing deletes a row. -/
namespace SelfDb
open Isolation Paging

def ProviderRow.info (row : ProviderRow) : Sniffed :=
  ⟨row.kind, row.soname, row.machine, row.buildId⟩

namespace ResolverDb

def rowAt (rdb : ResolverDb) (path : String) : Option ProviderRow :=
  rdb.objects.rows.find? (·.path = path)

def infoAt (rdb : ResolverDb) (path : String) : Option Sniffed :=
  (rdb.rowAt path).map ProviderRow.info

theorem rowAt_eq_some_iff (rdb : ResolverDb) (path : String) (row : ProviderRow) :
    rdb.rowAt path = some row ↔ row ∈ rdb.objects.rows ∧ row.path = path := by
  constructor
  · intro found
    exact ⟨List.mem_of_find?_eq_some found, by simpa using List.find?_some found⟩
  · rintro ⟨member, rfl⟩
    obtain ⟨first, found⟩ : ∃ first, rdb.rowAt row.path = some first :=
      Option.isSome_iff_exists.mp (List.find?_isSome.mpr ⟨row, member, decide_eq_true rfl⟩)
    have same : first.path = row.path := by simpa using List.find?_some found
    rw [found, rdb.eq_of_path (List.mem_of_find?_eq_some found) member same]

theorem mem_iff_rowAt (rdb : ResolverDb) (row : ProviderRow) :
    row ∈ rdb.objects.rows ↔ rdb.rowAt row.path = some row := by
  rw [rowAt_eq_some_iff, and_iff_left rfl]

theorem find_updateRow (rows : List ProviderRow) (path : String) (info : Sniffed) (asked : String) :
    (rows.map (updateRow path info)).find? (·.path = asked) =
      (rows.find? (·.path = asked)).map (updateRow path info) := by
  simp only [List.find?_map, Function.comp_def, updateRow_path]

theorem rowAt_upsert_of_ne (rdb : ResolverDb) (info : Sniffed) (other : path ≠ asked) :
    (rdb.upsert path info).rowAt asked = rdb.rowAt asked := by
  rw [upsert]
  split
  · have kept : (rdb.rowAt asked).map (updateRow path info) = (rdb.rowAt asked).map id := by
      refine Option.map_congr fun row found => ?_
      have named := ((rdb.rowAt_eq_some_iff asked row).mp found).2
      rw [updateRow, if_neg fun same => other (same.symm.trans named), id]
    rw [Option.map_id, id] at kept
    exact (find_updateRow _ _ _ _).trans kept
  · simp [rowAt, Table.insert, List.find?_append, other]

theorem infoAt_upsert_self (rdb : ResolverDb) (path : String) (info : Sniffed) :
    (rdb.upsert path info).infoAt path = some info := by
  rw [upsert]
  split
  · rename_i known
    obtain ⟨row, member, rfl⟩ := List.mem_map.mp known
    have updated := (find_updateRow rdb.objects.rows row.path info row.path).trans
      (congrArg _ ((rdb.mem_iff_rowAt row).mp member))
    have written : (updateRow row.path info row).info = info := by
      rw [updateRow, if_pos rfl]
      rfl
    exact (congrArg (Option.map ProviderRow.info) updated).trans (congrArg some written)
  · rename_i new
    have missing : rdb.objects.rows.find? (·.path = path) = none := by
      refine List.find?_eq_none.mpr fun row member same => new (List.mem_map.mpr ⟨row, member, ?_⟩)
      exact of_decide_eq_true same
    simp [infoAt, rowAt, Table.insert, List.find?_append, missing, ProviderRow.info]

end ResolverDb

namespace Scan

/-- `_sniff` recognises the file, whose absolute path is given. -/
def Recognises (scan : Scan) (file path : String) (info : Sniffed) : Prop :=
  Py.abspath scan.disk.cwd file = path ∧ sniff scan.disk file = .ok (some info)

/-- The last file of the scan that is recognised under the path. -/
def Latest (scan : Scan) (path : String) (info : Sniffed) : Prop :=
  ∃ earlier file later, scan.entries = earlier ++ file :: later ∧ scan.Recognises file path info ∧
    ∀ other ∈ later, ∀ info', ¬ scan.Recognises other path info'

/-- What the loop writes for one file. -/
def patch (scan : Scan) (file path : String) : Option Sniffed :=
  if Py.abspath scan.disk.cwd file = path then (sniff scan.disk file).toOption.join else none

/-- What the whole scan writes. -/
def current (scan : Scan) (path : String) : Option Sniffed :=
  lastAt (scan.entries.map scan.patch) path

theorem patch_eq_some_iff (scan : Scan) (file path : String) (info : Sniffed) :
    scan.patch file path = some info ↔ scan.Recognises file path info := by
  rw [patch, Recognises, Option.ite_none_right_eq_some]
  refine and_congr_right fun _ => ?_
  cases answer : sniff scan.disk file with
  | error e => simp [Except.toOption]
  | ok found => simp [Except.toOption]

theorem patch_eq_none_iff (scan : Scan) (file path : String) :
    scan.patch file path = none ↔ ∀ info, ¬ scan.Recognises file path info := by
  simp only [Option.eq_none_iff_forall_ne_some, ne_eq, patch_eq_some_iff]

theorem current_eq_some_iff (scan : Scan) (path : String) (info : Sniffed) :
    scan.current path = some info ↔ scan.Latest path info := by
  rw [current, lastAt_eq_some_iff]
  constructor
  · rintro ⟨_, _, _, split, reaches, last⟩
    obtain ⟨earlier, rest, whole, rfl, tail⟩ := List.map_eq_append_iff.mp split
    obtain ⟨file, later, rfl, rfl, rfl⟩ := List.map_eq_cons_iff.mp tail
    rw [List.forall_mem_map] at last
    exact ⟨earlier, file, later, whole, (scan.patch_eq_some_iff file path info).mp reaches,
      fun other member => (scan.patch_eq_none_iff other path).mp (last other member)⟩
  · rintro ⟨earlier, file, later, whole, recognised, last⟩
    refine ⟨earlier.map scan.patch, scan.patch file, later.map scan.patch,
      by rw [whole, List.map_append, List.map_cons],
      (scan.patch_eq_some_iff file path info).mpr recognised, ?_⟩
    exact List.forall_mem_map.mpr fun other member =>
      (scan.patch_eq_none_iff other path).mpr (last other member)

theorem current_eq_none_iff (scan : Scan) (path : String) :
    scan.current path = none ↔ ∀ file ∈ scan.entries, ∀ info, ¬ scan.Recognises file path info := by
  simp only [current, lastAt_eq_none_iff, List.forall_mem_map, patch_eq_none_iff]

/-- One file writes at its path, if it is recognised, and nowhere else. -/
theorem record_cases (scan : Scan) (state : ResolverDb × Nat) (file : String) :
    (∃ info, scan.Recognises file (Py.abspath scan.disk.cwd file) info ∧
      (scan.record state file).1 = state.1.upsert (Py.abspath scan.disk.cwd file) info) ∨
    (∀ path, scan.patch file path = none) ∧ scan.record state file = state := by
  rw [record]
  split
  · rename_i info sniffed
    exact .inl ⟨info, ⟨rfl, sniffed⟩, rfl⟩
  · rename_i other
    refine .inr ⟨fun path => ?_, rfl⟩
    exact (scan.patch_eq_none_iff file path).mpr fun info recognised => other info recognised.2

theorem infoAt_record (scan : Scan) (state : ResolverDb × Nat) (file path : String) :
    (scan.record state file).1.infoAt path = (scan.patch file path).or (state.1.infoAt path) := by
  rcases scan.record_cases state file with ⟨info, recognised, written⟩ | ⟨none, same⟩
  · rw [written]
    by_cases here : Py.abspath scan.disk.cwd file = path
    · subst here
      rw [ResolverDb.infoAt_upsert_self, (scan.patch_eq_some_iff file _ info).mpr recognised,
        Option.some_or]
    · rw [ResolverDb.infoAt, ResolverDb.rowAt_upsert_of_ne _ _ here, patch, if_neg here,
        Option.none_or]
      rfl
  · rw [same, none, Option.none_or]

theorem rowAt_record (scan : Scan) (state : ResolverDb × Nat) (none : scan.patch file path = none) :
    (scan.record state file).1.rowAt path = state.1.rowAt path := by
  rcases scan.record_cases state file with ⟨info, recognised, written⟩ | ⟨_, same⟩
  · rw [written]
    refine ResolverDb.rowAt_upsert_of_ne _ _ fun here => ?_
    exact (scan.patch_eq_none_iff file path).mp none info (here ▸ recognised)
  · rw [same]

/-- The rows once the loops are done. -/
def recorded (scan : Scan) (rdb : ResolverDb) : ResolverDb :=
  (scan.entries.foldl scan.record (rdb, 0)).1

theorem infoAt_recorded (scan : Scan) (rdb : ResolverDb) (path : String) :
    (scan.recorded rdb).infoAt path = (scan.current path).or (rdb.infoAt path) :=
  @lastAt_foldl _ _ (ResolverDb × Nat) _ (fun state => state.1.infoAt) _ _ scan.infoAt_record
    scan.entries (rdb, 0) path

theorem rowAt_recorded (scan : Scan) (rdb : ResolverDb) (path : String)
    (missed : ∀ file ∈ scan.entries, ∀ info, ¬ scan.Recognises file path info) :
    (scan.recorded rdb).rowAt path = rdb.rowAt path := by
  have loop : ∀ (files : List String) (state : ResolverDb × Nat),
      (∀ file ∈ files, scan.patch file path = none) →
      (files.foldl scan.record state).1.rowAt path = state.1.rowAt path := by
    intro files
    induction files with
    | nil => exact fun _ _ => rfl
    | cons file rest ih =>
      intro state unpatched
      rw [List.forall_mem_cons] at unpatched
      exact (ih _ unpatched.2).trans (scan.rowAt_record state unpatched.1)
  exact loop scan.entries (rdb, 0) fun file member =>
    (scan.patch_eq_none_iff file path).mpr (missed file member)

theorem cmdScan_of_returned {scan : Scan} (completes : Returned scan.commit) (rdb : ResolverDb) :
    ((cmdScan scan).run.run rdb).2 = scan.recorded rdb := by
  obtain ⟨disk, paths, commit, close⟩ := scan
  obtain ⟨u, rfl⟩ := completes
  cases close <;> rfl

/-- A scan that raises before its commit is done leaves the database alone. -/
theorem cmdScan_of_raised {scan : Scan} (raised : Raised scan.commit) (rdb : ResolverDb) :
    ((cmdScan scan).run.run rdb).2 = rdb := by
  obtain ⟨disk, paths, commit, close⟩ := scan
  obtain ⟨e, rfl⟩ := raised
  rfl

/-- What a scan leaves in the database. -/
def committed (scan : Scan) (path : String) : Option Sniffed :=
  match scan.commit with
  | .ok _ => scan.current path
  | .error _ => none

/-- A path has the values of the last scan that recognised it. -/
theorem infoAt_scans (rdb : ResolverDb) (history : List Scan) (path : String) :
    (scans rdb history).infoAt path = (lastAt (history.map committed) path).or
    (rdb.infoAt path) := by
  refine lastAt_foldl (fun rdb scan path => ?_) history rdb path
  rw [committed]
  cases outcome : scan.commit with
  | ok u => rw [cmdScan_of_returned ⟨u, outcome⟩, infoAt_recorded]
  | error e => rw [cmdScan_of_raised ⟨e, outcome⟩, Option.none_or]

/-- Each recognised file has one row, with the values of the last file of its path.
Every other row is as it was. -/
structure Upserts (scan : Scan) (before after : ResolverDb) : Prop where
  files : ∀ file ∈ scan.entries, ∀ path info, scan.Recognises file path info →
    ∃ row ∈ after.objects.rows,
    row.path = path ∧ scan.Latest path row.info ∧ ∀ other ∈ after.objects.rows, other.path = path →
      other = row
  others : ∀ row : ProviderRow, (∀ file ∈ scan.entries, ∀ info,
    ¬ scan.Recognises file row.path info) →
    (row ∈ after.objects.rows ↔ row ∈ before.objects.rows)

theorem recorded_upserts (scan : Scan) (rdb : ResolverDb) :
    scan.Upserts rdb (scan.recorded rdb) where
  files file member path info recognised := by
    have written : scan.current path ≠ none := fun none =>
      (scan.current_eq_none_iff path).mp none file member info recognised
    obtain ⟨latest, current⟩ := Option.ne_none_iff_exists'.mp written
    have found := scan.infoAt_recorded rdb path
    rw [current, Option.some_or, ResolverDb.infoAt, Option.map_eq_some_iff] at found
    obtain ⟨row, at_, rfl⟩ := found
    obtain ⟨stored, named⟩ := (ResolverDb.rowAt_eq_some_iff _ path row).mp at_
    exact ⟨row, stored, named, (scan.current_eq_some_iff path row.info).mp current,
      fun other also same => ResolverDb.eq_of_path _ also stored (same.trans named.symm)⟩
  others row missed := by
    rw [ResolverDb.mem_iff_rowAt, ResolverDb.mem_iff_rowAt, scan.rowAt_recorded rdb row.path missed]

/-- After any history of scans, a scan records the files under its roots and leaves the
other rows, which are those of the last scan that recognised their path. A scan that
raises changes nothing. -/
theorem scans_upsert (rdb : ResolverDb) (history : List Scan) (scan : Scan) :
    (Returned scan.commit → scan.Upserts (scans rdb history) (scans rdb (history ++ [scan]))) ∧
    (Raised scan.commit → scans rdb (history ++ [scan]) = scans rdb history) ∧
    ∀ path, (scans rdb history).infoAt path = (lastAt (history.map committed) path).or
      (rdb.infoAt path) := by
  have last : scans rdb (history ++ [scan]) = ((cmdScan scan).run.run (scans rdb history)).2 :=
    List.foldl_append ..
  rw [last]
  refine ⟨fun completes => ?_, fun raised => cmdScan_of_raised raised _, infoAt_scans rdb history⟩
  rw [cmdScan_of_returned completes]
  exact scan.recorded_upserts _

/-! A library that is replaced by one of another name. -/

/-- `/lib` with one ELF library. -/
def libraryDisk (path : String) : Disk where
  cwd := "/"
  isFile _ := false
  walk root := if root = "/lib" then [("/lib", [path])] else []
  head asked := if asked = Py.pathJoin "/lib" path then .ok elfMagic else .error .osError
  connect _ := .error .osError
  lief _ := .ok (some ⟨[⟨"TAG.SONAME", some "libf.so", none, none, 0⟩], emX86_64⟩)

def libraryScan (path : String) : Scan := ⟨libraryDisk path, ["/lib"], .ok (), .ok ()⟩

theorem scans_upsert_libraries :
    (libraryScan "new.so").Upserts (scans .empty [libraryScan "old.so"])
      (scans .empty ([libraryScan "old.so"] ++ [libraryScan "new.so"])) :=
  (scans_upsert .empty [libraryScan "old.so"] (libraryScan "new.so")).1 ⟨(), rfl⟩

/-- A path at or below a root. -/
def Under (scan : Scan) (path : String) : Prop :=
  ∃ root ∈ scan.paths, path = Py.abspath scan.disk.cwd root ∨
    ∃ rest : String, rest.toList.head? ≠ some '/' ∧
      path = Py.pathJoin (Py.abspath scan.disk.cwd root) rest

/-- The rows under the roots are those of the files that are recognised now. -/
structure Forgets (scan : Scan) (rdb : ResolverDb) : Prop where
  current : ∀ row ∈ rdb.objects.rows, scan.Under row.path →
    ∃ file ∈ scan.entries, scan.Recognises file row.path row.info
  files : ∀ file ∈ scan.entries, ∀ path info, scan.Recognises file path info →
    ∃ row ∈ rdb.objects.rows, row.path = path ∧ row.info = info

/-- The row of the file that is gone stays, and a lookup may be given it. -/
theorem scans_remember :
    ¬ (libraryScan "new.so").Forgets (scans .empty [libraryScan "old.so", libraryScan "new.so"]) ∧
    (scans .empty [libraryScan "old.so", libraryScan "new.so"]).LimitOne "libf.so" (·.path)
      (.cursor ["/lib/old.so"] .done) := by
  have rows : (scans .empty [libraryScan "old.so", libraryScan "new.so"]).objects.rows =
      [⟨1, "/lib/old.so", some "libf.so", some "x86_64", none, .elf⟩,
        ⟨2, "/lib/new.so", some "libf.so", some "x86_64", none, .elf⟩] := by decide +kernel
  constructor
  · intro forgets
    have member := List.mem_of_getElem? (congrArg (·[0]?) rows)
    have under : (libraryScan "new.so").Under "/lib/old.so" :=
      ⟨"/lib", List.mem_singleton_self _, .inr ⟨"old.so", by decide, by decide +kernel⟩⟩
    obtain ⟨file, listed, named, _⟩ := forgets.current _ member under
    have walked : (libraryScan "new.so").entries = ["/lib/new.so"] := by decide +kernel
    rw [walked, List.mem_singleton] at listed
    subst listed
    exact absurd named (by decide +kernel)
  · refine .inl ⟨⟨1, "/lib/old.so", some "libf.so", some "x86_64", none, .elf⟩, ?_, rfl⟩
    rw [ResolverDb.mem_named, rows]
    decide

end Scan

end SelfDb
