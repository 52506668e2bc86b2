import Mathlib.Data.List.MinMax
import Mathlib.Data.String.Basic
import Mathlib.Order.WithBot
import SelfDb.Loader.SelfLdProofs

/-! The resolver database that `self scan` fills, and the row that a lookup by
soname alone is given. -/
namespace SelfDb
open Paging

/-- `kind`: 'self', 'elf', or a text that no reader knows. -/
inductive ProviderKind where
  | self | elf | other
  deriving DecidableEq

/-- A row of `objects`. -/
structure ProviderRow where
  id : Int
  path : String
  soname : Option String
  machine : Option String
  buildId : Option String
  kind : ProviderKind
  deriving DecidableEq

structure ResolverDb where
  objects : Table ProviderRow ProviderRow.id
  uniquePaths : (objects.rows.map (·.path)).Nodup

namespace ResolverDb

/-- The row with that path; the column is UNIQUE. -/
theorem eq_of_path (rdb : ResolverDb) (first : a ∈ rdb.objects.rows) (second : b ∈ rdb.objects.rows)
    (same : a.path = b.path) : a = b := List.inj_on_of_nodup_map rdb.uniquePaths first second same

/-- The rows that `WHERE soname=?` selects. -/
def named (rdb : ResolverDb) (soname : String) : List ProviderRow :=
  rdb.objects.rows.filter (·.soname = some soname)

theorem mem_named (rdb : ResolverDb) (soname : String) (row : ProviderRow) :
    row ∈ rdb.named soname ↔ row ∈ rdb.objects.rows ∧ row.soname = some soname := by
  rw [named, List.mem_filter, decide_eq_true_eq]

/-- The answers to `SELECT ... WHERE soname=? LIMIT 1`. No order is asked for, so
each of the selected rows may be the one. -/
def LimitOne (rdb : ResolverDb) (soname : String) (columns : ProviderRow → α)
    (answer : Query α) : Prop :=
  (∃ row ∈ rdb.named soname, answer = .cursor [columns row] .done) ∨
    (rdb.named soname = [] ∧ answer = .cursor [] .done)

/-- The order of `idx_objects_soname` within one soname: NULL before the texts,
and rows of one machine as they are stored. -/
def indexKey (row : ProviderRow) : WithBot String := row.machine

/-- The row that a scan of the index reaches first. -/
def firstIndexed (rdb : ResolverDb) (soname : String) : Option ProviderRow :=
  (rdb.named soname).argmin indexKey

theorem firstIndexed_limitOne (rdb : ResolverDb) (soname : String) (columns : ProviderRow → α) :
    rdb.LimitOne soname columns (.cursor ((rdb.firstIndexed soname).map columns).toList .done) := by
  cases first : rdb.firstIndexed soname with
  | none => exact .inr ⟨List.argmin_eq_none.mp first, rfl⟩
  | some row => exact .inl ⟨row, List.argmin_mem first, rfl⟩

/-- A given row may be the answer, beside legal answers for the other sonames. -/
theorem exists_limitOne (rdb : ResolverDb) (columns : ProviderRow → α)
    (member : row ∈ rdb.named soname) :
    ∃ answers : String → Query α, (∀ other, rdb.LimitOne other columns (answers other)) ∧
      answers soname = .cursor [columns row] .done := by
  refine ⟨Function.update
    (fun other => .cursor ((rdb.firstIndexed other).map columns).toList .done) soname
    (.cursor [columns row] .done), fun other => ?_, Function.update_self _ _ _⟩
  by_cases asked : other = soname
  · subst asked
    rw [Function.update_self]
    exact .inl ⟨row, member, rfl⟩
  · rw [Function.update_of_ne asked]
    exact rdb.firstIndexed_limitOne other columns

end ResolverDb

/-! `run_selfld` -/

/-- The lookups of a run are answered from this database. -/
def World.Consults (world : World) (rdb : ResolverDb) : Prop :=
  ∃ resolver, world.resolver = some resolver ∧
    ∀ soname, rdb.LimitOne soname (·.path) (resolver.objectPath soname)

/-- What a run for `machine` can map for the soname. -/
def ProviderRow.Usable (soname machine : String) (row : ProviderRow) : Prop :=
  row.soname = some soname ∧ row.machine = some machine ∧ row.kind = .self

instance (soname machine : String) (row : ProviderRow) : Decidable (row.Usable soname machine) :=
  inferInstanceAs (Decidable (_ ∧ _))

/-- When the NEEDED loop comes to the soname, it maps the object at the path. -/
def World.MapsNeeded (world : World) (soname path : String) : Prop :=
  ∀ rest libs state, libsLoop world (resolveNeeded world) (soname :: rest) libs state =
    mapObject world path (libSlot libs.length) state >>= fun mapped =>
      libsLoop world (resolveNeeded world) rest (libs ++ [mapped.1]) mapped.2

theorem mapsNeeded_of_resolved (resolved : resolveNeeded world soname = .ok path) :
    world.MapsNeeded soname path := by
  intro rest libs state
  rw [libsLoop, resolved]
  rfl

theorem mapsNeeded_unique (missing : ∀ file, world.files file = none)
    (maps : world.MapsNeeded soname path)
    (resolved : resolveNeeded world soname = .ok other) : other = path := by
  have same := (mapsNeeded_of_resolved resolved [] [] ⟨unmappedSpace, []⟩).symm.trans (maps [] [] _)
  simp only [mapObject, missing, orDie] at same
  cases same
  rfl

theorem resolveNeeded_eq_ok_iff (world : World) (soname path : String) :
    resolveNeeded world soname = .ok path ↔
      ∃ resolver, world.resolver = some resolver ∧
        (resolver.objectPath soname).rows.head? = some path := by
  rw [resolveNeeded, orDie_eq_ok_iff, Option.bind_eq_some_iff]

/-- A lookup that finds rows goes on with the path of one of them. -/
theorem resolveNeeded_named (consults : world.Consults rdb) (some : rdb.named soname ≠ []) :
    ∃ row ∈ rdb.named soname, resolveNeeded world soname = .ok row.path := by
  obtain ⟨resolver, found, answers⟩ := consults
  rcases answers soname with ⟨row, member, answer⟩ | ⟨none, _⟩
  · refine ⟨row, member, (resolveNeeded_eq_ok_iff world soname row.path).mpr ⟨resolver, found, ?_⟩⟩
    rw [answer]
    rfl
  · exact absurd none some

namespace ResolverDb

/-- If some row is usable, the loop maps the object of one that is. -/
def MapsUsable (rdb : ResolverDb) (world : World) (soname machine : String) : Prop :=
  (∃ row ∈ rdb.objects.rows, row.Usable soname machine) →
    ∃ row ∈ rdb.objects.rows, row.Usable soname machine ∧ world.MapsNeeded soname row.path

/-- Beside a usable row there are only usable ones. -/
def OnlyUsable (rdb : ResolverDb) (soname machine : String) : Prop :=
  (∃ row ∈ rdb.objects.rows, row.Usable soname machine) →
    ∀ row ∈ rdb.named soname, row.Usable soname machine

theorem resolveNeeded_usable (consults : world.Consults rdb) (only : rdb.OnlyUsable soname machine)
    (offered : ∃ row ∈ rdb.objects.rows, row.Usable soname machine) :
    ∃ row ∈ rdb.objects.rows, row.Usable soname machine ∧
      resolveNeeded world soname = .ok row.path := by
  obtain ⟨provider, stored, usable⟩ := offered
  have present := (rdb.mem_named soname provider).mpr ⟨stored, usable.1⟩
  obtain ⟨row, member, resolved⟩ := resolveNeeded_named consults (List.ne_nil_of_mem present)
  exact ⟨row, ((rdb.mem_named soname row).mp member).1, only ⟨provider, stored, usable⟩ row member,
    resolved⟩

/-- Over all answers the database may give, the loop maps a usable row exactly
when it has no choice. -/
theorem mapsUsable_iff (rdb : ResolverDb) (soname machine : String) :
    (∀ world : World, world.Consults rdb → rdb.MapsUsable world soname machine) ↔
      rdb.OnlyUsable soname machine := by
  constructor
  · intro maps offered row member
    obtain ⟨answers, legal, answer⟩ := rdb.exists_limitOne (·.path) member
    let world : World := ⟨.twoHoles, fun _ => none, some ⟨answers, .prepareError⟩⟩
    have resolved : resolveNeeded world soname = .ok row.path := by
      refine (resolveNeeded_eq_ok_iff world soname row.path).mpr ⟨_, rfl, ?_⟩
      simp only [answer, Query.rows, List.head?_cons]
    obtain ⟨mapped, stored, usable, path⟩ := maps world ⟨_, rfl, legal⟩ offered
    have same := mapsNeeded_unique (fun _ => rfl) path resolved
    rwa [rdb.eq_of_path ((rdb.mem_named soname row).mp member).1 stored same]
  · intro only world consults offered
    obtain ⟨row, stored, usable, resolved⟩ := resolveNeeded_usable consults only offered
    exact ⟨row, stored, usable, mapsNeeded_of_resolved resolved⟩

/-- In a run that reaches the program, a library whose soname has only usable
rows is the object of one of them. -/
theorem runSelfld_usable (consults : world.Consults rdb)
    (reached : runSelfld world maindb path mem = .ok out) (machine : String) :
    List.Forall₂ (fun soname obj => rdb.OnlyUsable soname machine →
      (∃ row ∈ rdb.objects.rows, row.Usable soname machine) →
      ∃ row ∈ rdb.objects.rows, row.Usable soname machine ∧ world.files row.path = some obj.conn)
      out.main.conn.needed.rows out.needed := by
  refine (runSelfld_bound reached).needed.imp ?_
  rintro soname obj ⟨libpath, located, opened⟩ only offered
  obtain ⟨row, stored, usable, resolved⟩ := resolveNeeded_usable consults only offered
  rw [located] at resolved
  cases resolved
  exact ⟨row, stored, usable, opened⟩

end ResolverDb

end SelfDb
