import SelfDb.Isolation.Interleaving
import SelfDb.Loader.ImageProofs
import SelfDb.Loader.NativeProofs

/-! Loaders that run while other processes commit. No loader opens a
transaction, so each SELECT is a snapshot of its own. -/
namespace SelfDb
open Paging Isolation

/-- The SELECTs of one connection. -/
inductive Statement where
  | metaValue (key : MetaKey)
  | segments
  | loadBounds
  | loadSegments
  | needed
  | exports
  | relocations
  deriving DecidableEq

/-- What a loader reads when each statement sees the database that `view` gives. -/
def Connection.seeing (view : Statement → Database) : Connection where
  metaValue key := (view (.metaValue key)).connect.metaValue key
  segments := (view .segments).connect.segments
  loadBounds := (view .loadBounds).connect.loadBounds
  loadSegments := (view .loadSegments).connect.loadSegments
  needed := (view .needed).connect.needed
  exports := (view .exports).connect.exports
  relocations := (view .relocations).connect.relocations

/-- The statement yields the same on both connections. -/
def Connection.SameAnswer (a b : Connection) : Statement → Prop
  | .metaValue key => a.metaValue key = b.metaValue key
  | .segments => a.segments = b.segments
  | .loadBounds => a.loadBounds = b.loadBounds
  | .loadSegments => a.loadSegments = b.loadSegments
  | .needed => a.needed = b.needed
  | .exports => a.exports = b.exports
  | .relocations => a.relocations = b.relocations

/-- A commit from `before` to `after` does not change what the statement yields. -/
def Leaves (q : Statement) (before after : Database) : Prop :=
  before.connect.SameAnswer after.connect q

theorem leaves_equivalence (q : Statement) : Equivalence (Leaves q) := by
  cases q <;> exact ⟨fun _ => rfl, fun same => Eq.symm same,
    fun first second => Eq.trans first second⟩

theorem seeing_sameAnswer (view : Statement → Database) (same : Leaves q (view q) db) :
    (Connection.seeing view).SameAnswer db.connect q := by
  cases q <;> exact same

/-- The SELECTs of `self_build_elf`, in order. -/
def imageStatements : List Statement :=
  [.metaValue .et, .metaValue .em, .metaValue .entry, .metaValue .phoff, .metaValue .eflags,
    .metaValue .phnum, .metaValue .osabi, .segments]

/-- The SELECTs of `map_program`, in order. -/
def mapStatements : List Statement :=
  [.metaValue .et, .metaValue .entry, .metaValue .phoff, .loadBounds, .loadSegments,
    .metaValue .phnum, .metaValue .phentsize]

/-- `self_build_elf` depends on its own statements only. -/
theorem selfBuildElf_congr {a b : Connection} (same : ∀ q ∈ imageStatements, a.SameAnswer b q)
    (heap : Heap) : selfBuildElf heap a = selfBuildElf heap b := by
  simp only [imageStatements, List.forall_mem_cons, List.not_mem_nil, false_implies, implies_true,
    and_true, Connection.SameAnswer] at same
  obtain ⟨et, em, entry, phoff, eflags, phnum, osabi, segments⟩ := same
  simp only [selfBuildElf, readMeta, selfGetInt, et, em, entry, phoff, eflags, phnum, osabi,
    segments]

theorem mapProgram_congr {a b : Connection} (same : ∀ q ∈ mapStatements, a.SameAnswer b q) (os : Os)
    (mem : Memory) : mapProgram os a mem = mapProgram os b mem := by
  simp only [mapStatements, List.forall_mem_cons, List.not_mem_nil, false_implies, implies_true,
    and_true, Connection.SameAnswer] at same
  obtain ⟨et, entry, phoff, loadBounds, loadSegments, phnum, phentsize⟩ := same
  simp only [mapProgram, selfMetaInt, selfGetInt, et, entry, phoff, loadBounds, loadSegments, phnum,
    phentsize]

/-- One call of a loader: its statements between commits of others. A call that
stops early counts as one that issues the rest without another commit. -/
structure Call where
  start : Database
  run : List (Event Database Statement)

namespace Call

def Issues (call : Call) (program : List Statement) : Prop := statements call.run = program

instance (call : Call) (program : List Statement) : Decidable (call.Issues program) :=
  inferInstanceAs (Decidable (_ = _))

/-- What the statements of the call yield. -/
def connection (call : Call) : Connection := .seeing (saw call.start call.run)

/-- The databases that were committed at some instant of the call. -/
def committed (call : Call) : List Database := instants call.start call.run

/-- Commits before some instant of the call leave what the call has read, and
commits after it leave what the call has yet to read. -/
def Settled (call : Call) : Prop := Isolation.Settled Leaves call.start call.run

end Call

/-- A settled call reads what one committed database answers. -/
theorem Call.Settled.sameAnswer {call : Call} (settled : call.Settled) :
    ∃ db ∈ call.committed, ∀ q ∈ statements call.run, call.connection.SameAnswer db.connect q := by
  obtain ⟨db, instant, same⟩ := Isolation.Settled.saw leaves_equivalence settled
  exact ⟨db, instant, fun q issued => seeing_sameAnswer _ (same q issued)⟩

/-- The image is that of one database committed during the call. -/
def Call.ImageAtomic (call : Call) : Prop :=
  ∃ db ∈ call.committed, ∀ heap, selfBuildElf heap call.connection = selfBuildElf heap db.connect

/-- All that `map_program` reads is in one database committed during the call. -/
def Call.MapAtomic (call : Call) : Prop :=
  ∃ db ∈ call.committed, (∀ q ∈ mapStatements, call.connection.SameAnswer db.connect q) ∧
    ∀ os mem, mapProgram os call.connection mem = mapProgram os db.connect mem

/-- Settled calls observe edits atomically. -/
theorem loaders_atomic {call : Call} (settled : call.Settled) :
    (call.Issues imageStatements → call.ImageAtomic) ∧
    (call.Issues mapStatements → call.MapAtomic) := by
  obtain ⟨db, instant, same⟩ := settled.sameAnswer
  constructor
  · intro issues
    exact ⟨db, instant, selfBuildElf_congr (issues ▸ same)⟩
  · intro issues
    exact ⟨db, instant, issues ▸ same, mapProgram_congr (issues ▸ same)⟩

def codeRow (vaddr : Int) : SegmentRow :=
  ⟨0, .load, ptLoad, 120, vaddr, 1, 1, .integer 1, .integer 0, .integer 1, 4096, some [0xc3]⟩

/-- A program and what one transaction relinks it to: all addresses move by a page. -/
def linkedLow : Database where
  selfMeta key := some
    (metaTable ⟨etDyn, emX86_64, 0x1000, ehdrSize, 0, .integer phdrSize, .integer 1, 0⟩ 1 none key)
  segments := ⟨[codeRow 0x1000], List.pairwise_singleton _ _⟩
  needed := .empty
  symbols := .empty
  relocations := .empty
  metaStored := insertMeta_stored (if_pos (by decide))
  segmentsStored := by decide

def linkedHigh : Database where
  selfMeta key := some
    (metaTable ⟨etDyn, emX86_64, 0x2000, ehdrSize, 0, .integer phdrSize, .integer 1, 0⟩ 1 none key)
  segments := ⟨[codeRow 0x2000], List.pairwise_singleton _ _⟩
  needed := .empty
  symbols := .empty
  relocations := .empty
  metaStored := insertMeta_stored (if_pos (by decide))
  segmentsStored := by decide

/-- Only the segment moves. -/
def movedRow : Database where
  selfMeta := linkedLow.selfMeta
  segments := linkedHigh.segments
  needed := .empty
  symbols := .empty
  relocations := .empty
  metaStored := linkedLow.metaStored
  segmentsStored := linkedHigh.segmentsStored

/-- One commit, after `early` statements of the program. -/
def editedAfter (early : Nat) (before after : Database) (program : List Statement) : Call :=
  ⟨before, (program.take early).map .statement ++
    .commit after :: (program.drop early).map .statement⟩

/-- What is read before the commit, the commit leaves. -/
theorem loaders_atomic_movedRow :
    (editedAfter 7 linkedLow movedRow imageStatements).ImageAtomic ∧
      (editedAfter 3 linkedLow movedRow mapStatements).MapAtomic := by
  constructor
  · refine (loaders_atomic ⟨_, [], (List.append_nil _).symm, ?_, trivial⟩).1 (by decide)
    simp only [editedAfter, imageStatements, List.take, List.drop, List.map, List.cons_append,
      List.nil_append, KeepsRead, List.forall_mem_cons, List.not_mem_nil, false_implies,
      implies_true, and_true]
    exact ⟨rfl, rfl, rfl, rfl, rfl, rfl, rfl⟩
  · refine (loaders_atomic ⟨_, [], (List.append_nil _).symm, ?_, trivial⟩).2 (by decide)
    simp only [editedAfter, mapStatements, List.take, List.drop, List.map, List.cons_append,
      List.nil_append, KeepsRead, List.forall_mem_cons, List.not_mem_nil, false_implies,
      implies_true, and_true]
    exact ⟨rfl, rfl, rfl⟩

/-- The entry point of one state with the segment of the other, and the bounds
of one with the rows of the other. -/
theorem loaders_torn :
    (∃ call : Call, call.Issues imageStatements ∧ ¬ call.ImageAtomic) ∧
      ∃ call : Call, call.Issues mapStatements ∧ ¬ call.MapAtomic := by
  refine ⟨⟨editedAfter 3 linkedLow linkedHigh imageStatements, by decide, ?_⟩,
    editedAfter 4 linkedLow linkedHigh mapStatements, by decide, ?_⟩
  · rintro ⟨db, instant, same⟩
    have image := same .ample
    have states : db = linkedLow ∨ db = linkedHigh := by
      simpa [Call.committed, editedAfter, imageStatements, instants] using instant
    rcases states with rfl | rfl
    · exact absurd image (by decide +kernel)
    · exact absurd image (by decide +kernel)
  · rintro ⟨db, instant, same, _⟩
    have states : db = linkedLow ∨ db = linkedHigh := by
      simpa [Call.committed, editedAfter, mapStatements, instants] using instant
    rcases states with rfl | rfl
    · have rows := congrArg Query.rows (same .loadSegments (by decide))
      exact absurd rows (by decide +kernel)
    · have entry := congrArg Query.rows (same (.metaValue .entry) (by decide))
      exact absurd entry (by decide +kernel)

end SelfDb
