import SelfDb.Loader.SelfLdRun

/-! The segments after eager binding: which bytes of the objects are as their load rows have them
when the program starts. -/
namespace SelfDb
open Paging Binary Binding

/-- The relocation rewrites the address, counted before a load bias is added. -/
def BoundRelocation.Rewrites (r : BoundRelocation) (u : Nat) : Prop :=
  sub64 (wrap u) (sizeT r.offset) < 8

instance (r : BoundRelocation) (u : Nat) : Decidable (r.Rewrites u) :=
  inferInstanceAs (Decidable (_ < _))

/-- Of the load rows whose pages or content reach an address of this row, the last one has there
what this row has, unless a relocation rewrites the address. -/
def Connection.KeepsRow (conn : Connection) (R : SegmentRow) : Prop :=
  ∀ k < R.size, (∀ r ∈ conn.relocations.rows, ¬ r.Rewrites (R.start + k)) →
    imageByte conn.loadSegments.rows (R.start + k) = some (R.bytes[k]?.getD 0)

instance (conn : Connection) (R : SegmentRow) : Decidable (conn.KeepsRow R) :=
  inferInstanceAs (Decidable (∀ _ < _, _))

/-- What eager binding is to leave: every slot holds its value, every other byte of a segment is as
its row has it, and the order of the relocations makes no difference. -/
structure EagerlyBound (world : World) (files : String → Option Database) (mem : Memory)
    (out : Linked) : Prop where
  slots : ∀ slot ∈ out.slots, ∃ value, out.Resolves files slot value ∧
    out.memory.load slot.address 8 = leBytes 8 value
  segments : ∀ obj ∈ out.objects, ∀ R ∈ obj.conn.loadSegments.rows, ∀ k < R.size,
    (∀ slot ∈ out.slots, ¬ slot.Holds (wrap (obj.loadBias + (R.start + k)))) →
      out.memory.byte (wrap (obj.loadBias + (R.start + k))) = R.bytes[k]?.getD 0
  order : ∃ layers, ObjectsLaid world.os mem out.objects layers ∧
    ∀ objs : List SelfObject, (objs.flatMap SelfObject.slots).Perm out.slots →
      objs.foldlM (relocate out.syms) (layers.foldl Memory.lay mem) = .ok out.memory

/-- What a row has at one of its own addresses. -/
theorem byteIn_row {R : SegmentRow} (loadable : R.Loadable) (inside : k < R.size) :
    R.byteIn (R.start + k) = some (R.bytes[k]?.getD 0) := by
  by_cases within : k < R.bytes.length
  · rw [byteIn_content loadable within, List.getElem?_eq_getElem within]
    rfl
  · have past := not_lt.mp within
    rw [byteIn_zero loadable past inside, List.getElem?_eq_none past]
    rfl

/-- Rows on pages of their own keep what they have. -/
theorem keepsRow_of_apart {conn : Connection}
    (loadable : ∀ R ∈ conn.loadSegments.rows, R.Loadable)
    (apart : conn.loadSegments.rows.Pairwise fun R Q =>
      ∀ u, ¬ (OnPages R.start R.size u ∧ OnPages Q.start Q.size u)) :
    ∀ R ∈ conn.loadSegments.rows, conn.KeepsRow R :=
  fun R member _ inside _ =>
    imageByte_of_byteIn loadable apart member (byteIn_row (loadable R member) inside)

theorem Slot.holds_iff_rewrites (bias u : Nat) (r : BoundRelocation) :
    (⟨bias, r⟩ : Slot).Holds (wrap (bias + u)) ↔ r.Rewrites u := by
  rw [Slot.Holds, Slot.address, sub64_shift bias u (sizeT_lt r.offset), BoundRelocation.Rewrites]

/-! Each object in its reservation. -/

namespace SelfObject

/-- The slots of the object are inside its reservation. -/
def EnclosesSlots (obj : SelfObject) : Prop :=
  ∀ slot ∈ obj.slots, ∀ a < 2 ^ 64, slot.Holds a → InSpan obj.base obj.span a

/-- No address is in both reservations. -/
def Apart (obj other : SelfObject) : Prop :=
  ∀ a, ¬ (InSpan obj.base obj.span a ∧ InSpan other.base other.span a)

instance : Std.Symm Apart := ⟨fun _ _ separate a both => separate a both.symm⟩

/-- The rows are inside the reservation. -/
theorem Laid.inside {os : Os} (fresh : os.Fresh) {obj : SelfObject} (mapped : obj.Mapped)
    (loads : obj.Loads rows) (laid : obj.Laid os mem layers) (member : R ∈ rows)
    (inside : k < R.size) : InSpan obj.base obj.span (wrap (obj.loadBias + (R.start + k))) := by
  obtain ⟨base, _, _, held, _⟩ := laid.rowsReserved fresh mapped loads
  have place := (laid.bare fresh mapped).2
  have span : obj.span = holeLength (loadsOf rows) := by
    rw [SelfObject.span, loads.bounds]
    rfl
  rw [span] at place ⊢
  obtain rfl := Option.some.inj (held.reserved.symm.trans place)
  obtain ⟨lo, hi, placed, within⟩ := held.placed.2 R member
  have loadable := loads.loadable R member
  have reached : (R.layer obj.loadBias .noAccess).byteAt (wrap (obj.loadBias + (R.start + k))) =
      R.byteIn (R.start + k) :=
    layer_byteAt held.placed.1 (layer_room placed loadable within) (R.start + k)
  by_contra outside
  rw [held.off _ (wrap_lt _) outside R member, byteIn_row loadable inside] at reached
  cases reached

end SelfObject

namespace ObjectsLaid

/-- Every object of a run was laid at some point of it. -/
theorem laid_of_mem (laid : ObjectsLaid os mem objs layers) :
    ∀ obj ∈ objs, ∃ before own, obj.Laid os before own := by
  induction laid with
  | nil => exact List.forall_mem_nil _
  | cons head _ ih => exact List.forall_mem_cons.mpr ⟨⟨_, _, head⟩, ih⟩

theorem apart {os : Os} (fresh : os.Fresh) (laid : ObjectsLaid os mem objs layers)
    (mapped : ∀ obj ∈ objs, obj.Mapped) : objs.Pairwise SelfObject.Apart := by
  induction laid with
  | nil => exact .nil
  | cons head later ih =>
    rw [List.forall_mem_cons] at mapped
    refine List.pairwise_cons.mpr ⟨fun other member a both => ?_, ih mapped.2⟩
    have here := (ObjectsLaid.cons head (.nil _)).place_mapped fresh
      (List.forall_mem_singleton.mpr mapped.1)
      (List.mem_flatMap.mpr ⟨_, List.mem_singleton_self _, List.mem_cons_self⟩) both.1
    rw [List.append_nil] at here
    exact later.outside fresh mapped.2 here other member both.2

end ObjectsLaid

theorem Bound.loads {files : String → Option Database} (bound : Bound world path out)
    (stored : world.Stores files)
    (loadable : ∀ obj ∈ out.objects, ∀ R ∈ obj.conn.loadSegments.rows, R.Loadable) :
    ∀ obj ∈ out.objects, obj.Loads obj.conn.loadSegments.rows := by
  intro obj member
  obtain ⟨file, opened⟩ := bound.file obj member
  rw [stored file, Option.map_eq_some_iff] at opened
  obtain ⟨db, _, conn⟩ := opened
  refine ⟨rfl, ?_, loadable obj member⟩
  rw [SelfObject.bounds, ← conn]
  rfl

section Run
variable {world : World} {maindb : Connection} {path : String} {mem : Memory} {out : Linked}

/-- An address of a row that no relocation of its own object rewrites is off all slots. -/
theorem Linked.off_slots (fresh : world.os.Fresh)
    (reached : runSelfld world maindb path mem = .ok out)
    (loads : ∀ obj ∈ out.objects, obj.Loads obj.conn.loadSegments.rows)
    (enclosed : ∀ obj ∈ out.objects, obj.EnclosesSlots) (member : obj ∈ out.objects)
    (listed : R ∈ obj.conn.loadSegments.rows) (inside : k < R.size)
    (own : ∀ r ∈ obj.conn.relocations.rows, ¬ r.Rewrites (R.start + k)) :
    ∀ slot ∈ out.slots, ¬ slot.Holds (wrap (obj.loadBias + (R.start + k))) := by
  obtain ⟨layers, laid, _⟩ := runSelfld_laid reached
  have mapped := runSelfld_mapped reached
  obtain ⟨_, _, here⟩ := laid.laid_of_mem obj member
  have place := here.inside fresh (mapped obj member) (loads obj member) listed inside
  intro slot held holds
  obtain ⟨other, there, row⟩ := List.mem_flatMap.mp held
  by_cases same : other = obj
  · subst same
    obtain ⟨r, relocation, rfl⟩ := List.mem_map.mp row
    exact own r relocation ((Slot.holds_iff_rewrites _ _ r).mp holds)
  · -- the slot is in the reservation of another object
    exact (laid.apart fresh mapped).forall there member same _
      ⟨enclosed other there slot row _ (wrap_lt _) holds, place⟩

/-- Off the slots the last load row of its object decides what an address of a row holds. -/
theorem runSelfld_segment (fresh : world.os.Fresh)
    (reached : runSelfld world maindb path mem = .ok out)
    (loads : ∀ obj ∈ out.objects, obj.Loads obj.conn.loadSegments.rows)
    (member : obj ∈ out.objects) (listed : R ∈ obj.conn.loadSegments.rows) (inside : k < R.size)
    (outside : ∀ slot ∈ out.slots, ¬ slot.Holds (wrap (obj.loadBias + (R.start + k)))) :
    imageByte obj.conn.loadSegments.rows (R.start + k) =
      some (out.memory.byte (wrap (obj.loadBias + (R.start + k)))) := by
  obtain ⟨layers, laid, relocated⟩ := runSelfld_laid reached
  have kept := relocated_untouched relocated fun slot held =>
    outside slot (out.schedule_perm.mem_iff.mp held)
  cases found : imageByte obj.conn.loadSegments.rows (R.start + k) with
  | none =>
    rw [imageByte, lastAt_eq_none_iff, List.forall_mem_map] at found
    have row := byteIn_row ((loads obj member).loadable R listed) inside
    cases (found R listed).symm.trans row
  | some b =>
    have resident := laid.resident fresh (runSelfld_mapped reached)
      (fun obj member => ⟨_, loads obj member⟩) obj member _ (loads obj member) _ b found
    rw [kept.byte, resident.1]

end Run

/-- Slots whose addresses are eight bytes apart. -/
def Slot.Spaced (first second : Slot) : Prop :=
  8 ≤ sub64 first.address second.address ∧ 8 ≤ sub64 second.address first.address

instance (first second : Slot) : Decidable (first.Spaced second) :=
  inferInstanceAs (Decidable (_ ∧ _))

theorem Slot.Spaced.apart {first second : Slot} (spaced : first.Spaced second) :
    first.Apart second := by
  rintro a ⟨here, there⟩
  have small : first.address < 2 ^ 64 := wrap_lt _
  have small' : second.address < 2 ^ 64 := wrap_lt _
  simp only [Slot.Spaced, Slot.Holds, sub64, wrap] at spaced here there
  omega

/-- An object with these load rows, whose first relocations are on the page of `slots`. -/
def boundObject (slots : Int) (rows : List SegmentRow)
    (ordered : rows.Pairwise fun a b => a.id < b.id) (stored : ∀ row ∈ rows, row.Stored) :
    Database :=
  { exporting 0x80 callerOfF.needed
      ⟨[⟨0, slots, rRelative, none, 2⟩, ⟨1, slots + 8, rJumpSlot, some 0, 0⟩,
        ⟨2, slots + 16, rGlobDat, some 0, 4⟩], by simp⟩ with
    segments := ⟨rows, ordered⟩
    segmentsStored := stored }

/-- Two rows on pages of their own, the second with a tail. -/
def apartRows : Database :=
  boundObject 0x1008 [loadRow 0 0 [1, 2, 3],
    { loadRow 1 0x1000 (List.replicate 40 7) with memsz := 48 }] (by decide) (by decide)

/-- Two rows on one page. -/
def closeRows : Database :=
  boundObject 0x108 [loadRow 0 0 [1, 2, 3], loadRow 1 0x100 (List.replicate 40 7)] (by decide)
    (by decide)

/-- The files of `callingWorld`. -/
def callingFiles (db : Database) (path : String) : Option Database :=
  if path ∈ ["/main.self", "/libf.self"] then some db else none

theorem callingWorld_stores (db : Database) : (callingWorld db).Stores (callingFiles db) := by
  intro path
  simp only [callingWorld, callingFiles]
  split <;> rfl

/-- The program and its library with three slots each, all as they must be. -/
structure SlotsApart (out : Linked) : Prop where
  six : out.slots.length = 6
  spaced : out.slots.Pairwise Slot.Spaced
  inside : ∀ obj ∈ out.objects, obj.Inside
  loadable : ∀ obj ∈ out.objects, ∀ R ∈ obj.conn.loadSegments.rows, R.Loadable

instance (out : Linked) : Decidable (SlotsApart out) :=
  decidable_of_iff (out.slots.length = 6 ∧ out.slots.Pairwise Slot.Spaced ∧
      (∀ obj ∈ out.objects, obj.Inside) ∧
      ∀ obj ∈ out.objects, ∀ R ∈ obj.conn.loadSegments.rows, R.Loadable)
    ⟨fun fits => ⟨fits.1, fits.2.1, fits.2.2.1, fits.2.2.2⟩,
      fun fits => ⟨fits.six, fits.spaced, fits.inside, fits.loadable⟩⟩

end SelfDb
