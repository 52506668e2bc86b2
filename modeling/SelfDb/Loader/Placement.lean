import SelfDb.Loader.Protection

/-! Where the objects of a run lie: each in a reservation of its own, on pages
that were not mapped before. -/
namespace SelfDb
open Paging Binary

namespace SelfObject

/-- The reservation of the object begins where its load bias puts the lowest page. -/
def base (obj : SelfObject) : Nat := wrap (obj.loadBias + alignDown obj.bounds.1)

def span (obj : SelfObject) : Nat := spanLength obj.bounds.1 obj.bounds.2

/-- The reservation and the load rows; the protections are left open. -/
def places (obj : SelfObject) : List Layer :=
  reservedLayer obj.base obj.span :: obj.conn.loadSegments.rows.map fun R =>
    R.layer obj.loadBias .noAccess

/-- What holds of every object that `map_object` has mapped. -/
structure Mapped (obj : SelfObject) : Prop where
  span : obj.span ≠ 0
  entry : obj.entry = ((selfGetInt obj.conn .entry).map fun value =>
    wrap (obj.loadBias + sizeT value)).getD 0

/-- Neither its load rows nor its relocations reach outside the reservation. -/
structure Contained (obj : SelfObject) : Prop where
  rows : ∀ R ∈ obj.conn.loadSegments.rows, ∀ a < 2 ^ 64,
    (R.layer obj.loadBias .noAccess).byteAt a ≠ none → InSpan obj.base obj.span a
  slots : ∀ slot ∈ obj.slots, ∀ a < 2 ^ 64, slot.Holds a → InSpan obj.base obj.span a

/-- The pages and the content of its load rows are inside the reservation, and so
are its slots. -/
def Inside (obj : SelfObject) : Prop :=
  (∀ layer ∈ obj.places, obj.base ≤ layer.start ∧
    layer.start + layer.length ≤ obj.base + obj.span) ∧
    (∀ R ∈ obj.conn.loadSegments.rows, ∀ k < (R.bytes.take (sizeT R.filesz)).length,
      InSpan obj.base obj.span (wrap (wrap (obj.loadBias + sizeT R.vaddr) + k))) ∧
    ∀ slot ∈ obj.slots, ∀ k < 8, InSpan obj.base obj.span (wrap (slot.address + k))

instance (obj : SelfObject) : Decidable obj.Inside := inferInstanceAs (Decidable (_ ∧ _ ∧ _))

theorem Inside.contained {obj : SelfObject} (inside : obj.Inside) : obj.Contained where
  rows R listed a small reached := by
    obtain ⟨pages, content, _⟩ := inside
    rw [Layer.byteAt, Ne, Option.or_eq_none_iff, not_and_or] at reached
    rcases reached with copied | mapped
    · rw [Store.byteAt, List.getElem?_eq_none_iff, not_le] at copied
      have here := content R listed _ copied
      rw [Nat.add_comm] at here
      exact (wrap_sub64_add small (Nat.mod_lt _ (by decide))) ▸ here
    · have within : InSpan (R.layer obj.loadBias .noAccess).start
        (R.layer obj.loadBias .noAccess).length a := by
        by_contra off
        exact mapped (if_neg off)
      have bounds := pages _ (List.mem_cons_of_mem _ (List.mem_map_of_mem listed))
      simp only [InSpan] at within ⊢
      omega
  slots slot listed a small holds := by
    obtain ⟨k, bound, same⟩ := slot.holds_iff.mp holds
    have here := inside.2.2 slot listed k bound
    rwa [← same, wrap, Nat.mod_eq_of_lt small] at here

end SelfObject

theorem reserveSpan_span (reserved : reserveSpan os low high true mem = .ok out) :
    spanLength low high ≠ 0 := by
  intro empty
  simp only [reserveSpan, if_true, bind_eq_ok_iff, orDie_eq_ok_iff, mmapAnywhere] at reserved
  obtain ⟨_, answer, _⟩ := reserved
  rw [spanLength] at empty
  rw [if_pos empty] at answer
  cases answer

theorem mapObject_mapped (mapped : mapObject world path slot state = .ok (obj, after)) :
    obj.Mapped := by
  simp only [mapObject, bind_eq_ok_iff, orDie_eq_ok_iff] at mapped
  obtain ⟨conn, _, _, _, ⟨bias, _⟩, reserved, _, _, _, _, result⟩ := mapped
  cases result
  exact ⟨reserveSpan_span reserved, rfl⟩

/-- What holds of every object that is mapped holds of all that the loop adds. -/
theorem libsLoop_forall {P : SelfObject → Prop}
    (each : ∀ {path slot state obj after}, mapObject world path slot state = .ok (obj, after) →
      P obj)
    (looped : libsLoop world pathOf rows libs state = .ok (out, after))
    (first : ∀ obj ∈ libs, P obj) :
    ∀ obj ∈ out, P obj := by
  induction rows generalizing libs state with
  | nil =>
    cases looped
    exact first
  | cons row rest ih =>
    simp only [libsLoop, bind_eq_ok_iff] at looped
    obtain ⟨path, _, ⟨lib, next⟩, mapped, later⟩ := looped
    refine ih later ?_
    rw [List.forall_mem_append, List.forall_mem_singleton]
    exact ⟨first, each mapped⟩

theorem runSelfld_mapped (reached : runSelfld world maindb path mem = .ok out) :
    ∀ obj ∈ out.objects, obj.Mapped := by
  simp only [runSelfld, bind_eq_ok_iff] at reached
  obtain ⟨_, _, _, _, ⟨main, _⟩, mapped, ⟨needed, _⟩, looped, ⟨libs, _⟩, preloaded, _, _, _, _,
    result⟩ := reached
  cases result
  rw [Linked.objects_eq, List.forall_mem_cons]
  have libraries := libsLoop_forall mapObject_mapped looped (List.forall_mem_nil _)
  exact ⟨mapObject_mapped mapped, libsLoop_forall mapObject_mapped preloaded libraries⟩

/-! Where the kernel reserves, nothing was mapped. -/

theorem Os.Fresh.outside {os : Os} (fresh : os.Fresh) {mem : Memory}
    (reserved : os.reserve mem length = some base) (mapped : (mem.prot (a / pageSize)).isSome) :
    ¬ InSpan base length a := by
  intro inside
  rw [fresh.unmapped reserved (inSpan_page (fresh.aligned reserved) inside)] at mapped
  cases mapped

theorem mapStack_byte_kept {os : Os} (fresh : os.Fresh) {mem : Memory}
    (mapped : (mem.prot (a / pageSize)).isSome) (stack : mapStack os length mem = .ok after) :
    after.byte a = mem.byte a := by
  obtain ⟨base, reserved, rfl⟩ := mapStack_inv stack
  exact if_neg (fresh.outside reserved mapped)

/-- A layer without its protection. -/
def bare (layer : Layer) : Layer := { layer with prot := .noAccess }

theorem map_byteAt_bare (layers : List Layer) :
    layers.map Layer.byteAt = (layers.map bare).map Layer.byteAt := by
  rw [List.map_map]
  rfl

theorem exists_onPage_bare (layers : List Layer) (page : Nat) :
    (∃ layer ∈ layers, layer.OnPage page) ↔ ∃ layer ∈ layers.map bare, layer.OnPage page := by
  simp only [List.mem_map, exists_exists_and_eq_and]
  rfl

theorem rowsLaid_bare (laid : List.Forall₂ (RowLaid os bias) rows layers) :
    layers.map bare = rows.map fun R => R.layer bias .noAccess := by
  induction laid with
  | nil => rfl
  | cons head _ ih =>
    obtain ⟨_, prot, rfl, _⟩ := head
    rw [List.map_cons, List.map_cons, ih]
    rfl

theorem SelfObject.Laid.bare {os : Os} (fresh : os.Fresh) {obj : SelfObject} (mapped : obj.Mapped)
    (laid : obj.Laid os mem layers) :
    layers.map SelfDb.bare = obj.places ∧ os.reserve mem obj.span = some obj.base := by
  obtain ⟨base, rows, rfl, reserved, place, laid⟩ := laid
  have here : base = obj.base := by
    have room := fresh.room reserved
    have low := ((le_boundsLoop_iff obj.conn.loadBounds.rows (2 ^ 64 - 1) 0 _).mp le_rfl).1
    have down := alignDown_le obj.bounds.1
    have positive := Nat.pos_of_ne_zero mapped.span
    rw [SelfObject.span] at positive
    rw [SelfObject.base, place, wrap_sub64_add (by omega)]
    rw [SelfObject.bounds] at down ⊢
    omega
  subst here
  refine ⟨?_, reserved⟩
  rw [List.map_cons, rowsLaid_bare laid]
  rfl

namespace ObjectsLaid

theorem append_inv (laid : ObjectsLaid os mem (objs ++ others) layers) :
    ∃ first second, layers = first ++ second ∧ ObjectsLaid os mem objs first ∧
      ObjectsLaid os (first.foldl Memory.lay mem) others second := by
  induction objs generalizing mem layers with
  | nil => exact ⟨[], layers, rfl, .nil _, laid⟩
  | cons obj rest ih =>
    obtain - | ⟨head, later⟩ := laid
    obtain ⟨first, second, rfl, own, theirs⟩ := ih later
    refine ⟨_ ++ first, second, (List.append_assoc _ _ _).symm, .cons head own, ?_⟩
    rwa [List.foldl_append]

theorem bare {os : Os} (fresh : os.Fresh) (laid : ObjectsLaid os mem objs layers)
    (mapped : ∀ obj ∈ objs, obj.Mapped) : layers.map SelfDb.bare =
    objs.flatMap SelfObject.places := by
  induction laid with
  | nil => rfl
  | cons head _ ih =>
    rw [List.forall_mem_cons] at mapped
    rw [List.map_append, List.flatMap_cons, (head.bare fresh mapped.1).1, ih mapped.2]

/-- The objects that are laid later reserve elsewhere. -/
theorem outside {os : Os} (fresh : os.Fresh) (laid : ObjectsLaid os mem objs layers)
    (mapped : ∀ obj ∈ objs, obj.Mapped) (here : (mem.prot (a / pageSize)).isSome) :
    ∀ obj ∈ objs, ¬ InSpan obj.base obj.span a := by
  induction laid with
  | nil => exact fun _ member => nomatch member
  | cons head _ ih =>
    rw [List.forall_mem_cons] at mapped ⊢
    refine ⟨fresh.outside (head.bare fresh mapped.1).2 here, ih mapped.2 ?_⟩
    exact (Memory.foldl_lay_mapped _ _ _).mpr (.inl here)

theorem aligned {os : Os} (fresh : os.Fresh) (laid : ObjectsLaid os mem objs layers)
    (mapped : ∀ obj ∈ objs, obj.Mapped) : ∀ layer ∈ objs.flatMap SelfObject.places,
    layer.start % pageSize = 0 := by
  induction laid with
  | nil => exact fun _ member => nomatch member
  | cons head _ ih =>
    rw [List.forall_mem_cons] at mapped
    rw [List.flatMap_cons, List.forall_mem_append]
    refine ⟨?_, ih mapped.2⟩
    rw [SelfObject.places, List.forall_mem_cons, List.forall_mem_map]
    exact ⟨fresh.aligned (head.bare fresh mapped.1).2, fun R _ => alignDown_mod _⟩

/-- Every page of the objects is mapped. -/
theorem place_mapped {os : Os} (fresh : os.Fresh) (laid : ObjectsLaid os mem objs layers)
    (mapped : ∀ obj ∈ objs, obj.Mapped) (member : layer ∈ objs.flatMap SelfObject.places)
    (inside : InSpan layer.start layer.length a) :
    ((layers.foldl Memory.lay mem).prot (a / pageSize)).isSome := by
  refine (Memory.foldl_lay_mapped _ _ _).mpr (.inr ?_)
  rw [exists_onPage_bare, laid.bare fresh mapped]
  exact ⟨layer, member, inSpan_page (laid.aligned fresh mapped layer member) inside⟩

end ObjectsLaid

end SelfDb
