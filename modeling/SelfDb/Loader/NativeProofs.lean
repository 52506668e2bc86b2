import SelfDb.Loader.Mapping

/-! When native mode maps every load row of a program. Mapping a row replaces
whole pages, so a row can erase what an earlier one left on a shared page. -/
namespace SelfDb
open Paging Binary

/-- The bytes of two rows never share an address. -/
def Disjoint (R Q : SegmentRow) : Prop :=
  ∀ u, ¬ (InSpan R.start R.size u ∧ InSpan Q.start Q.size u)

/-- Mapping `Q` after `R` leaves the bytes of `R` that are not zero. -/
def Spares (R Q : SegmentRow) : Prop :=
  ∀ k b, R.bytes[k]? = some b → OnPages Q.start Q.size (R.start + k) → b = 0

theorem segmentByte_outside {start size : Nat} {bytes : Bytes}
    (outside : (⟨start, bytes⟩ : Write UInt8).byteAt u = none) (old : UInt8) :
    segmentByte start size bytes u old = if OnPages start size u then 0 else old := by
  rw [segmentByte, outside]
  rfl

/-- Rows without content at `u` only clear it, when it is on their pages. -/
theorem foldl_segmentByte_outside {rows : List SegmentRow}
    (outside : ∀ Q ∈ rows, (⟨Q.start, Q.bytes⟩ : Write UInt8).byteAt u = none) (old : UInt8) :
    rows.foldl (fun old R => segmentByte R.start R.size R.bytes u old) old =
      if ∃ Q ∈ rows, OnPages Q.start Q.size u then 0 else old := by
  induction rows generalizing old with
  | nil => simp
  | cons Q rest ih =>
    rw [List.forall_mem_cons] at outside
    rw [List.foldl_cons, ih outside.2, segmentByte_outside outside.1]
    simp only [List.mem_cons, exists_eq_or_imp]
    by_cases here : OnPages Q.start Q.size u <;> simp [here]

theorem segmentByte_inside (R : SegmentRow) (bound : k < R.size) (old : UInt8) :
    segmentByte R.start R.size R.bytes (R.start + k) old = R.bytes[k]?.getD 0 := by
  have on : OnPages R.start R.size (R.start + k) := by
    have before := alignDown_le R.start
    have after := le_pageCeil (R.start + R.size)
    simp only [OnPages]
    omega
  rw [segmentByte, Write.byteAt_add ⟨R.start, R.bytes⟩ k, if_pos on]

theorem Disjoint.outside {R Q : SegmentRow} (apart : Disjoint R Q) (loadable : Q.Loadable)
    (bound : k < R.size) : (⟨Q.start, Q.bytes⟩ : Write UInt8).byteAt (R.start + k) = none := by
  have fits := loadable.bounds.2.2
  have elsewhere := apart (R.start + k)
  rw [Write.byteAt_eq_none_iff]
  simp only [InSpan, Write.stop] at elsewhere ⊢
  omega

/-- What the rows after `R` leave of a byte of `R`. -/
theorem foldl_segmentByte_first {R : SegmentRow} {rest : List SegmentRow}
    (outside : ∀ Q ∈ rest, (⟨Q.start, Q.bytes⟩ : Write UInt8).byteAt (R.start + k) = none)
    (bound : k < R.size) (old : UInt8) :
    (R :: rest).foldl (fun old Q => segmentByte Q.start Q.size Q.bytes (R.start + k) old) old =
      if ∃ Q ∈ rest, OnPages Q.start Q.size (R.start + k) then 0 else R.bytes[k]?.getD 0 := by
  rw [List.foldl_cons, foldl_segmentByte_outside outside, segmentByte_inside R bound]

/-- A byte survives later rows when they clear it only if it is zero. -/
theorem forall_spares_iff {R : SegmentRow} (loadable : R.Loadable) (rest : List SegmentRow) :
    (∀ k < R.size, (if ∃ Q ∈ rest, OnPages Q.start Q.size (R.start + k) then 0
        else R.bytes[k]?.getD 0) = R.bytes[k]?.getD 0) ↔ ∀ Q ∈ rest, Spares R Q := by
  constructor
  · intro holds Q member k b value on
    have bound : k < R.size := (List.getElem?_eq_some_iff.mp value).1.trans_le loadable.bounds.2.2
    have kept := holds k bound
    rw [if_pos ⟨Q, member, on⟩, value] at kept
    exact kept.symm
  · intro spares k _
    split
    · obtain ⟨Q, member, on⟩ := ‹∃ _ ∈ rest, _›
      cases value : R.bytes[k]? with
      | none => rfl
      | some b => rw [spares Q member k b value on, Option.getD_some]
    · rfl

/-- After all rows, every row holds its content exactly when none erases an earlier one. -/
theorem foldl_segmentByte_iff {rows : List SegmentRow} (loadable : ∀ R ∈ rows, R.Loadable)
    (disjoint : rows.Pairwise Disjoint) (old : Nat → UInt8) :
    (∀ R ∈ rows, ∀ k < R.size,
      rows.foldl (fun old Q => segmentByte Q.start Q.size Q.bytes (R.start + k) old)
        (old (R.start + k)) =
        R.bytes[k]?.getD 0) ↔ rows.Pairwise Spares := by
  induction rows generalizing old with
  | nil => simp
  | cons R rest ih =>
    rw [List.forall_mem_cons] at loadable
    rw [List.pairwise_cons] at disjoint
    rw [List.forall_mem_cons, List.pairwise_cons]
    refine and_congr ?_ (ih loadable.2 disjoint.2 fun u =>
      segmentByte R.start R.size R.bytes u (old u))
    rw [← forall_spares_iff loadable.1]
    refine forall₂_congr fun k bound => ?_
    rw [foldl_segmentByte_first
      (fun Q member => (disjoint.1 Q member).outside (loadable.2 Q member) bound) bound]

/-! The span that is reserved for a position-independent program. -/

theorem le_boundsLoop_iff (rows : List (Int × Int)) (low high x : Nat) :
    x ≤ (boundsLoop rows (low, high)).1 ↔ x ≤ low ∧ ∀ row ∈ rows, x ≤ sizeT row.1 := by
  induction rows generalizing low high with
  | nil => simp [boundsLoop]
  | cons row rest ih =>
    rw [boundsLoop, ih, List.forall_mem_cons, ← and_assoc]
    refine and_congr_left fun _ => ?_
    split <;> omega

theorem boundsLoop_le_iff (rows : List (Int × Int)) (low high x : Nat) :
    (boundsLoop rows (low, high)).2 ≤ x ↔
      high ≤ x ∧ ∀ row ∈ rows, wrap (sizeT row.1 + sizeT row.2) ≤ x := by
  induction rows generalizing low high with
  | nil => simp [boundsLoop]
  | cons row rest ih =>
    rw [boundsLoop, ih, List.forall_mem_cons, ← and_assoc]
    refine and_congr_left fun _ => ?_
    split <;> omega

/-- The rows do not reach from the first page to the last, where the length of
the span would wrap to zero. -/
def SpanReservable (rows : List SegmentRow) : Prop :=
  ¬ ((∃ R ∈ rows, R.start < pageSize) ∧ ∃ Q ∈ rows, 2 ^ 64 - pageSize < Q.start + Q.size)

def rowBounds (rows : List SegmentRow) : Nat × Nat :=
  boundsLoop (rows.map fun R => (R.vaddr, R.memsz)) (2 ^ 64 - 1, 0)

theorem le_rowBounds_iff {rows : List SegmentRow} (loadable : ∀ R ∈ rows, R.Loadable) (x : Nat) :
    x ≤ (rowBounds rows).1 ↔ x ≤ 2 ^ 64 - 1 ∧ ∀ R ∈ rows, x ≤ R.start := by
  rw [rowBounds, le_boundsLoop_iff, List.forall_mem_map]
  refine and_congr_right fun _ => forall₂_congr fun R member => ?_
  rw [(loadable R member).words.1]

theorem rowBounds_le_iff {rows : List SegmentRow} (loadable : ∀ R ∈ rows, R.Loadable) (x : Nat) :
    (rowBounds rows).2 ≤ x ↔ ∀ R ∈ rows, R.start + R.size ≤ x := by
  rw [rowBounds, boundsLoop_le_iff, List.forall_mem_map, and_iff_right (Nat.zero_le x)]
  refine forall₂_congr fun R member => ?_
  obtain ⟨vaddr, _, memsz⟩ := (loadable R member).words
  obtain ⟨start, size, _⟩ := (loadable R member).bounds
  rw [vaddr, memsz, wrap, Nat.mod_eq_of_lt (by omega)]

theorem spanReservable_iff {rows : List SegmentRow} (loadable : ∀ R ∈ rows, R.Loadable) :
    SpanReservable rows ↔
      ¬ ((rowBounds rows).1 < pageSize ∧ 2 ^ 64 - pageSize < (rowBounds rows).2) := by
  have low := le_rowBounds_iff loadable pageSize
  have high := rowBounds_le_iff loadable (2 ^ 64 - pageSize)
  rw [SpanReservable, ← not_le, ← not_le, low, high]
  simp [pageSize]

/-- The reserved span of rows that have pages, without wrap-around. -/
theorem rowBounds_span {rows : List SegmentRow} (loadable : ∀ R ∈ rows, R.Loadable)
    (pages : ∀ R ∈ rows, R.HasPages) (nonempty : rows ≠ []) :
    alignDown (rowBounds rows).1 < pageCeil (rowBounds rows).2 ∧
      pageCeil (rowBounds rows).2 ≤ 2 ^ 64 ∧
      sub64 (alignUp (rowBounds rows).2) (alignDown (rowBounds rows).1) =
        wrap (pageCeil (rowBounds rows).2 - alignDown (rowBounds rows).1) := by
  obtain ⟨R, member⟩ := List.exists_mem_of_ne_nil rows nonempty
  have low := ((le_rowBounds_iff loadable _).mp le_rfl).2 R member
  have high := (rowBounds_le_iff loadable _).mp le_rfl R member
  have small : (rowBounds rows).2 ≤ 2 ^ 64 - 2 :=
    (rowBounds_le_iff loadable _).mpr fun Q listed => by
    obtain ⟨start, size, _⟩ := (loadable Q listed).bounds
    omega
  have page := pages R member
  have order : alignDown (rowBounds rows).1 < pageCeil (rowBounds rows).2 := by
    simp only [SegmentRow.HasPages, alignDown, pageCeil, pageSize] at page ⊢
    omega
  have last : alignUp (rowBounds rows).2 = wrap (pageCeil (rowBounds rows).2) := by
    rw [← alignUp_wrap, wrap, Nat.mod_eq_of_lt (by omega)]
  have first : alignDown (rowBounds rows).1 = wrap (alignDown (rowBounds rows).1) := by
    rw [wrap, Nat.mod_eq_of_lt]
    have := alignDown_le (rowBounds rows).1
    have := ((le_rowBounds_iff loadable _).mp le_rfl).1
    omega
  refine ⟨order, ?_, ?_⟩
  · simp only [pageCeil, alignDown, pageSize]
    omega
  · rw [last, first, sub64_wrap (by omega), ← first]

/-- The length of the reservation is zero only when it wraps. -/
theorem span_ne_zero_iff {rows : List SegmentRow} (loadable : ∀ R ∈ rows, R.Loadable)
    (pages : ∀ R ∈ rows, R.HasPages) :
    sub64 (alignUp (rowBounds rows).2) (alignDown (rowBounds rows).1) ≠ 0 ↔
      SpanReservable rows := by
  by_cases nonempty : rows = []
  · subst nonempty
    exact iff_of_true (by decide) (by simp [SpanReservable])
  · obtain ⟨order, top, length⟩ := rowBounds_span loadable pages nonempty
    rw [length, spanReservable_iff loadable]
    simp only [wrap, pageCeil, alignDown, pageSize] at order top ⊢
    omega

theorem rowBounds_low_lt {rows : List SegmentRow} (loadable : ∀ R ∈ rows, R.Loadable) :
    alignDown (rowBounds rows).1 < 2 ^ 64 := by
  have down := alignDown_le (rowBounds rows).1
  have least := ((le_rowBounds_iff loadable _).mp le_rfl).1
  omega

theorem rowBounds_within {rows : List SegmentRow} (loadable : ∀ R ∈ rows, R.Loadable) :
    ∀ R ∈ rows, R.Within (alignDown (rowBounds rows).1) (pageCeil (rowBounds rows).2) := by
  intro R member
  have first := ((le_rowBounds_iff loadable _).mp le_rfl).2 R member
  have last := (rowBounds_le_iff loadable _).mp le_rfl R member
  simp only [SegmentRow.Within, pageCeil, alignDown, pageSize]
  omega

/-- The reservation that was granted is a range for all rows. -/
theorem rowBounds_placed {rows : List SegmentRow} (loadable : ∀ R ∈ rows, R.Loadable)
    (pages : ∀ R ∈ rows, R.HasPages) (span : SpanReservable rows) (page : base % pageSize = 0)
    (room : base + sub64 (alignUp (rowBounds rows).2) (alignDown (rowBounds rows).1) ≤ 2 ^ 64) :
    Placed (sub64 base (alignDown (rowBounds rows).1)) (alignDown (rowBounds rows).1)
      (pageCeil (rowBounds rows).2) := by
  have positive := (span_ne_zero_iff loadable pages).mpr span
  refine ⟨sub64_page page (alignDown_mod _), alignDown_mod _, ?_⟩
  rw [wrap_sub64_add (by omega) (rowBounds_low_lt loadable)]
  by_cases nonempty : rows = []
  · subst nonempty
    simp only [rowBounds, List.map_nil, boundsLoop, pageCeil, alignDown, pageSize]
    omega
  · obtain ⟨_, top, length⟩ := rowBounds_span loadable pages nonempty
    rw [length] at positive room
    simp only [wrap] at positive room
    omega

/-- Where the kernel lets the rows go: their load bias, and the memory with their reservation. -/
def Os.place (os : Os) (rows : List SegmentRow) (isPie : Bool) (mem : Memory) :
    Option (Nat × Memory) :=
  let low := alignDown (rowBounds rows).1
  let length := sub64 (alignUp (rowBounds rows).2) low
  if isPie then (os.reserve mem length).map fun base =>
    (sub64 base low, mem.mapAnonymous base length .noAccess)
  else some (0, mem)

theorem reserveSpan_eq_ok_iff {os : Os} {rows : List SegmentRow}
    (loadable : ∀ R ∈ rows, R.Loadable) (pages : ∀ R ∈ rows, R.HasPages) (isPie : Bool)
    (mem : Memory) (out : Nat × Memory) :
    reserveSpan os (rowBounds rows).1 (rowBounds rows).2 isPie mem = .ok out ↔
      (isPie = true → SpanReservable rows) ∧ os.place rows isPie mem = some out := by
  cases isPie with
  | false => simp [reserveSpan, Os.place]
  | true =>
    rw [← span_ne_zero_iff loadable pages]
    simp only [reserveSpan, if_true, bind_eq_ok_iff, orDie_eq_ok_iff, mmapAnywhere, Os.place,
      forall_const, Option.ite_none_left_eq_some, Option.map_eq_some_iff]
    constructor
    · rintro ⟨_, ⟨positive, base, reserved, rfl⟩, result⟩
      exact ⟨positive, base, reserved, Except.ok.inj result⟩
    · rintro ⟨positive, base, reserved, rfl⟩
      exact ⟨_, ⟨positive, base, reserved, rfl⟩, rfl⟩

/-- All rows are moved by whole pages into one range. -/
theorem place_placed {os : Os} (paged : os.Paged) {rows : List SegmentRow}
    (loadable : ∀ R ∈ rows, R.Loadable) (pages : ∀ R ∈ rows, R.HasPages) {isPie : Bool}
    (span : isPie = true → SpanReservable rows)
    (chosen : os.place rows isPie mem = some (bias, after)) :
    ∃ lo hi, Placed bias lo hi ∧ ∀ R ∈ rows, R.Within lo hi := by
  cases isPie with
  | false =>
    cases chosen
    refine ⟨0, 2 ^ 64, ⟨rfl, rfl, le_rfl⟩, ?_⟩
    intro R member
    obtain ⟨start, size, _⟩ := (loadable R member).bounds
    exact ⟨Nat.zero_le _, by simp only [pageCeil, alignDown, pageSize]; omega⟩
  | true =>
    obtain ⟨base, reserved, same⟩ := Option.map_eq_some_iff.mp chosen
    cases same
    exact ⟨_, _, rowBounds_placed loadable pages (span rfl) (paged.aligned reserved)
      (paged.room reserved), rowBounds_within loadable⟩

theorem reserveSpan_page {os : Os} (paged : os.Paged)
    (reserved : reserveSpan os low high isPie mem = .ok (bias, after)) : bias % pageSize = 0 := by
  cases isPie with
  | false =>
    cases reserved
    rfl
  | true =>
    simp only [reserveSpan, if_true, bind_eq_ok_iff, orDie_eq_ok_iff, mmapAnywhere,
      Option.ite_none_left_eq_some, Option.map_eq_some_iff] at reserved
    obtain ⟨_, ⟨_, base, chosen, rfl⟩, result⟩ := reserved
    cases result
    exact sub64_page (paged.aligned chosen) (alignDown_mod low)

/-! The whole of `map_program`. -/

theorem selfMetaInt_eq_ok_iff (conn : Connection) (key : MetaKey) (value : Int) :
    selfMetaInt conn key = .ok value ↔ selfGetInt conn key = some value := by
  rw [selfMetaInt]
  cases selfGetInt conn key <;> simp

/-- Every load row is in memory, its tail cleared. -/
def ProgramMapped (os : Os) (db : Database) (mem : Memory) : Prop :=
  ∃ object after, mapProgram os db.connect mem = .ok (object, after) ∧
    ∀ R ∈ db.loadRows, ∀ k < R.size,
      after.byte (wrap (object.loadBias + (R.start + k))) = R.bytes[k]?.getD 0

/-- What `map_program` asks of the kernel and the allocator is granted. -/
structure ProgramGranted (os : Os) (rows : List SegmentRow) (isPie : Bool) (mem : Memory) :
    Prop where
  blobs : BlobsHeld os rows
  rows : ∃ bias before, os.place rows isPie mem = some (bias, before) ∧
    RowsGranted os bias rows before

structure Mappable (os : Os) (db : Database) (mem : Memory) : Prop where
  keys : ∀ key ∈ [MetaKey.et, .entry, .phoff, .phnum, .phentsize],
    (selfGetInt db.connect key).isSome
  /-- An empty row at a page boundary asks `mmap` for no bytes. -/
  pages : ∀ R ∈ db.loadRows, ¬ (R.size = 0 ∧ R.start % pageSize = 0)
  span : selfGetInt db.connect .et = some etDyn → SpanReservable db.loadRows
  granted : ProgramGranted os db.loadRows (selfGetInt db.connect .et = some etDyn) mem
  /-- No row clears bytes of a row before it. -/
  spares : db.loadRows.Pairwise Spares

theorem loadBounds_connect (db : Database) :
    boundsLoop db.connect.loadBounds.rows (2 ^ 64 - 1, 0) = rowBounds db.loadRows := rfl

/-- Under these conditions the run completes with what its rows leave in memory. -/
theorem mapProgram_exists {os : Os} (paged : os.Paged) {db : Database}
    (loadable : ∀ R ∈ db.loadRows, R.Loadable) (pages : ∀ R ∈ db.loadRows, R.HasPages)
    (keys : ∀ key ∈ [MetaKey.et, .entry, .phoff, .phnum, .phentsize],
      (selfGetInt db.connect key).isSome)
    (span : selfGetInt db.connect .et = some etDyn → SpanReservable db.loadRows)
    (granted : ProgramGranted os db.loadRows (selfGetInt db.connect .et = some etDyn) mem) :
    ∃ object after before lo hi, mapProgram os db.connect mem = .ok (object, after) ∧
      Placed object.loadBias lo hi ∧ (∀ R ∈ db.loadRows, R.Within lo hi) ∧
      after = db.loadRows.foldl (mapRow object.loadBias) before := by
  simp only [List.forall_mem_cons, List.not_mem_nil, false_implies, implies_true, and_true,
    Option.isSome_iff_exists] at keys
  obtain ⟨⟨et, hEt⟩, ⟨entry, hEntry⟩, ⟨phoff, hPhoff⟩, ⟨phnum, hPhnum⟩, phent, hPhent⟩ := keys
  obtain ⟨blobs, bias, before, chosen, rows⟩ := granted
  simp only [hEt, Option.some.injEq] at span chosen
  have isPie : decide (et = etDyn) = true → SpanReservable db.loadRows :=
    fun pie => span (of_decide_eq_true pie)
  have reserved := (reserveSpan_eq_ok_iff loadable pages _ mem _).mpr ⟨isPie, chosen⟩
  obtain ⟨lo, hi, placed, within⟩ := place_placed paged loadable pages isPie chosen
  have looped := (mapLoop_eq_ok_iff placed phoff
    (fun R member => ⟨loadable R member, within R member, pages R member⟩) 0 before _).mpr
    ⟨blobs, rows, rfl⟩
  refine ⟨⟨bias, wrap (bias + sizeT entry),
    db.loadRows.foldl (fun phdr R => phdrIn bias phoff R phdr) 0, phnum, phent⟩,
    db.loadRows.foldl (mapRow bias) before, before, lo, hi, ?_, placed, within, rfl⟩
  simp only [mapProgram, bind_eq_ok_iff, selfMetaInt_eq_ok_iff, loadBounds_connect]
  exact ⟨et, hEt, entry, hEntry, phoff, hPhoff, _, reserved, _, looped, phnum, hPhnum, phent,
    hPhent, rfl⟩

/-- What a run that completes has found, and what it was granted. -/
theorem mapProgram_inv {os : Os} (paged : os.Paged) {db : Database}
    (loadable : ∀ R ∈ db.loadRows, R.Loadable) (mapped : mapProgram os db.connect mem = .ok out) :
    (∀ key ∈ [MetaKey.et, .entry, .phoff, .phnum, .phentsize], (selfGetInt db.connect key).isSome) ∧
      (∀ R ∈ db.loadRows, R.HasPages) ∧
      (selfGetInt db.connect .et = some etDyn → SpanReservable db.loadRows) ∧
      ProgramGranted os db.loadRows (selfGetInt db.connect .et = some etDyn) mem := by
  simp only [mapProgram, bind_eq_ok_iff, selfMetaInt_eq_ok_iff, loadBounds_connect] at mapped
  obtain ⟨et, hEt, entry, hEntry, phoff, hPhoff, ⟨bias, before⟩, reserved, _, looped, phnum, hPhnum,
    phent, hPhent, _⟩ := mapped
  have pages := mapLoop_pages (reserveSpan_page paged reserved) loadable looped
  obtain ⟨isPie, chosen⟩ := (reserveSpan_eq_ok_iff loadable pages _ mem _).mp reserved
  obtain ⟨lo, hi, placed, within⟩ := place_placed paged loadable pages isPie chosen
  obtain ⟨blobs, rows, _⟩ := (mapLoop_eq_ok_iff placed phoff
    (fun R member => ⟨loadable R member, within R member, pages R member⟩) 0 before _).mp looped
  refine ⟨?_, pages, ?_⟩
  · simp [hEt, hEntry, hPhoff, hPhnum, hPhent]
  · simp only [hEt, Option.some.injEq]
    exact ⟨fun dyn => isPie (decide_eq_true dyn), blobs, bias, before, chosen, rows⟩

/-- Native mode puts every row into memory exactly for these databases. -/
theorem mapProgram_iff {os : Os} {db : Database} (paged : os.Paged)
    (loadable : ∀ R ∈ db.loadRows, R.Loadable) (disjoint : db.loadRows.Pairwise Disjoint)
    (mem : Memory) : ProgramMapped os db mem ↔ Mappable os db mem := by
  have content : ∀ {object : NativeObject} {after before : Memory} {lo hi : Nat},
      Placed object.loadBias lo hi →
      (∀ R ∈ db.loadRows, R.HasPages) → (∀ R ∈ db.loadRows, R.Within lo hi) →
      after = db.loadRows.foldl (mapRow object.loadBias) before →
        ((∀ R ∈ db.loadRows, ∀ k < R.size,
          after.byte (wrap (object.loadBias + (R.start + k))) = R.bytes[k]?.getD 0) ↔
          db.loadRows.Pairwise Spares) := by
    rintro object _ before lo hi placed pages within rfl
    rw [← foldl_segmentByte_iff loadable disjoint fun u => before.byte (wrap (object.loadBias + u))]
    refine forall₂_congr fun R member => forall₂_congr fun k bound => ?_
    obtain ⟨low, high⟩ := within R member
    have first := alignDown_le R.start
    have last := le_pageCeil (R.start + R.size)
    rw [foldl_mapRow_byte placed
      (fun Q listed => ⟨loadable Q listed, within Q listed, pages Q listed⟩) before (by omega)
      (by omega)]
  constructor
  · rintro ⟨object, after, mapped, bytes⟩
    obtain ⟨keys, pages, span, granted⟩ := mapProgram_inv paged loadable mapped
    obtain ⟨object', after', before, lo, hi, again, placed, within, left⟩ :=
      mapProgram_exists paged loadable pages keys span granted
    cases again.symm.trans mapped
    exact ⟨keys, fun R member => (R.hasPages_iff).mp (pages R member), span, granted,
      (content placed pages within left).mp bytes⟩
  · intro mappable
    have pages : ∀ R ∈ db.loadRows, R.HasPages :=
      fun R member => (R.hasPages_iff).mpr (mappable.pages R member)
    obtain ⟨object, after, before, lo, hi, mapped, placed, within, left⟩ :=
      mapProgram_exists paged loadable pages mappable.keys mappable.span mappable.granted
    exact ⟨object, after, mapped, (content placed pages within left).mpr mappable.spares⟩

def unmappedSpace : Memory := ⟨fun _ => 0, fun _ => none⟩

def loadRow (id vaddr : Int) (bytes : Bytes) : SegmentRow :=
  ⟨id, .load, ptLoad, 0, vaddr, bytes.length, bytes.length, .integer 1, .integer 0, .integer 0,
    4096, some bytes⟩

/-- Two rows of a fixed-address program on one page. -/
def sharedPage : Database where
  selfMeta key := some
    (metaTable ⟨2, emX86_64, 0x400000, ehdrSize, 0, .integer phdrSize, .integer 2, 0⟩ 2 none key)
  segments := ⟨[loadRow 0 0x400000 [1, 2], loadRow 1 0x400100 [3]], by decide⟩
  needed := .empty
  symbols := .empty
  relocations := .empty
  metaStored := insertMeta_stored (if_pos (by decide))
  segmentsStored := by decide

theorem sharedPage_rows : (∀ R ∈ sharedPage.loadRows, R.Loadable) ∧
    sharedPage.loadRows.Pairwise Disjoint := by
  have rows : sharedPage.loadRows = [loadRow 0 0x400000 [1, 2], loadRow 1 0x400100 [3]] := by decide
  rw [rows]
  refine ⟨by decide, ?_⟩
  · simp only [List.pairwise_cons, List.mem_singleton, forall_eq, List.not_mem_nil, false_implies,
      implies_true, List.Pairwise.nil, and_true, Disjoint, InSpan]
    intro u both
    simp only [loadRow, SegmentRow.start, SegmentRow.size, List.length_cons,
      List.length_nil] at both
    omega

theorem mapProgram_iff_sharedPage :
    ProgramMapped .userSpace sharedPage unmappedSpace ↔
      Mappable .userSpace sharedPage unmappedSpace :=
  mapProgram_iff Os.userSpace_paged sharedPage_rows.1 sharedPage_rows.2 unmappedSpace

theorem sharedPage_granted :
    ProgramGranted .userSpace sharedPage.loadRows false unmappedSpace where
  blobs := by decide
  rows := ⟨0, unmappedSpace, rfl, ⟨⟨rfl, rfl⟩, ⟨rfl, rfl⟩, trivial⟩⟩

/-- Mapping the second row clears the content of the first. -/
theorem mapProgram_erases :
    (∀ R ∈ sharedPage.loadRows, R.Loadable) ∧ sharedPage.loadRows.Pairwise Disjoint ∧
      ProgramGranted .userSpace sharedPage.loadRows false unmappedSpace ∧
        ¬ ProgramMapped .userSpace sharedPage unmappedSpace := by
  refine ⟨sharedPage_rows.1, sharedPage_rows.2, sharedPage_granted, ?_⟩
  rintro ⟨object, after, mapped, bytes⟩
  have cleared : (mapProgram .userSpace sharedPage.connect unmappedSpace).map
      (fun out => out.2.byte (wrap (out.1.loadBias + 0x400000))) = .ok 0 := by decide +kernel
  have first := bytes (loadRow 0 0x400000 [1, 2]) (by decide) 0 (by decide)
  rw [mapped] at cleared
  exact absurd ((Except.ok.inj cleared).symm.trans first) (by decide)

end SelfDb
