import SelfDb.Growth.Doubling
import SelfDb.Json.Grammar
import SelfDb.Server.Buffer

/-! What a response holds when `realloc` fails while it is assembled. -/
namespace SelfDb.Server
open CString Growth Json

/-- The buffer after that many calls. -/
def bufferAt (heap : Nat → Answer) (pieces : List Piece) (i : Nat) : Buffer :=
  assemble heap (pieces.take i)

/-- The call comes to `buf_append`. -/
def Piece.appends : Piece → Prop
  | append _ => True
  | printf line => 0 < formattedLength line

/-- The call of that number asks `realloc` for a larger block, and gets NULL. -/
def Refused (heap : Nat → Answer) (pieces : List Piece) (i : Nat) : Prop :=
  ∃ piece, pieces[i]? = some piece ∧ piece.appends ∧
    (bufferAt heap pieces i).cap < (bufferAt heap pieces i).len + piece.bytes.length + 1 ∧
      heap i = none

/-- The piece of that number is put behind what was there. -/
def Appended (heap : Nat → Answer) (pieces : List Piece) (i : Nat) : Prop :=
  ∀ piece, pieces[i]? = some piece →
    (bufferAt heap pieces (i + 1)).contents = (bufferAt heap pieces i).contents ++ piece.bytes

/-- The call of that number leaves the contents as they were. -/
def Ignored (heap : Nat → Answer) (pieces : List Piece) (i : Nat) : Prop :=
  (bufferAt heap pieces (i + 1)).contents = (bufferAt heap pieces i).contents

/-- The buffer is well formed all the time, and out of memory it is cut: nothing is
appended any more once a piece is missing. -/
structure Truncates (heap : Nat → Answer) (pieces : List Piece) : Prop where
  valid : ∀ i, (bufferAt heap pieces i).Valid
  whole : (∀ i, ¬ Refused heap pieces i) →
    (assemble heap pieces).contents = pieces.flatMap Piece.bytes
  cut : (assemble heap pieces).contents <+: pieces.flatMap Piece.bytes
  last : ∀ j k, j < k → ¬ Appended heap pieces j → Ignored heap pieces k

/-- The number of bytes in the first pieces. -/
def bytesBefore (pieces : List Piece) (i : Nat) : Nat :=
  ((pieces.take i).flatMap Piece.bytes).length

/-- Some earlier call got memory. -/
def Allocated (heap : Nat → Answer) (pieces : List Piece) (i : Nat) : Prop :=
  ∃ l < i, ∃ piece, pieces[l]? = some piece ∧ piece.appends ∧ heap l ≠ none

/-- There is room for a piece behind `held` bytes in the smallest block of 1024, 2048, ...
bytes that these leave room in. -/
def Fits (heap : Nat → Answer) (pieces : List Piece) (i held : Nat) (piece : Piece) : Prop :=
  Allocated heap pieces i ∧ held + piece.bytes.length < capacityFor 1024 held

/-- A piece that has bytes fits behind `held` bytes, or gets memory. -/
def Served (heap : Nat → Answer) (pieces : List Piece) (i held : Nat) : Prop :=
  ∀ piece, pieces[i]? = some piece → piece.bytes ≠ [] →
    Fits heap pieces i held piece ∨ heap i ≠ none

/-- A piece that has bytes neither fits behind `held` bytes nor gets memory. -/
def Starved (heap : Nat → Answer) (pieces : List Piece) (i held : Nat) : Prop :=
  ∀ piece, pieces[i]? = some piece → piece.bytes ≠ [] →
    ¬ Fits heap pieces i held piece ∧ heap i = none

/-- Up to some call every piece is served, and from there on none is. -/
def RefusedForGood (heap : Nat → Answer) (pieces : List Piece) : Prop :=
  ∃ m, (∀ i < m, Served heap pieces i (bytesBefore pieces i)) ∧
    ∀ i, m ≤ i → Starved heap pieces i (bytesBefore pieces m)

/-! The capacity. -/

/-- Doubling a capacity that was enough gives the one that is enough. -/
theorem doubled_eq (fuel : Nat) {held need : Nat} (more : held ≤ need)
    (reaches : need < capacityFor 1024 held * 2 ^ fuel) :
    doubled (need + 1) fuel (capacityFor 1024 held) = capacityFor 1024 need := by
  induction fuel generalizing held with
  | zero => exact (capacityFor_of_room (by decide) more (by simpa using reaches)).symm
  | succ fuel ih =>
    rw [doubled]
    split
    · next small =>
      rw [← capacityFor_double (by decide)]
      refine ih (Nat.le_of_lt_succ small) ?_
      rwa [capacityFor_double (by decide), Nat.mul_assoc, ← Nat.pow_succ']
    · next room => exact (capacityFor_of_room (by decide) more (by omega)).symm

theorem doubled_need (held need : Nat) (more : held ≤ need) :
    doubled (need + 1) (need + 1) (capacityFor 1024 held) = capacityFor 1024 need := by
  refine doubled_eq _ more ?_
  have positive : 0 < capacityFor 1024 held := Nat.zero_lt_of_lt (lt_capacityFor (by decide) held)
  calc need < 2 ^ (need + 1) := Nat.lt_succ_self need |>.trans Nat.lt_two_pow_self
    _ ≤ capacityFor 1024 held * 2 ^ (need + 1) := Nat.le_mul_of_pos_left _ positive

namespace Buffer

/-- The capacity is the least that has room, or there is no block yet. -/
def Snug (b : Buffer) : Prop := b.cap = if b.data.isSome then capacityFor 1024 b.len else 0

theorem Valid.contents_length (valid : Valid b) : b.contents.length = b.len := by
  rw [contents]
  cases data : b.data with
  | none => simp [(valid.null data).1]
  | some block =>
    rw [Option.getD_some, List.length_take, (valid.block block data).1]
    exact Nat.min_eq_left (valid.block block data).2.1.le

@[simp] theorem store_len (b : Buffer) (bytes : Bytes) :
    (b.store bytes).len = b.len + bytes.length := rfl

@[simp] theorem store_cap (b : Buffer) (bytes : Bytes) : (b.store bytes).cap = b.cap := rfl

@[simp] theorem store_isSome (b : Buffer) (bytes : Bytes) :
    (b.store bytes).data.isSome = b.data.isSome := Option.isSome_map

theorem append_room (room : b.len + bytes.length < b.cap) (answer : Answer) :
    append answer b bytes = b.store bytes := if_neg (by omega)

theorem append_refused (full : b.cap ≤ b.len + bytes.length) : append none b bytes = b := by
  rw [append, if_pos (by omega)]
  rfl

theorem append_grown (full : b.cap ≤ b.len + bytes.length) (fresh : Nat → UInt8) :
    ∃ grown, append (some fresh) b bytes = store ⟨some grown, b.len,
      doubled (b.len + bytes.length + 1) (b.len + bytes.length + 1)
        (if b.cap ≠ 0 then b.cap else 1024)⟩ bytes := by
  rw [append, if_pos (by omega)]
  exact ⟨_, rfl⟩

theorem Snug.start (snug : Snug b) (valid : Valid b) :
    (if b.cap ≠ 0 then b.cap else 1024) = capacityFor 1024 b.len := by
  rw [Snug] at snug
  cases data : b.data with
  | none =>
    obtain ⟨len, cap⟩ := valid.null data
    rw [if_neg (not_not.mpr cap), len, capacityFor_zero]
  | some block =>
    rw [data, Option.isSome_some, if_pos rfl] at snug
    have inside := (valid.block block data).2.1
    rw [if_pos (by omega), snug]

theorem append_snug (snug : Snug b) (valid : Valid b) (answer : Answer) (bytes : Bytes) :
    (append answer b bytes).Snug ∧
      ((append answer b bytes).data.isSome ↔ b.data.isSome ∨ answer ≠ none) := by
  by_cases room : b.len + bytes.length < b.cap
  · have allocated : b.data.isSome := by
      by_contra null
      rw [Snug, if_neg null] at snug
      omega
    rw [append_room room, Snug, store_cap, store_isSome, store_len, if_pos allocated]
    rw [Snug, if_pos allocated] at snug
    rw [snug] at room ⊢
    exact ⟨(capacityFor_of_room (by decide) (Nat.le_add_right _ _) room).symm,
      iff_of_true allocated (.inl allocated)⟩
  · have full := Nat.le_of_not_lt room
    cases answer with
    | none =>
      rw [append_refused full]
      exact ⟨snug, by simp⟩
    | some fresh =>
      obtain ⟨grown, same⟩ := append_grown full fresh
      rw [same, snug.start valid, Snug, store_cap, store_isSome, store_len]
      exact ⟨doubled_need _ _ (Nat.le_add_right _ _), by simp⟩

/-- The bytes are appended if there are none, or there is room, or there is memory. -/
theorem append_added_iff (valid : Valid b) (answer : Answer) (bytes : Bytes) :
    (append answer b bytes).contents = b.contents ++ bytes ↔
      (bytes ≠ [] → b.len + bytes.length < b.cap ∨ answer ≠ none) := by
  constructor
  · intro added nonempty
    by_contra neither
    obtain ⟨full, refused⟩ := not_or.mp neither
    obtain rfl := not_not.mp refused
    rw [append_refused (Nat.le_of_not_lt full)] at added
    exact nonempty (List.self_eq_append_right.mp added)
  · intro served
    obtain ⟨-, added | ⟨refused, same⟩⟩ := append_spec valid answer bytes
    · exact added
    · by_cases nonempty : bytes = []
      · rw [same, nonempty, List.append_nil]
      · have room := (served nonempty).resolve_right (not_not.mpr refused)
        have stays := congrArg len ((append_room room answer).symm.trans same)
        rw [store_len] at stays
        exact absurd (List.length_eq_zero_iff.mp (by omega)) nonempty

theorem append_ignored_iff (valid : Valid b) (answer : Answer) (bytes : Bytes) :
    (append answer b bytes).contents = b.contents ↔
      (bytes ≠ [] → ¬ b.len + bytes.length < b.cap ∧ answer = none) := by
  have added := append_added_iff valid answer bytes
  constructor
  · intro ignored nonempty
    by_contra served
    have appended := added.mpr fun _ => by
      rwa [not_and_or, not_not] at served
    exact nonempty (List.self_eq_append_right.mp (ignored.symm.trans appended))
  · intro refused
    by_cases nonempty : bytes = []
    · rw [added.mpr fun some => absurd nonempty some, nonempty, List.append_nil]
    · obtain ⟨full, rfl⟩ := refused nonempty
      rw [append_refused (Nat.le_of_not_lt full)]

/-- A call that does not come to `buf_append` has no bytes. -/
theorem call_cases (b : Buffer) (answer : Answer) (piece : Piece) :
    (piece.appends ∧ b.call answer piece = append answer b piece.bytes) ∨
      (¬ piece.appends ∧ piece.bytes = [] ∧ b.call answer piece = b) := by
  cases piece with
  | append bytes => exact .inl ⟨trivial, rfl⟩
  | printf line =>
    rw [call, printf, Piece.bytes, Piece.appends]
    split
    · next printed => exact .inl ⟨printed, rfl⟩
    · next empty => exact .inr ⟨empty, rfl, rfl⟩

theorem call_snug (snug : Snug b) (valid : Valid b) (answer : Answer) (piece : Piece) :
    (b.call answer piece).Snug ∧ ((b.call answer piece).data.isSome ↔
      b.data.isSome ∨ (piece.appends ∧ answer ≠ none)) := by
  rcases b.call_cases answer piece with ⟨appends, same⟩ | ⟨silent, -, same⟩
  · rw [same, and_iff_right appends]
    exact append_snug snug valid answer piece.bytes
  · rw [same]
    exact ⟨snug, by simp [silent]⟩

theorem call_added_iff (valid : Valid b) (answer : Answer) (piece : Piece) :
    (b.call answer piece).contents = b.contents ++ piece.bytes ↔
      (piece.bytes ≠ [] → b.len + piece.bytes.length < b.cap ∨ answer ≠ none) := by
  rcases b.call_cases answer piece with ⟨-, same⟩ | ⟨-, empty, same⟩
  · rw [same]
    exact append_added_iff valid answer piece.bytes
  · rw [same, empty, List.append_nil]
    exact iff_of_true rfl fun nonempty => absurd rfl nonempty

theorem call_ignored_iff (valid : Valid b) (answer : Answer) (piece : Piece) :
    (b.call answer piece).contents = b.contents ↔
      (piece.bytes ≠ [] → ¬ b.len + piece.bytes.length < b.cap ∧ answer = none) := by
  rcases b.call_cases answer piece with ⟨-, same⟩ | ⟨-, empty, same⟩
  · rw [same]
    exact append_ignored_iff valid answer piece.bytes
  · rw [same, empty]
    exact iff_of_true rfl fun nonempty => absurd rfl nonempty

end Buffer

/-! The calls in their order. -/

theorem Piece.appends_of_bytes {piece : Piece} (nonempty : piece.bytes ≠ []) : piece.appends := by
  cases piece with
  | append bytes => trivial
  | printf line =>
    rw [bytes] at nonempty
    by_contra silent
    exact nonempty (if_neg silent)

theorem assembleFrom_append (heap : Nat → Answer) (first : Nat) (b : Buffer)
    (front back : List Piece) : assembleFrom heap first b (front ++ back) =
      assembleFrom heap (first + front.length) (assembleFrom heap first b front) back := by
  induction front generalizing first b with
  | nil => rfl
  | cons piece rest ih =>
    rw [List.cons_append, assembleFrom, ih, assembleFrom, List.length_cons, Nat.add_right_comm,
      Nat.add_assoc]

theorem bufferAt_succ (found : pieces[i]? = some piece) :
    bufferAt heap pieces (i + 1) = (bufferAt heap pieces i).call (heap i) piece := by
  have length : (pieces.take i).length = i :=
    List.length_take_of_le (List.getElem?_eq_some_iff.mp found).1.le
  rw [bufferAt, List.take_add_one, found, Option.toList_some, assemble, assembleFrom_append,
    length, Nat.zero_add]
  rfl

theorem bufferAt_beyond (heap : Nat → Answer) (beyond : pieces.length ≤ i) :
    bufferAt heap pieces i = assemble heap pieces := by
  rw [bufferAt, List.take_of_length_le beyond]

theorem bufferAt_stays (heap : Nat → Answer) (absent : pieces[i]? = none) :
    bufferAt heap pieces (i + 1) = bufferAt heap pieces i := by
  have ended := List.getElem?_eq_none_iff.mp absent
  rw [bufferAt_beyond heap ended, bufferAt_beyond heap (Nat.le_succ_of_le ended)]

theorem allocated_succ (heap : Nat → Answer) (pieces : List Piece) (i : Nat) :
    Allocated heap pieces (i + 1) ↔ Allocated heap pieces i ∨
      ∃ piece, pieces[i]? = some piece ∧ piece.appends ∧ heap i ≠ none := by
  simp only [Allocated, Nat.lt_succ_iff_lt_or_eq, or_and_right, exists_or, exists_eq_left]

theorem bufferAt_spec (heap : Nat → Answer) (pieces : List Piece) (i : Nat) :
    (bufferAt heap pieces i).Valid ∧ (bufferAt heap pieces i).Snug ∧
      ((bufferAt heap pieces i).data.isSome ↔ Allocated heap pieces i) := by
  induction i with
  | zero =>
    refine ⟨Buffer.valid_empty, rfl, iff_of_false Bool.false_ne_true ?_⟩
    rintro ⟨l, less, -⟩
    exact Nat.not_lt_zero l less
  | succ i ih =>
    obtain ⟨valid, snug, allocated⟩ := ih
    cases found : pieces[i]? with
    | none =>
      rw [bufferAt_stays heap found, allocated_succ, found]
      exact ⟨valid, snug, by simpa using allocated⟩
    | some piece =>
      rw [bufferAt_succ found, allocated_succ, found, ← allocated]
      obtain ⟨next, grown⟩ := Buffer.call_snug snug valid (heap i) piece
      exact ⟨(Buffer.call_spec valid (heap i) piece).1, next, by simpa using grown⟩

/-- Whether a piece fits is what `buf_append` tests. -/
theorem fits_iff (heap : Nat → Answer) (pieces : List Piece) (i : Nat) (piece : Piece) :
    Fits heap pieces i (bufferAt heap pieces i).len piece ↔
      (bufferAt heap pieces i).len + piece.bytes.length < (bufferAt heap pieces i).cap := by
  obtain ⟨-, snug, allocated⟩ := bufferAt_spec heap pieces i
  rw [Fits, ← allocated, snug]
  split
  · next some => exact and_iff_right some
  · next null => exact iff_of_false (fun fits => null fits.1) (Nat.not_lt_zero _)

theorem appended_iff (heap : Nat → Answer) (pieces : List Piece) (i : Nat) :
    Appended heap pieces i ↔ Served heap pieces i (bufferAt heap pieces i).len := by
  refine forall₂_congr fun piece found => ?_
  rw [bufferAt_succ found, Buffer.call_added_iff (bufferAt_spec heap pieces i).1, fits_iff]

theorem ignored_iff (heap : Nat → Answer) (pieces : List Piece) (i : Nat) :
    Ignored heap pieces i ↔ Starved heap pieces i (bufferAt heap pieces i).len := by
  rw [Ignored, Starved]
  cases found : pieces[i]? with
  | none =>
    rw [bufferAt_stays heap found]
    exact iff_of_true rfl nofun
  | some piece =>
    rw [bufferAt_succ found, Buffer.call_ignored_iff (bufferAt_spec heap pieces i).1, ← fits_iff]
    exact ⟨fun starved other same => Option.some.inj same ▸ starved,
      fun starved => starved piece rfl⟩

/-- A call appends its piece or does nothing. -/
theorem appended_or_ignored (heap : Nat → Answer) (pieces : List Piece) (i : Nat) :
    Appended heap pieces i ∨ Ignored heap pieces i := by
  rw [appended_iff, ignored_iff]
  by_cases served : Served heap pieces i (bufferAt heap pieces i).len
  · exact .inl served
  · refine .inr fun piece found nonempty => ?_
    by_contra other
    refine served fun piece' found' _ => ?_
    obtain rfl := Option.some.inj (found.symm.trans found')
    rwa [not_and_or, not_not] at other

theorem contents_of_appended (appended : ∀ l < i, Appended heap pieces l) :
    (bufferAt heap pieces i).contents = (pieces.take i).flatMap Piece.bytes := by
  induction i with
  | zero => rfl
  | succ i ih =>
    have before := ih fun l less => appended l (Nat.lt_succ_of_lt less)
    rw [List.take_add_one]
    cases found : pieces[i]? with
    | none =>
      rw [bufferAt_stays heap found, before]
      simp
    | some piece =>
      rw [appended i (Nat.lt_succ_self i) piece found, before]
      simp

theorem len_of_appended (appended : ∀ l < i, Appended heap pieces l) :
    (bufferAt heap pieces i).len = bytesBefore pieces i := by
  rw [bytesBefore, ← contents_of_appended appended]
  exact (bufferAt_spec heap pieces i).1.contents_length.symm

theorem appended_below_iff (heap : Nat → Answer) (pieces : List Piece) (m : Nat) :
    (∀ i < m, Appended heap pieces i) ↔ ∀ i < m, Served heap pieces i (bytesBefore pieces i) := by
  constructor
  · intro appended i less
    rw [← len_of_appended fun l earlier => appended l (earlier.trans less)]
    exact (appended_iff heap pieces i).mp (appended i less)
  · intro served i
    induction i using Nat.strong_induction_on with
    | _ i ih =>
      intro less
      rw [appended_iff, len_of_appended fun l earlier => ih l earlier (earlier.trans less)]
      exact served i less

theorem contents_of_ignored (ignored : ∀ l, m ≤ l → l < i → Ignored heap pieces l) (after : m ≤ i) :
    (bufferAt heap pieces i).contents = (bufferAt heap pieces m).contents := by
  induction i, after using Nat.le_induction with
  | base => rfl
  | succ i after ih =>
    rw [ignored i after (Nat.lt_succ_self i)]
    exact ih fun l reached less => ignored l reached (Nat.lt_succ_of_lt less)

theorem len_of_ignored (ignored : ∀ l, m ≤ l → l < i → Ignored heap pieces l) (after : m ≤ i) :
    (bufferAt heap pieces i).len = (bufferAt heap pieces m).len := by
  have same := congrArg List.length (contents_of_ignored ignored after)
  rwa [(bufferAt_spec heap pieces i).1.contents_length,
    (bufferAt_spec heap pieces m).1.contents_length] at same

theorem ignored_from_iff (heap : Nat → Answer) (pieces : List Piece) (m : Nat) :
    (∀ i, m ≤ i → Ignored heap pieces i) ↔
      ∀ i, m ≤ i → Starved heap pieces i (bufferAt heap pieces m).len := by
  constructor
  · intro ignored i after
    rw [← len_of_ignored (fun l reached _ => ignored l reached) after]
    exact (ignored_iff heap pieces i).mp (ignored i after)
  · intro starved i
    induction i using Nat.strong_induction_on with
    | _ i ih =>
      intro after
      rw [ignored_iff, len_of_ignored (fun l reached less => ih l less reached) after]
      exact starved i after

/-! What is left. -/

theorem contents_of_none_refused (answered : ∀ i, ¬ Refused heap pieces i) :
    (assemble heap pieces).contents = pieces.flatMap Piece.bytes := by
  have appended (i : Nat) : Appended heap pieces i := by
    refine (appended_iff heap pieces i).mpr fun piece found nonempty => ?_
    rw [fits_iff]
    by_contra neither
    obtain ⟨full, refused⟩ := not_or.mp neither
    exact answered i ⟨piece, found, Piece.appends_of_bytes nonempty, by omega, not_not.mp refused⟩
  have all := contents_of_appended fun l (_ : l < pieces.length) => appended l
  rwa [bufferAt_beyond heap (Nat.le_refl _), List.take_length] at all

theorem contents_of_cut (appended : ∀ i < m, Appended heap pieces i)
    (ignored : ∀ i, m ≤ i → Ignored heap pieces i) :
    (assemble heap pieces).contents = (pieces.take m).flatMap Piece.bytes := by
  rw [← bufferAt_beyond heap (Nat.le_add_left pieces.length m),
    contents_of_ignored (fun l reached _ => ignored l reached) (Nat.le_add_right m pieces.length)]
  exact contents_of_appended appended

/-- With memory for all of them the response holds the whole texts, exactly if no line is cut. -/
theorem contents_text_iff (answered : ∀ i, ¬ Refused heap pieces i) :
    (assemble heap pieces).contents = pieces.flatMap Piece.text ↔
      ∀ line, Piece.printf line ∈ pieces → line.length ≤ 1023 := by
  rw [contents_of_none_refused answered]
  constructor
  · intro same line member
    have shorter := flatMap_tight pieces fun piece _ => piece.bytes_prefix.length_le
    have length : line.length ≤ (Piece.printf line).bytes.length :=
      shorter.2 (congrArg List.length same).ge _ member
    exact length.trans (Piece.printf_bytes_length_le line)
  · intro fits
    refine List.flatMap_congr fun piece member => ?_
    cases piece with
    | append bytes => rfl
    | printf line => exact Piece.printf_bytes (fits line member)

/-- The response is cut where memory runs out, exactly if the first refusal is final. -/
theorem assemble_truncates_iff (heap : Nat → Answer) (pieces : List Piece) :
    Truncates heap pieces ↔ RefusedForGood heap pieces := by
  have ends : ∃ n, ∀ i, n ≤ i → Ignored heap pieces i := by
    refine ⟨pieces.length, fun i beyond => ?_⟩
    rw [Ignored, bufferAt_stays heap (List.getElem?_eq_none beyond)]
  have cut := exists_cut_iff (appended_or_ignored heap pieces) ends
  have same (m : Nat) : ((∀ i < m, Appended heap pieces i) ∧ ∀ i, m ≤ i → Ignored heap pieces i) ↔
      (∀ i < m, Served heap pieces i (bytesBefore pieces i)) ∧
        ∀ i, m ≤ i → Starved heap pieces i (bytesBefore pieces m) := by
    rw [← appended_below_iff heap]
    refine and_congr_right fun appended => ?_
    rw [ignored_from_iff, len_of_appended appended]
  rw [exists_congr same] at cut
  refine ⟨fun truncates => cut.mp truncates.last, fun good => ?_⟩
  obtain ⟨m, parts⟩ := good
  obtain ⟨appended, ignored⟩ := (same m).mpr parts
  refine ⟨fun i => (bufferAt_spec heap pieces i).1, contents_of_none_refused, ?_,
    cut.mpr ⟨m, parts⟩⟩
  rw [contents_of_cut appended ignored]
  exact ⟨(pieces.drop m).flatMap Piece.bytes, by
    rw [← List.flatMap_append, List.take_append_drop]⟩

/-- Behind a piece that found no memory, a small one still fits the old block. -/
theorem response_skips_piece : ∃ heap pieces,
    pieces.flatMap Piece.bytes =
      literal "a" ++ List.replicate 1023 'b'.toUInt8 ++ literal "c" ∧
    (assemble heap pieces).contents = literal "ac" ∧ ¬ Truncates heap pieces := by
  refine ⟨fun call => if call = 0 then some fun _ => 0 else none,
    [.append (literal "a"), .append (List.replicate 1023 'b'.toUInt8), .append (literal "c")],
    by decide +kernel, by decide +kernel, fun truncates => ?_⟩
  exact absurd truncates.cut (by decide +kernel)

end SelfDb.Server
