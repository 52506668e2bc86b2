import Mathlib.Data.List.Basic

/-! Buffers filled by overlapping writes. Every write keeps the length of the
buffer, so the final value at a position is the value of the last write that
covers it, whatever the order in which ranges overlap. -/
namespace Binary
variable {α : Type}

def slice (buf : List α) (start count : Nat) : List α := (buf.drop start).take count

@[simp] theorem slice_length (buf : List α) (start count : Nat) :
    (slice buf start count).length = min count (buf.length - start) := by
  simp [slice]

theorem slice_get (buf : List α) (start count p : Nat) :
    (slice buf start count)[p]? = if p < count then buf[start + p]? else none := by
  simp only [slice, List.getElem?_take, List.getElem?_drop]

theorem slice_slice (buf : List α) (first inner : Nat) (inside : second + inner ≤ outer) :
    slice (slice buf first outer) second inner = slice buf (first + second) inner := by
  apply List.ext_getElem?
  intro k
  simp only [slice_get]
  split
  · rw [if_pos (by omega), Nat.add_assoc]
  · rfl

theorem slice_eq_iff (buf values : List α) (start : Nat) :
    slice buf start values.length = values ↔
      ∀ k < values.length, buf[start + k]? = values[k]? := by
  constructor
  · intro same k hk
    rw [← same, slice_get, if_pos hk]
  · intro same
    apply List.ext_getElem?
    intro k
    rw [slice_get]
    split
    · exact same k ‹_›
    · exact (List.getElem?_eq_none (by omega)).symm

/-- An indexed property of a list whose numbering starts at `n`. -/
theorem forall_getElem?_cons {P : Nat → α → Prop} (n : Nat) (a : α) (as : List α) :
    (∀ i x, (a :: as)[i]? = some x → P (n + i) x) ↔ P n a ∧ ∀ i x, as[i]? = some x →
    P (n + 1 + i) x := by
  constructor
  · intro all
    refine ⟨all 0 a rfl, ?_⟩
    intro i x found
    rw [show n + 1 + i = n + (i + 1) by omega]
    exact all (i + 1) x found
  · rintro ⟨head, tail⟩ i x found
    cases i with
    | zero => exact Option.some.inj found ▸ head
    | succ i =>
      rw [show n + (i + 1) = n + 1 + i by omega]
      exact tail i x found

/-- The same for the positions before a bound. -/
theorem forall_before_cons {P : Nat → α → Prop} (n i : Nat) (a : α) (as : List α) :
    (∀ j x, j < i + 1 → (a :: as)[j]? = some x → P (n + j) x) ↔
      P n a ∧ ∀ j x, j < i → as[j]? = some x → P (n + 1 + j) x := by
  constructor
  · intro all
    refine ⟨all 0 a (Nat.succ_pos i) rfl, ?_⟩
    intro j x before found
    rw [Nat.add_assoc, Nat.add_comm 1]
    exact all (j + 1) x (Nat.succ_lt_succ before) found
  · rintro ⟨head, tail⟩ j x before found
    cases j with
    | zero => exact Option.some.inj found ▸ head
    | succ j =>
      rw [Nat.add_comm j, ← Nat.add_assoc]
      exact tail j x (Nat.lt_of_succ_lt_succ before) found

structure Write (α : Type) where
  offset : Nat
  content : List α

namespace Write

def stop (w : Write α) : Nat := w.offset + w.content.length

@[simp] theorem stop_mk (offset : Nat) (content : List α) :
    (⟨offset, content⟩ : Write α).stop = offset + content.length := rfl

/-- What the write leaves at a position, if it covers the position. -/
def byteAt (w : Write α) (p : Nat) : Option α :=
  if w.offset ≤ p then w.content[p - w.offset]? else none

theorem byteAt_add (w : Write α) (k : Nat) : w.byteAt (w.offset + k) = w.content[k]? := by
  simp [byteAt]

theorem byteAt_zero (content : List α) (p : Nat) :
    (⟨0, content⟩ : Write α).byteAt p = content[p]? := by
  simp [byteAt]

theorem byteAt_eq_none_iff (w : Write α) (p : Nat) :
    w.byteAt p = none ↔ p < w.offset ∨ w.stop ≤ p := by
  simp only [byteAt, stop]
  split
  · rw [List.getElem?_eq_none_iff]
    omega
  · simp only [true_iff]
    omega

theorem byteAt_eq_some_iff (w : Write α) (p : Nat) (b : α) :
    w.byteAt p = some b ↔ ∃ k, p = w.offset + k ∧ w.content[k]? = some b := by
  constructor
  · intro found
    simp only [byteAt] at found
    split at found
    · exact ⟨p - w.offset, by omega, found⟩
    · cases found
  · rintro ⟨k, rfl, found⟩
    rw [byteAt_add, found]

end Write

def overwrite (buf : List α) (w : Write α) : List α :=
  buf.take w.offset ++ w.content ++ buf.drop w.stop

/-- An empty write changes nothing wherever it is placed. -/
def Write.FitsIn (w : Write α) (size : Nat) : Prop := w.content = [] ∨ w.stop ≤ size

def Fits (size : Nat) (ws : List (Write α)) : Prop := ∀ w ∈ ws, w.FitsIn size

def overwriteAll (buf : List α) (ws : List (Write α)) : List α := ws.foldl overwrite buf

theorem overwrite_empty {buf : List α} {w : Write α} (empty : w.content = []) :
    overwrite buf w = buf := by
  simp [overwrite, Write.stop, empty]

theorem overwrite_length {buf : List α} {w : Write α} (fits : w.FitsIn buf.length) :
    (overwrite buf w).length = buf.length := by
  rcases fits with empty | fits
  · rw [overwrite_empty empty]
  · simp only [overwrite, List.length_append, List.length_take, List.length_drop]
    simp only [Write.stop] at fits ⊢
    omega

theorem overwrite_get {buf : List α} {w : Write α} (fits : w.FitsIn buf.length) (p : Nat) :
    (overwrite buf w)[p]? = (w.byteAt p).or buf[p]? := by
  rcases fits with empty | fits
  · have outside : w.byteAt p = none := by simp [Write.byteAt, empty]
    rw [overwrite_empty empty, outside, Option.none_or]
  simp only [Write.stop] at fits
  by_cases before : p < w.offset
  · have outside : w.byteAt p = none := (w.byteAt_eq_none_iff p).mpr (Or.inl before)
    rw [outside, Option.none_or, overwrite, List.append_assoc,
      List.getElem?_append_left (by simp only [List.length_take]; omega),
      List.getElem?_take_of_lt before]
  · have front : (buf.take w.offset).length = w.offset := by
      simp only [List.length_take]
      omega
    rw [overwrite, List.append_assoc, List.getElem?_append_right (by omega), front]
    by_cases within : p < w.stop
    · have inside : p - w.offset < w.content.length := by
        simp only [Write.stop] at within
        omega
      rw [List.getElem?_append_left inside, Write.byteAt, if_pos (by omega),
        List.getElem?_eq_getElem inside, Option.some_or]
    · have outside : w.byteAt p = none := (w.byteAt_eq_none_iff p).mpr (Or.inr (by omega))
      simp only [Write.stop] at within
      rw [outside, Option.none_or, List.getElem?_append_right (by omega), List.getElem?_drop]
      congr 1
      simp only [Write.stop]
      omega

/-- The value the last covering write of the list leaves at a position. -/
def lastByte : List (Write α) → Nat → Option α
  | [], _ => none
  | w :: ws, p => (lastByte ws p).or (w.byteAt p)

theorem lastByte_append (first second : List (Write α)) (p : Nat) :
    lastByte (first ++ second) p = (lastByte second p).or (lastByte first p) := by
  induction first with
  | nil => simp [lastByte]
  | cons w ws ih => simp only [List.cons_append, lastByte, ih, Option.or_assoc]

theorem lastByte_eq_none_iff (ws : List (Write α)) (p : Nat) :
    lastByte ws p = none ↔ ∀ w ∈ ws, w.byteAt p = none := by
  induction ws with
  | nil => simp [lastByte]
  | cons w ws ih => simp [lastByte, ih, and_comm]

/-- Writes that agree wherever they cover a position fix its final value. -/
theorem lastByte_agree {ws : List (Write α)} {p : Nat} {b : α}
    (agree : ∀ w ∈ ws, ∀ c, w.byteAt p = some c → c = b)
    (covered : ∃ w ∈ ws, w.byteAt p ≠ none) : lastByte ws p = some b := by
  have value : ∀ {us : List (Write α)}, us ⊆ ws → ∀ c, lastByte us p = some c → c = b := by
    intro us
    induction us with
    | nil => simp [lastByte]
    | cons u us ih =>
      intro included c found
      rw [lastByte, Option.or_eq_some_iff] at found
      rcases found with later | ⟨_, here⟩
      · exact ih (fun _ member => included (List.mem_cons_of_mem _ member)) c later
      · exact agree u (included List.mem_cons_self) c here
  cases found : lastByte ws p with
  | none =>
    obtain ⟨w, member, covers⟩ := covered
    exact absurd ((lastByte_eq_none_iff ws p).mp found w member) covers
  | some c => rw [value (List.Subset.refl ws) c found]

theorem overwriteAll_length {buf : List α} {ws : List (Write α)} (fits : Fits buf.length ws) :
    (overwriteAll buf ws).length = buf.length := by
  induction ws generalizing buf with
  | nil => rfl
  | cons w ws ih =>
    have head := overwrite_length (fits w List.mem_cons_self)
    have tail : Fits (overwrite buf w).length ws := by
      rw [head]
      exact fun u member => fits u (List.mem_cons_of_mem _ member)
    exact (ih tail).trans head

/-- The last-writer rule. -/
theorem overwriteAll_get {buf : List α} {ws : List (Write α)} (fits : Fits buf.length ws)
    (p : Nat) :
    (overwriteAll buf ws)[p]? = (lastByte ws p).or buf[p]? := by
  induction ws generalizing buf with
  | nil => simp [overwriteAll, lastByte]
  | cons w ws ih =>
    have first := fits w List.mem_cons_self
    have tail : Fits (overwrite buf w).length ws := by
      rw [overwrite_length first]
      exact fun u member => fits u (List.mem_cons_of_mem _ member)
    rw [show overwriteAll buf (w :: ws) = overwriteAll (overwrite buf w) ws from rfl,
      ih tail, overwrite_get first, lastByte, Option.or_assoc]

/-- Writes that fit into the front of a buffer leave the back as it is. -/
theorem overwriteAll_append {front back : List α} {ws : List (Write α)}
    (fits : Fits front.length ws) :
    overwriteAll (front ++ back) ws = overwriteAll front ws ++ back := by
  have whole : Fits (front ++ back).length ws := fun w member =>
    (fits w member).imp_right fun inside => by
      rw [List.length_append]
      omega
  apply List.ext_getElem?
  intro p
  rw [overwriteAll_get whole]
  have length := overwriteAll_length fits
  by_cases early : p < front.length
  · rw [List.getElem?_append_left early, List.getElem?_append_left (by omega),
      overwriteAll_get fits]
  · have late : lastByte ws p = none := by
      rw [lastByte_eq_none_iff]
      intro w member
      rw [Write.byteAt_eq_none_iff]
      rcases fits w member with empty | inside
      · simp only [Write.stop, empty, List.length_nil]
        omega
      · omega
    rw [late, Option.none_or, List.getElem?_append_right (by omega),
      List.getElem?_append_right (by omega), length]

/-- The index of the last covering write, with the value it leaves. -/
def lastCover : List (Write α) → Nat → Option (Nat × α)
  | [], _ => none
  | w :: ws, p =>
    match lastCover ws p with
    | some (i, b) => some (i + 1, b)
    | none => (w.byteAt p).map fun b => (0, b)

theorem lastCover_value (ws : List (Write α)) (p : Nat) :
    (lastCover ws p).map Prod.snd = lastByte ws p := by
  induction ws with
  | nil => rfl
  | cons w ws ih =>
    rw [lastCover, lastByte, ← ih]
    cases lastCover ws p with
    | none => cases w.byteAt p <;> rfl
    | some found => rfl

theorem lastCover_eq_none_iff (ws : List (Write α)) (p : Nat) :
    lastCover ws p = none ↔ ∀ w ∈ ws, w.byteAt p = none := by
  rw [← lastByte_eq_none_iff, ← lastCover_value, Option.map_eq_none_iff]

theorem lastCover_eq_some_iff (ws : List (Write α)) (p i : Nat) (b : α) :
    lastCover ws p = some (i, b) ↔
      (∃ w, ws[i]? = some w ∧ w.byteAt p = some b) ∧
        ∀ j w, i < j → ws[j]? = some w → w.byteAt p = none := by
  induction ws generalizing i with
  | nil => simp [lastCover]
  | cons w ws ih =>
    cases i with
    | zero =>
      have head : lastCover (w :: ws) p = some (0, b) ↔
          lastCover ws p = none ∧ w.byteAt p = some b := by
        cases found : lastCover ws p <;> simp [lastCover, found]
      rw [head, lastCover_eq_none_iff]
      simp only [List.getElem?_cons_zero, Option.some.injEq, exists_eq_left']
      constructor
      · rintro ⟨later, covers⟩
        refine ⟨covers, ?_⟩
        intro j u positive atJ
        obtain ⟨j, rfl⟩ := Nat.exists_eq_succ_of_ne_zero (by omega : j ≠ 0)
        exact later u (List.mem_of_getElem? (by simpa using atJ))
      · rintro ⟨covers, later⟩
        refine ⟨?_, covers⟩
        intro u member
        obtain ⟨j, atJ⟩ := List.mem_iff_getElem?.mp member
        exact later (j + 1) u (by omega) (by simpa using atJ)
    | succ i =>
      have tail : lastCover (w :: ws) p = some (i + 1, b) ↔ lastCover ws p = some (i, b) := by
        cases found : lastCover ws p <;> simp [lastCover, found, Prod.ext_iff]
      rw [tail, ih]
      simp only [List.getElem?_cons_succ]
      constructor
      · rintro ⟨covers, later⟩
        refine ⟨covers, ?_⟩
        intro j u above atJ
        obtain ⟨j, rfl⟩ := Nat.exists_eq_succ_of_ne_zero (by omega : j ≠ 0)
        exact later j u (by omega) (by simpa using atJ)
      · rintro ⟨covers, later⟩
        refine ⟨covers, ?_⟩
        intro j u above atJ
        exact later (j + 1) u (by omega) (by simpa using atJ)

/-- Two alternating streams of writes, `first` before `second` at each index. -/
def alternate (pairs : List (Write α × Write α)) : List (Write α) :=
  pairs.flatMap fun pair => [pair.1, pair.2]

/-- Of two covering writes from alternating streams, the one from the second
stream wins unless its index is smaller. -/
def laterOf : Option (Nat × α) → Option (Nat × α) → Option α
  | some (i, a), some (j, b) => if i ≤ j then some b else some a
  | first, none => first.map Prod.snd
  | none, second => second.map Prod.snd

theorem lastByte_alternate (pairs : List (Write α × Write α)) (p : Nat) :
    lastByte (alternate pairs) p =
      laterOf (lastCover (pairs.map Prod.fst) p) (lastCover (pairs.map Prod.snd) p) := by
  induction pairs with
  | nil => rfl
  | cons pair pairs ih =>
    rw [show alternate (pair :: pairs) = pair.1 :: pair.2 :: alternate pairs from rfl]
    simp only [lastByte, ih, List.map_cons, lastCover]
    cases lastCover (pairs.map Prod.fst) p <;> cases lastCover (pairs.map Prod.snd) p <;>
      cases pair.1.byteAt p <;> cases pair.2.byteAt p <;> simp [laterOf]
    all_goals split <;> rfl

/-- A write of the second stream wins exactly if it comes at index `i` or later. -/
theorem laterOf_drop (ws : List (Write α)) (i p : Nat) (a : α) :
    laterOf (some (i, a)) (lastCover ws p) = some ((lastByte (ws.drop i) p).getD a) := by
  cases cover : lastCover ws p with
  | none =>
    have none := (lastCover_eq_none_iff ws p).mp cover
    have later : lastByte (ws.drop i) p = .none :=
      (lastByte_eq_none_iff _ p).mpr fun w member => none w (List.mem_of_mem_drop member)
    rw [later]
    rfl
  | some found =>
    obtain ⟨j, b⟩ := found
    obtain ⟨⟨w, atJ, covers⟩, after⟩ := (lastCover_eq_some_iff ws p j b).mp cover
    rw [laterOf]
    split
    · have cover : lastCover (ws.drop i) p = some (j - i, b) := by
        rw [lastCover_eq_some_iff]
        refine ⟨⟨w, ?_, covers⟩, fun k u above atK => ?_⟩
        · rw [List.getElem?_drop, Nat.add_sub_cancel' ‹_›, atJ]
        · rw [List.getElem?_drop] at atK
          exact after (i + k) u (by omega) atK
      rw [← lastCover_value, cover]
      rfl
    · have later : lastByte (ws.drop i) p = none := by
        rw [lastByte_eq_none_iff]
        intro u member
        obtain ⟨k, atK⟩ := List.mem_iff_getElem?.mp member
        rw [List.getElem?_drop] at atK
        exact after (i + k) u (by omega) atK
      rw [later]
      rfl

/-! Records of one width laid side by side, as in a header table. -/

def strided (base width : Nat) : Nat → List (List α) → List (Write α)
  | _, [] => []
  | i, record :: rest => ⟨base + i * width, record⟩ :: strided base width (i + 1) rest

theorem strided_get (base width i : Nat) (records : List (List α)) (j : Nat) :
    (strided base width i records)[j]? =
      records[j]?.map fun record => ⟨base + (i + j) * width, record⟩ := by
  induction records generalizing i j with
  | nil => rfl
  | cons record rest ih =>
    cases j with
    | zero => rfl
    | succ j =>
      rw [strided, List.getElem?_cons_succ, ih, List.getElem?_cons_succ,
        show i + 1 + j = i + (j + 1) by omega]

theorem strided_outside (base width : Nat) {records : List (List α)}
    (sizes : ∀ record ∈ records, record.length = width) {p : Nat}
    (outside : p < base ∨ base + records.length * width ≤ p) :
    lastCover (strided base width 0 records) p = none := by
  rw [lastCover_eq_none_iff]
  intro w member
  obtain ⟨j, found⟩ := List.mem_iff_getElem?.mp member
  rw [strided_get, Option.map_eq_some_iff] at found
  obtain ⟨record, atJ, rfl⟩ := found
  have inside := (List.getElem?_eq_some_iff.mp atJ).1
  have step : (j + 1) * width ≤ records.length * width := Nat.mul_le_mul_right width inside
  rw [Write.byteAt_eq_none_iff, Write.stop, sizes record (List.mem_of_getElem? atJ)]
  simp only [Nat.zero_add, Nat.succ_mul] at step ⊢
  omega

theorem strided_inside (base width : Nat) {records : List (List α)} {i k : Nat} {record : List α}
    {b : α} (found : records[i]? = some record) (value : record[k]? = some b) (small : k < width) :
    lastCover (strided base width 0 records) (base + i * width + k) = some (i, b) := by
  rw [lastCover_eq_some_iff]
  constructor
  · refine ⟨⟨base + i * width, record⟩, ?_, ?_⟩
    · rw [strided_get, found, Nat.zero_add]
      rfl
    · rw [Write.byteAt_add ⟨base + i * width, record⟩ k]
      exact value
  · intro j w above atJ
    rw [strided_get, Option.map_eq_some_iff] at atJ
    obtain ⟨later, _, rfl⟩ := atJ
    have step : (i + 1) * width ≤ j * width := Nat.mul_le_mul_right width above
    rw [Write.byteAt_eq_none_iff]
    simp only [Nat.zero_add, Nat.succ_mul] at step ⊢
    omega

end Binary
