import SelfDb.Binary.LittleEndian
import SelfDb.Binary.Overlay

/-! Records of little-endian fields, given as (width, value) pairs in order.
Decoding at an offset inverts encoding in both directions, so a record is
determined by its bytes and its bytes by its fields. -/
namespace Binary

def record (fields : List (Nat × Int)) : List UInt8 :=
  fields.flatMap fun field => leBytes field.1 field.2

def widths (fields : List (Nat × Int)) : List Nat := fields.map Prod.fst

def Representable (fields : List (Nat × Int)) : Prop :=
  ∀ field ∈ fields, 0 ≤ field.2 ∧ field.2 < 256 ^ field.1

instance (fields : List (Nat × Int)) : Decidable (Representable fields) :=
  inferInstanceAs (Decidable (∀ _ ∈ fields, _))

def readField (data : List UInt8) (start width : Nat) : Int := leValue (slice data start width)

def readRecord : List Nat → List UInt8 → Nat → List (Nat × Int)
  | [], _, _ => []
  | width :: rest, data, start =>
      (width, readField data start width) :: readRecord rest data (start + width)

@[simp] theorem record_length (fields : List (Nat × Int)) :
    (record fields).length = (widths fields).sum := by
  simp only [record, widths, List.length_flatMap, leBytes_length]

theorem slice_add (data : List α) (start first second : Nat) :
    slice data start (first + second) =
      slice data start first ++ slice data (start + first) second := by
  simp only [slice, List.take_add, List.drop_drop]

theorem readField_nonneg (data : List UInt8) (start width : Nat) :
    0 ≤ readField data start width := leValue_nonneg _

theorem readField_lt {data : List UInt8} {start width : Nat}
    (inside : start + width ≤ data.length) :
    readField data start width < 256 ^ width := by
  have bound := leValue_lt (slice data start width)
  rwa [slice_length, Nat.min_eq_left (by omega)] at bound

theorem leBytes_readField {data : List UInt8} {start width : Nat}
    (inside : start + width ≤ data.length) :
    leBytes width (readField data start width) = slice data start width := by
  have bytes := leBytes_leValue (slice data start width)
  rwa [slice_length, Nat.min_eq_left (by omega)] at bytes

/-- Two fields of one width are equal exactly when their bytes are. -/
theorem readField_eq_iff {a b : List UInt8} {i j width : Nat}
    (insideA : i + width ≤ a.length) (insideB : j + width ≤ b.length) :
    readField a i width = readField b j width ↔ ∀ k < width, a[i + k]? = b[j + k]? := by
  constructor
  · intro same k hk
    have bytes : slice a i width = slice b j width := by
      rw [← leBytes_readField insideA, ← leBytes_readField insideB, same]
    have position := congrArg (·[k]?) bytes
    simpa only [slice_get, if_pos hk] using position
  · intro same
    have bytes : slice a i width = slice b j width := by
      apply List.ext_getElem?
      intro k
      simp only [slice_get]
      split
      · exact same k ‹_›
      · rfl
    simp only [readField, bytes]

theorem record_readRecord {data : List UInt8} {start : Nat} {ws : List Nat}
    (inside : start + ws.sum ≤ data.length) :
    record (readRecord ws data start) = slice data start ws.sum := by
  induction ws generalizing start with
  | nil => simp [readRecord, record, slice]
  | cons width rest ih =>
    simp only [List.sum_cons] at inside
    have head : leBytes width (readField data start width) = slice data start width :=
      leBytes_readField (by omega)
    rw [readRecord, record, List.flatMap_cons, head, List.sum_cons, slice_add,
      ← ih (by omega), record]

theorem readRecord_representable {data : List UInt8} {start : Nat} {ws : List Nat}
    (inside : start + ws.sum ≤ data.length) : Representable (readRecord ws data start) := by
  induction ws generalizing start with
  | nil => simp [readRecord, Representable]
  | cons width rest ih =>
    simp only [List.sum_cons] at inside
    intro field member
    rw [readRecord, List.mem_cons] at member
    rcases member with rfl | member
    · exact ⟨readField_nonneg _ _ _, readField_lt (by omega)⟩
    · exact ih (by omega) field member

/-- A region that holds an encoded record decodes to it. -/
theorem readRecord_of_slice {data : List UInt8} {start : Nat} {fields : List (Nat × Int)}
    (representable : Representable fields)
    (holds : slice data start (widths fields).sum = record fields) :
    readRecord (widths fields) data start = fields := by
  induction fields generalizing start with
  | nil => rfl
  | cons field rest ih =>
    obtain ⟨low, high⟩ := representable field List.mem_cons_self
    have parts : slice data start field.1 = leBytes field.1 field.2 ∧
        slice data (start + field.1) (widths rest).sum = record rest := by
      have total := congrArg List.length holds
      simp only [slice_length, record_length, widths, List.map_cons, List.sum_cons] at total
      rw [widths, List.map_cons, List.sum_cons, slice_add, record, List.flatMap_cons] at holds
      apply List.append_inj holds
      simp only [slice_length, leBytes_length]
      omega
    have head : readField data start field.1 = field.2 := by
      rw [readField, parts.1, leValue_leBytes_of_lt low high]
    have tail := ih (fun f member => representable f (List.mem_cons_of_mem _ member)) parts.2
    rw [widths, List.map_cons, readRecord, head]
    exact congrArg (field :: ·) tail

end Binary
