import SelfDb.Binary.Overlay
import SelfDb.Elf
import SelfDb.Scanning.CString

/-! `struct buffer` of `examples/server/server.c`: a response that grows as it is assembled. -/
namespace SelfDb.Server
open Binary CString

/-- `data` is the block that is allocated, NULL at first. -/
structure Buffer where
  data : Option Bytes
  len : Nat
  cap : Nat

/-- What `realloc` answers: NULL, or a block with bytes of any kind behind the old ones. -/
abbrev Answer := Option (Nat → UInt8)

def realloc (answer : Answer) (old : Option Bytes) (want : Nat) : Option Bytes :=
  answer.map fun fresh =>
    let kept := (old.getD []).take want
    kept ++ (List.range (want - kept.length)).map fresh

/-- `while (want < need) want *= 2`, `need` times at most. -/
def doubled (need : Nat) : Nat → Nat → Nat
  | 0, want => want
  | fuel + 1, want => if want < need then doubled need fuel (want * 2) else want

namespace Buffer

/-- `{ 0 }` -/
def empty : Buffer := ⟨none, 0, 0⟩

/-- The `memcpy`, and the NUL behind it. -/
def store (b : Buffer) (bytes : Bytes) : Buffer where
  data := b.data.map fun block => overwrite (overwrite block ⟨b.len, bytes⟩)
    ⟨b.len + bytes.length, [0]⟩
  len := b.len + bytes.length
  cap := b.cap

/-- `buf_append`. -/
def append (answer : Answer) (b : Buffer) (bytes : Bytes) : Buffer :=
  let need := b.len + bytes.length + 1
  if need > b.cap then
    let want := doubled need need (if b.cap ≠ 0 then b.cap else 1024)
    match realloc answer b.data want with
    | none => b
    | some grown => store ⟨some grown, b.len, want⟩ bytes
  else store b bytes

/-- `buf_printf` of a formatted line, which is cut to the 1023 characters of `line`. -/
def printf (answer : Answer) (b : Buffer) (line : Bytes) : Buffer :=
  if 0 < formattedLength line then append answer b (line.take 1023) else b

/-- The bytes that have been appended. -/
def contents (b : Buffer) : Bytes := (b.data.getD []).take b.len

/-- The block has `cap` bytes, and there is a NUL behind the contents. -/
structure Valid (b : Buffer) : Prop where
  null : b.data = none → b.len = 0 ∧ b.cap = 0
  block : ∀ block, b.data = some block → block.length = b.cap ∧ b.len < b.cap ∧
    block[b.len]? = some 0

end Buffer

/-- A call on the buffer. -/
inductive Piece where
  | append (bytes : Bytes)
  | printf (line : Bytes)

def Piece.bytes : Piece → Bytes
  | append bytes => bytes
  | printf line => if 0 < formattedLength line then line.take 1023 else []

/-- The bytes before any cut. -/
def Piece.text : Piece → Bytes
  | append bytes => bytes
  | printf line => line

def Buffer.call (answer : Answer) (b : Buffer) : Piece → Buffer
  | .append bytes => b.append answer bytes
  | .printf line => b.printf answer line

/-- The buffer after some calls; the answers of `realloc` are given by the number of the call. -/
def assembleFrom (heap : Nat → Answer) (first : Nat) (b : Buffer) : List Piece → Buffer
  | [] => b
  | piece :: rest => assembleFrom heap (first + 1) (b.call (heap first) piece) rest

def assemble (heap : Nat → Answer) (pieces : List Piece) : Buffer :=
  assembleFrom heap 0 .empty pieces

/-! The cut. -/

theorem Piece.bytes_prefix (piece : Piece) : piece.bytes <+: piece.text := by
  cases piece with
  | append bytes => exact List.prefix_rfl
  | printf line =>
    rw [bytes]
    split
    · exact List.take_prefix _ _
    · exact List.nil_prefix

theorem Piece.printf_bytes_length_le (line : Bytes) : (printf line).bytes.length ≤ 1023 := by
  rw [bytes]
  split
  · exact List.length_take_le _ _
  · exact Nat.zero_le _

/-- A line of at most 1023 characters is appended whole. -/
theorem Piece.printf_bytes (fits : line.length ≤ 1023) : (printf line).bytes = line := by
  have length : formattedLength line = line.length := if_pos (by omega)
  rw [bytes, length]
  split
  · exact List.take_of_length_le fits
  · next empty => exact (List.length_eq_zero_iff.mp (by omega)).symm

/-! One call. -/

theorem le_doubled (need want : Nat) (positive : 0 < want) : need ≤ doubled need need want := by
  have enough (fuel want : Nat) (reaches : need ≤ want * 2 ^ fuel) :
      need ≤ doubled need fuel want := by
    induction fuel generalizing want with
    | zero => simpa [doubled] using reaches
    | succ fuel ih =>
      rw [doubled]
      split
      · exact ih (want * 2) (by rwa [Nat.mul_assoc, ← Nat.pow_succ'])
      · omega
  refine enough need want ?_
  calc need ≤ 2 ^ need := Nat.lt_two_pow_self.le
    _ ≤ want * 2 ^ need := Nat.le_mul_of_pos_left _ positive

theorem realloc_eq_some {old : Option Bytes} (ran : realloc answer old want = some grown)
    (fits : (old.getD []).length ≤ want) : grown.length = want ∧ old.getD [] <+: grown := by
  rw [realloc, Option.map_eq_some_iff] at ran
  obtain ⟨fresh, -, rfl⟩ := ran
  rw [List.take_of_length_le fits]
  refine ⟨?_, List.prefix_append _ _⟩
  rw [List.length_append, List.length_map, List.length_range]
  omega

namespace Buffer

theorem valid_empty : empty.Valid := ⟨fun _ => ⟨rfl, rfl⟩, nofun⟩

theorem store_eq {len cap : Nat} {block bytes : Bytes} (length : block.length = cap)
    (room : len + bytes.length < cap) : store ⟨some block, len, cap⟩ bytes =
      ⟨some (block.take len ++ bytes ++ 0 :: block.drop (len + bytes.length + 1)),
        len + bytes.length, cap⟩ := by
  have front : (block.take len ++ bytes).length = len + bytes.length := by
    rw [List.length_append, List.length_take, Nat.min_eq_left (by omega)]
  have written : overwrite (overwrite block ⟨len, bytes⟩) ⟨len + bytes.length, [0]⟩ =
      block.take len ++ bytes ++ 0 :: block.drop (len + bytes.length + 1) := by
    simp only [overwrite, Write.stop_mk, List.length_singleton]
    rw [List.take_left' front, List.append_assoc (block.take len ++ bytes), List.singleton_append,
      List.drop_append, List.drop_of_length_le (by omega), front, List.nil_append, List.drop_drop]
    congr 3
    omega
  rw [store, Option.map_some, written]

theorem store_spec {len cap : Nat} {block : Bytes} (length : block.length = cap) (bytes : Bytes)
    (room : len + bytes.length < cap) :
    (store ⟨some block, len, cap⟩ bytes).Valid ∧
      (store ⟨some block, len, cap⟩ bytes).contents = block.take len ++ bytes := by
  have front : (block.take len ++ bytes).length = len + bytes.length := by
    rw [List.length_append, List.length_take, Nat.min_eq_left (by omega)]
  rw [store_eq length room]
  refine ⟨⟨nofun, fun after same => ?_⟩, ?_⟩
  · cases same
    refine ⟨?_, room, ?_⟩
    · change _ = cap
      rw [List.length_append, front, List.length_cons, List.length_drop, length]
      omega
    · change (block.take len ++ bytes ++ 0 :: _)[len + bytes.length]? = _
      rw [← front, List.getElem?_append_right (Nat.le_refl _), Nat.sub_self,
        List.getElem?_cons_zero]
  · rw [contents, Option.getD_some, List.take_left' front]

/-- The bytes are appended, or there is no memory and nothing happens. -/
theorem append_spec (valid : Valid b) (answer : Answer) (bytes : Bytes) :
    (append answer b bytes).Valid ∧
      ((append answer b bytes).contents = b.contents ++ bytes ∨ answer = none ∧
        append answer b bytes = b) := by
  obtain ⟨data, len, cap⟩ := b
  rw [append]
  simp only
  split
  · next grows =>
    split
    · next refused =>
      exact ⟨valid, .inr ⟨by simpa [realloc] using refused, rfl⟩⟩
    · next grown ran =>
      -- At least as large as the old block, and large enough.
      have enough := le_doubled (len + bytes.length + 1) (if cap ≠ 0 then cap else 1024)
        (by split <;> omega)
      generalize doubled _ _ _ = want at ran enough ⊢
      have old : (data.getD []).length = cap := by
        cases data with
        | none => exact (valid.null rfl).2.symm
        | some block => exact (valid.block block rfl).1
      obtain ⟨length, front⟩ := realloc_eq_some ran (by omega)
      have room : len + bytes.length < want := by omega
      obtain ⟨stored, same⟩ := store_spec length bytes room
      refine ⟨stored, .inl ?_⟩
      have inside : len ≤ (data.getD []).length := by
        cases data with
        | none => exact (valid.null rfl).1.le
        | some block => exact old ▸ (valid.block block rfl).2.1.le
      rw [same, contents, List.prefix_iff_eq_take.mp front, List.take_take, Nat.min_eq_left inside]
  · next room =>
    cases data with
    | none =>
      have none := valid.null rfl
      simp only at none
      omega
    | some block =>
      obtain ⟨stored, same⟩ := store_spec (valid.block block rfl).1 bytes
        (by omega : len + bytes.length < cap)
      exact ⟨stored, .inl same⟩

theorem call_spec (valid : Valid b) (answer : Answer) (piece : Piece) :
    (b.call answer piece).Valid ∧
      ((b.call answer piece).contents = b.contents ++ piece.bytes ∨ answer = none ∧
        b.call answer piece = b) := by
  cases piece with
  | append bytes => exact append_spec valid answer bytes
  | printf line =>
    rw [call, printf, Piece.bytes]
    split
    · exact append_spec valid answer _
    · exact ⟨valid, .inl (List.append_nil _).symm⟩

end Buffer

/-! All calls. -/

theorem assembleFrom_spec (answers : ∀ call, heap call ≠ none) (pieces : List Piece) (first : Nat)
    {b : Buffer} (valid : b.Valid) : (assembleFrom heap first b pieces).Valid ∧
      (assembleFrom heap first b pieces).contents = b.contents ++ pieces.flatMap Piece.bytes := by
  induction pieces generalizing first b with
  | nil => exact ⟨valid, (List.append_nil _).symm⟩
  | cons piece rest ih =>
    obtain ⟨kept, same | ⟨refused, -⟩⟩ := Buffer.call_spec valid (heap first) piece
    · obtain ⟨done, whole⟩ := ih (first + 1) kept
      refine ⟨done, ?_⟩
      rw [assembleFrom, whole, same, List.flatMap_cons, List.append_assoc]
    · exact absurd refused (answers first)

/-- With memory for all of them, the response is the pieces in their order. -/
theorem assemble_contents (answers : ∀ call, heap call ≠ none) (pieces : List Piece) :
    (assemble heap pieces).Valid ∧ (assemble heap pieces).contents = pieces.flatMap Piece.bytes :=
  assembleFrom_spec answers pieces 0 Buffer.valid_empty

end SelfDb.Server
