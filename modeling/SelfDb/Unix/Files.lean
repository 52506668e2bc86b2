import Mathlib.Algebra.BigOperators.Group.List.Basic
import Mathlib.Algebra.Order.Ring.Nat
import Mathlib.Logic.Function.Basic

/-! Regular files behind descriptors, and the loop that writes a whole buffer to one of them. The
kernel may write less than it is asked to. -/
namespace Unix

structure OpenFile where
  content : List UInt8
  position : Nat
  deriving DecidableEq

/-- The descriptors of a process. -/
abbrev Descriptors := Nat → Option OpenFile

namespace OpenFile

def empty : OpenFile := ⟨[], 0⟩

/-- The bytes go over those at the position; a gap in front of it is filled with zeros. -/
def write (file : OpenFile) (bytes : List UInt8) : OpenFile :=
  let front := file.content.take file.position
  ⟨front ++ List.replicate (file.position - front.length) 0 ++ bytes ++
    file.content.drop (file.position + bytes.length), file.position + bytes.length⟩

/-- `lseek(fd, 0, SEEK_SET)`. -/
def rewind (file : OpenFile) : OpenFile := { file with position := 0 }

theorem write_end {file : OpenFile} (last : file.position = file.content.length)
    (bytes : List UInt8) :
    file.write bytes = ⟨file.content ++ bytes, file.content.length + bytes.length⟩ := by
  rw [write, last, List.take_length, Nat.sub_self, List.drop_eq_nil_of_le (Nat.le_add_right _ _)]
  simp only [List.replicate_zero, List.append_nil]

end OpenFile

/-- How the loop ends. At the end of the answers it is still in a call. -/
inductive Written where
  | done (file : OpenFile)
  | failed (file : OpenFile)
  | waiting (file : OpenFile)

/-- `while (off < len) { w = write(fd, buf + off, len - off); if (w < 0) fail; off += w; }`.
The answers are those of the kernel, `none` for -1; it takes no more than it is given. -/
def writeLoop (buf : List UInt8) : List (Option Nat) → Nat → OpenFile → Written
  | [], off, file => if off < buf.length then .waiting file else .done file
  | answer :: rest, off, file =>
    if off < buf.length then
      match answer with
      | none => .failed file
      | some count =>
        let w := min count (buf.length - off)
        writeLoop buf rest (off + w) (file.write ((buf.drop off).take w))
    else .done file

/-- The file holds the buffer up to `off`, and goes on there. -/
structure Sent (buf : List UInt8) (off : Nat) (file : OpenFile) : Prop where
  inside : off ≤ buf.length
  content : file.content = buf.take off
  position : file.position = off

namespace Sent
variable {buf : List UInt8} {off : Nat} {file : OpenFile}

theorem start (buf : List UInt8) : Sent buf 0 .empty := ⟨Nat.zero_le _, rfl, rfl⟩

theorem write (sent : Sent buf off file) (count : Nat) :
    Sent buf (off + min count (buf.length - off))
      (file.write ((buf.drop off).take (min count (buf.length - off)))) := by
  have inside := sent.inside
  have length : file.content.length = off := by
    rw [sent.content, List.length_take_of_le inside]
  have last : file.position = file.content.length := sent.position.trans length.symm
  rw [OpenFile.write_end last]
  refine ⟨by omega, ?_, ?_⟩
  · rw [sent.content, List.take_add]
  · change file.content.length + _ = _
    rw [length, List.length_take, List.length_drop, Nat.min_assoc, Nat.min_self]

theorem whole (sent : Sent buf off file) (reached : ¬ off < buf.length) :
    file = ⟨buf, buf.length⟩ := by
  obtain ⟨inside, content, position⟩ := sent
  obtain rfl : off = buf.length := by omega
  rw [List.take_length] at content
  obtain ⟨_, _⟩ := file
  rw [OpenFile.mk.injEq]
  exact ⟨content, position⟩

end Sent

/-- The loop with one call to come. -/
theorem writeLoop_short (short : off < buf.length) (answer : Option Nat)
    (rest : List (Option Nat)) (file : OpenFile) :
    writeLoop buf (answer :: rest) off file =
      match answer with
      | none => .failed file
      | some count => writeLoop buf rest (off + min count (buf.length - off))
          (file.write ((buf.drop off).take (min count (buf.length - off)))) := by
  cases answer <;> rw [writeLoop, if_pos short]

theorem writeLoop_reached (reached : ¬ off < buf.length) (answers : List (Option Nat))
    (file : OpenFile) : writeLoop buf answers off file = .done file := by
  rcases answers with _ | ⟨answer, rest⟩
  · rw [writeLoop, if_neg reached]
  · cases answer <;> rw [writeLoop, if_neg reached]

/-- When the loop is through, the file is the buffer. -/
theorem writeLoop_whole {answers : List (Option Nat)} (sent : Sent buf off file)
    (ran : writeLoop buf answers off file = .done after) : after = ⟨buf, buf.length⟩ := by
  induction answers generalizing off file with
  | nil =>
    rw [writeLoop] at ran
    split at ran
    · cases ran
    · next reached =>
      cases ran
      exact sent.whole reached
  | cons answer rest ih =>
    by_cases short : off < buf.length
    · rw [writeLoop_short short] at ran
      cases answer with
      | none => cases ran
      | some count => exact ih (sent.write count) ran
    · rw [writeLoop_reached short] at ran
      cases ran
      exact sent.whole short

/-- The counts before the first failure add up to what is needed. -/
def Answered (need : Nat) (answers : List (Option Nat)) : Prop :=
  ∃ (counts : List Nat) (rest : List (Option Nat)), answers = counts.map some ++ rest ∧
    need ≤ counts.sum

namespace Answered

theorem zero (answers : List (Option Nat)) : Answered 0 answers := ⟨[], answers, rfl, Nat.zero_le _⟩

theorem not_nil (positive : 0 < need) : ¬ Answered need [] := by
  rintro ⟨counts, rest, nothing, enough⟩
  obtain ⟨none, -⟩ := List.append_eq_nil_iff.mp nothing.symm
  rw [List.map_eq_nil_iff.mp none, List.sum_nil] at enough
  omega

theorem not_none (positive : 0 < need) : ¬ Answered need (none :: rest) := by
  rintro ⟨counts, others, split, enough⟩
  cases counts with
  | nil =>
    rw [List.sum_nil] at enough
    omega
  | cons count more => cases (List.cons.inj split).1

theorem some_iff (count : Nat) (rest : List (Option Nat)) :
    Answered need (some count :: rest) ↔ Answered (need - min count need) rest := by
  constructor
  · rintro ⟨counts, others, split, enough⟩
    cases counts with
    | nil =>
      rw [List.sum_nil, Nat.le_zero] at enough
      rw [enough, Nat.zero_sub]
      exact zero rest
    | cons first more =>
      obtain ⟨same, later⟩ := List.cons.inj split
      cases same
      rw [List.sum_cons] at enough
      exact ⟨more, others, later, by omega⟩
  · rintro ⟨counts, others, rfl, enough⟩
    refine ⟨count :: counts, others, rfl, ?_⟩
    rw [List.sum_cons]
    omega

end Answered

/-- It is through exactly when the kernel takes the whole buffer before a call fails. -/
theorem writeLoop_done_iff {answers : List (Option Nat)} :
    (∃ after, writeLoop buf answers off file = .done after) ↔
      Answered (buf.length - off) answers := by
  induction answers generalizing off file with
  | nil =>
    rw [writeLoop]
    split
    · next short =>
      refine iff_of_false (fun ⟨_, ran⟩ => ?_) (Answered.not_nil (by omega))
      cases ran
    · next reached =>
      rw [Nat.sub_eq_zero_of_le (Nat.not_lt.mp reached)]
      exact iff_of_true ⟨_, rfl⟩ (Answered.zero _)
  | cons answer rest ih =>
    by_cases short : off < buf.length
    · rw [writeLoop_short short]
      cases answer with
      | none =>
        refine iff_of_false (fun ⟨_, ran⟩ => ?_) (Answered.not_none (by omega))
        cases ran
      | some count => rw [Answered.some_iff, ← Nat.sub_add_eq]; exact ih
    · rw [writeLoop_reached short, Nat.sub_eq_zero_of_le (Nat.not_lt.mp short)]
      exact iff_of_true ⟨_, rfl⟩ (Answered.zero _)

end Unix
