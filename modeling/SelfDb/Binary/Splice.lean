import Mathlib.Data.List.Induction

/-! Buffers whose ranges are replaced by contents of any length. A splice moves
what lies behind it, so a position of the result is traced back through the
splices, the last one first. -/
namespace Binary
variable {α : Type}

structure Splice (α : Type) where
  start : Nat
  count : Nat
  content : List α

/-- The range ends with the buffer if it reaches beyond it. -/
def splice (buf : List α) (s : Splice α) : List α :=
  buf.take s.start ++ s.content ++ buf.drop (s.start + s.count)

def spliceAll (buf : List α) (ss : List (Splice α)) : List α := ss.foldl splice buf

namespace Splice

/-- The length that splices leave of a buffer, the last of them first. -/
def lengthAfter (length : Nat) : List (Splice α) → Nat
  | [] => length
  | s :: earlier =>
    let before := lengthAfter length earlier
    min s.start before + s.content.length + (before - (s.start + s.count))

/-- Where a position of the result comes from: a position of the buffer, or one in a content.
Only the lengths of the contents matter. -/
def origin (length : Nat) : List (Splice α) → Nat → Nat ⊕ Splice α × Nat
  | [], p => .inl p
  | s :: earlier, p =>
    let start := min s.start (lengthAfter length earlier)
    if p < start then origin length earlier p
    else if p < start + s.content.length then .inr (s, p - start)
    else origin length earlier (p - (start + s.content.length) + (s.start + s.count))

/-- The value at an origin. -/
def valueAt (buf : List α) : Nat ⊕ Splice α × Nat → Option α
  | .inl p => buf[p]?
  | .inr (s, k) => s.content[k]?

/-- The value at an origin in a buffer of one value. -/
def filledAt (a : α) : Nat ⊕ Splice α × Nat → α
  | .inl _ => a
  | .inr (s, k) => s.content[k]?.getD a

end Splice

theorem splice_length (buf : List α) (s : Splice α) :
    (splice buf s).length =
      min s.start buf.length + s.content.length + (buf.length - (s.start + s.count)) := by
  simp [splice, Nat.add_assoc]

theorem splice_get (buf : List α) (s : Splice α) (p : Nat) :
    (splice buf s)[p]? =
      if p < min s.start buf.length then buf[p]?
      else if p < min s.start buf.length + s.content.length then
        s.content[p - min s.start buf.length]?
      else buf[p - (min s.start buf.length + s.content.length) + (s.start + s.count)]? := by
  have front : (buf.take s.start).length = min s.start buf.length := List.length_take
  rw [splice, List.append_assoc, List.getElem?_append, front]
  split
  · rename_i early
    exact List.getElem?_take_of_lt (show p < s.start by omega)
  · rw [List.getElem?_append, List.getElem?_drop]
    split
    · rw [if_pos (by omega)]
    · rw [if_neg (by omega)]
      congr 1
      omega

theorem spliceAll_concat (buf : List α) (ss : List (Splice α)) (s : Splice α) :
    spliceAll buf (ss ++ [s]) = splice (spliceAll buf ss) s := by
  rw [spliceAll, List.foldl_append]
  rfl

theorem spliceAll_length (buf : List α) (ss : List (Splice α)) :
    (spliceAll buf ss).length = Splice.lengthAfter buf.length ss.reverse := by
  induction ss using List.reverseRecOn with
  | nil => rfl
  | append_singleton ss s ih =>
    rw [spliceAll_concat, splice_length, ih, List.reverse_concat]
    rfl

/-- A spliced buffer holds what lay at the origin of each position. -/
theorem spliceAll_get (buf : List α) (ss : List (Splice α)) (p : Nat) :
    (spliceAll buf ss)[p]? = Splice.valueAt buf (Splice.origin buf.length ss.reverse p) := by
  induction ss using List.reverseRecOn generalizing p with
  | nil => rfl
  | append_singleton ss s ih =>
    rw [spliceAll_concat, splice_get, spliceAll_length, List.reverse_concat, Splice.origin]
    split
    · exact ih p
    · split
      · rfl
      · exact ih _

theorem spliceAll_replicate_get (a : α) {n : Nat} {ss : List (Splice α)}
    (inside : p < Splice.lengthAfter n ss.reverse) :
    (spliceAll (List.replicate n a) ss)[p]? =
      some (Splice.filledAt a (Splice.origin n ss.reverse p)) := by
  have size : (List.replicate n a).length = n := List.length_replicate
  have length := spliceAll_length (List.replicate n a) ss
  have get := spliceAll_get (List.replicate n a) ss p
  rw [size] at length get
  rw [List.getElem?_eq_getElem (length ▸ inside)] at get ⊢
  rw [get]
  cases traced : Splice.origin n ss.reverse p with
  | inl q =>
    rw [traced, Splice.valueAt, List.getElem?_replicate] at get
    rw [Splice.valueAt, List.getElem?_replicate]
    split at get
    · rw [if_pos ‹_›, Splice.filledAt]
    · cases get
  | inr found =>
    rw [traced, Splice.valueAt] at get
    rw [Splice.valueAt, Splice.filledAt, ← get, Option.getD_some]

end Binary
