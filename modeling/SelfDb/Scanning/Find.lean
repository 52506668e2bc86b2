import Mathlib.Data.List.Infix
import Mathlib.Data.List.TakeDrop
import Mathlib.Data.Nat.Find

/-! The first match of a pattern in a text. Characters are compared by `f`, so that
a search may ignore their case. -/
namespace Scanning
variable {α β : Type} {f : α → β} {pat : List β}

/-- The text is `before`, a match, and `after`. -/
def Occurs (f : α → β) (pat : List β) (text before after : List α) : Prop :=
  ∃ found, text = before ++ (found ++ after) ∧ found.map f = pat

theorem Occurs.append (occurs : Occurs f pat text before after) (more : List α) :
    Occurs f pat (text ++ more) before (after ++ more) := by
  obtain ⟨found, rfl, same⟩ := occurs
  exact ⟨found, by simp only [List.append_assoc], same⟩

theorem Occurs.length (occurs : Occurs f pat text before after) :
    text.length = before.length + (pat.length + after.length) := by
  obtain ⟨found, rfl, rfl⟩ := occurs
  simp only [List.length_append, List.length_map]

theorem occurs_id_iff {pat text before after : List α} :
    Occurs id pat text before after ↔ text = before ++ (pat ++ after) := by
  simp [Occurs]

/-- A match that is inside the front of a text. -/
theorem Occurs.of_append (occurs : Occurs f pat (text ++ more) before after)
    (inside : before.length + pat.length ≤ text.length) :
    ∃ rest, after = rest ++ more ∧ Occurs f pat text before rest := by
  obtain ⟨found, split, rfl⟩ := occurs
  rw [← List.append_assoc] at split
  rw [List.length_map, ← List.length_append] at inside
  obtain ⟨rest, rfl⟩ := List.prefix_of_prefix_length_le (List.prefix_append _ _)
    (split ▸ List.prefix_append text more) inside
  rw [List.append_assoc, List.append_assoc, List.append_assoc, List.append_cancel_left_eq,
    List.append_cancel_left_eq] at split
  exact ⟨rest, split.symm, found, List.append_assoc _ _ _, rfl⟩

variable [DecidableEq β]

/-- What is before the first match, and what is behind it. -/
def find (f : α → β) (pat : List β) (text : List α) : Option (List α × List α) :=
  ((text.map f).dropInfix? pat).map fun parts =>
    (text.take parts.1.length, text.drop (parts.1.length + pat.length))

theorem find_eq_some_iff (f : α → β) (pat : List β) (text before after : List α) :
    find f pat text = some (before, after) ↔
      Occurs f pat text before after ∧ ∀ b a, Occurs f pat text b a → before.length ≤ b.length := by
  have least {k : Nat} : (∀ p' i' s', text.map f = p' ++ i' ++ s' → (i' == pat) = true →
      k ≤ p'.length) ↔
      ∀ b a, Occurs f pat text b a → k ≤ b.length := by
    constructor
    · rintro shortest b a ⟨found, rfl, rfl⟩
      have bound := shortest (b.map f) (found.map f) (a.map f)
        (by simp only [List.map_append, List.append_assoc]) (beq_self_eq_true _)
      rwa [List.length_map] at bound
    · intro shortest p' i' s' split same
      rw [beq_iff_eq] at same
      subst same
      obtain ⟨front, a, rfl, front_eq, rfl⟩ := List.map_eq_append_iff.mp split
      obtain ⟨b, found, rfl, rfl, rfl⟩ := List.map_eq_append_iff.mp front_eq
      rw [List.length_map]
      exact shortest b a ⟨found, List.append_assoc _ _ _, rfl⟩
  simp only [find, Option.map_eq_some_iff, Prod.exists, Prod.mk.injEq, List.dropInfix?_eq_some_iff,
    ge_iff_le]
  constructor
  · rintro ⟨p, s, ⟨⟨i, split, same⟩, shortest⟩, rfl, rfl⟩
    rw [beq_iff_eq] at same
    subst same
    obtain ⟨front, a, rfl, front_eq, rfl⟩ := List.map_eq_append_iff.mp split
    obtain ⟨b, found, rfl, rfl, rfl⟩ := List.map_eq_append_iff.mp front_eq
    have taken : (b ++ found ++ a).take (b.map f).length = b := by
      rw [List.append_assoc, List.length_map, List.take_left]
    have dropped : (b ++ found ++ a).drop ((b.map f).length + (found.map f).length) = a := by
      rw [List.length_map, List.length_map, ← List.length_append, List.drop_left]
    rw [taken, dropped]
    refine ⟨⟨found, List.append_assoc _ _ _, rfl⟩, ?_⟩
    rw [List.length_map] at shortest
    exact least.mp shortest
  · rintro ⟨⟨found, rfl, rfl⟩, shortest⟩
    refine ⟨before.map f, after.map f, ⟨⟨found.map f, ?_, beq_self_eq_true _⟩, ?_⟩, ?_, ?_⟩
    · simp only [List.map_append, List.append_assoc]
    · rw [List.length_map]
      exact least.mpr shortest
    · rw [List.length_map, List.take_left]
    · rw [List.length_map, List.length_map, ← List.append_assoc, ← List.length_append,
        List.drop_left]

theorem find_eq_none_iff (f : α → β) (pat : List β) (text : List α) :
    find f pat text = none ↔ ∀ before after, ¬ Occurs f pat text before after := by
  classical
  constructor
  · intro none before after occurs
    have some : ∃ k b a, Occurs f pat text b a ∧ b.length = k := ⟨_, before, after, occurs, rfl⟩
    obtain ⟨b, a, first, same⟩ := Nat.find_spec some
    have found := (find_eq_some_iff f pat text b a).mpr ⟨first, fun b' a' other => ?_⟩
    · cases none.symm.trans found
    · rw [same]
      exact Nat.find_min' some ⟨b', a', other, rfl⟩
  · intro absent
    cases found : find f pat text with
    | none => rfl
    | some parts =>
      exact absurd ((find_eq_some_iff f pat text parts.1 parts.2).mp found).1 (absent _ _)

/-- A match of the pattern itself, given by its position. -/
theorem occurs_id_of_drop {pat text : List α} (here : pat <+: text.drop p) :
    ∃ after, Occurs id pat text (text.take p) after := by
  obtain ⟨after, split⟩ := here
  refine ⟨after, occurs_id_iff.mpr ?_⟩
  rw [split, List.take_append_drop]

theorem pair_at_iff (a b : α) (text : List α) (p : Nat) :
    [a, b] <+: text.drop p ↔ text[p]? = some a ∧ text[p + 1]? = some b := by
  have first : text[p]? = (text.drop p)[0]? := by rw [List.getElem?_drop, Nat.add_zero]
  have second : text[p + 1]? = (text.drop p)[1]? := by rw [List.getElem?_drop]
  rw [first, second]
  match text.drop p with
  | [] => simp
  | [_] => simp
  | x :: y :: rest => simp [eq_comm]

theorem find_id_some [DecidableEq α] {pat text before after : List α}
    (found : find id pat text = some (before, after)) :
    text = before ++ (pat ++ after) ∧ ∀ p, pat <+: text.drop p → before.length ≤ p := by
  obtain ⟨occurs, first⟩ := (find_eq_some_iff id pat text before after).mp found
  refine ⟨occurs_id_iff.mp occurs, fun p here => ?_⟩
  obtain ⟨rest, other⟩ := occurs_id_of_drop here
  exact (first _ rest other).trans (List.length_take_le _ _)

theorem find_id_none [DecidableEq α] {pat text : List α} (none : find id pat text = none)
    (p : Nat) :
    ¬ pat <+: text.drop p := by
  intro here
  obtain ⟨rest, other⟩ := occurs_id_of_drop here
  exact (find_eq_none_iff id pat text).mp none _ rest other

/-- Any match has a first one. -/
theorem find_of_occurs (occurs : Occurs f pat text before after) :
    ∃ b a, find f pat text = some (b, a) ∧ b.length ≤ before.length := by
  cases found : find f pat text with
  | none => exact absurd occurs ((find_eq_none_iff f pat text).mp found before after)
  | some parts =>
    exact ⟨parts.1, parts.2, rfl, ((find_eq_some_iff f pat text _ _).mp found).2 _ _ occurs⟩

/-- More text does not change the first match. -/
theorem find_append (found : find f pat text = some (before, after)) (more : List α) :
    find f pat (text ++ more) = some (before, after ++ more) := by
  obtain ⟨occurs, first⟩ := (find_eq_some_iff f pat text before after).mp found
  refine (find_eq_some_iff f pat _ _ _).mpr ⟨occurs.append more, fun b a other => ?_⟩
  have length := occurs.length
  by_contra shorter
  obtain ⟨rest, _, inside⟩ := other.of_append (by omega)
  exact shorter (first b rest inside)

/-- The first match of a longer text, if it is inside the front. -/
theorem find_of_append (found : find f pat (text ++ more) = some (before, after))
    (inside : before.length + pat.length ≤ text.length) :
    ∃ rest, after = rest ++ more ∧ find f pat text = some (before, rest) := by
  obtain ⟨occurs, first⟩ := (find_eq_some_iff f pat _ before after).mp found
  obtain ⟨rest, split, inside⟩ := occurs.of_append inside
  exact ⟨rest, split, (find_eq_some_iff f pat text before rest).mpr
    ⟨inside, fun b a other => first b _ (other.append more)⟩⟩

end Scanning
