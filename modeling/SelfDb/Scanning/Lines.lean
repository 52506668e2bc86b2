import SelfDb.Scanning.Find

/-! The first match of a pattern that begins with the two characters of a line end. -/
namespace Scanning
variable {α β : Type} {f : α → β} {cr lf : α} {name : List β}

/-- The two characters differ, and no other one is compared equal to them. -/
structure LineEnd (f : α → β) (cr lf : α) : Prop where
  distinct : cr ≠ lf
  cr_only : ∀ a, f a = f cr → a = cr
  lf_only : ∀ a, f a = f lf → a = lf

/-- There is no line end in the text. -/
def OneLine (cr lf : α) (line : List α) : Prop := ¬ [cr, lf] <:+: line

theorem oneLine_of_not_mem {line : List α} (absent : lf ∉ line) : OneLine cr lf line :=
  fun inside => absent (inside.subset (List.mem_cons_of_mem _ List.mem_cons_self))

theorem OneLine.left (oneLine : OneLine cr lf line) (part : front <+: line) :
    OneLine cr lf front := fun inside => oneLine (inside.trans part.isInfix)

theorem OneLine.append (oneLine : OneLine cr lf line) (absent : cr ∉ front) :
    OneLine cr lf (front ++ line) := by
  rintro ⟨before, after, split⟩
  rw [List.append_assoc] at split
  rcases List.append_eq_append_iff.mp split with ⟨more, rfl, same⟩ | ⟨more, rfl, same⟩
  · cases more with
    | nil => exact oneLine ⟨[], after, same⟩
    | cons first more =>
      have begins : cr = first := (List.cons.inj same).1
      exact absent (by simp [begins])
  · exact oneLine ⟨more, after, by rw [List.append_assoc]; exact same.symm⟩

/-- A line end of the text is the one behind its first line, or comes later. -/
theorem lineEnd_cases (distinct : cr ≠ lf) (oneLine : OneLine cr lf line)
    (split : line ++ cr :: lf :: rest = before ++ cr :: lf :: after) :
    before = line ∧ after = rest ∨
      ∃ later, before = line ++ cr :: lf :: later ∧ rest = later ++ cr :: lf :: after := by
  rcases List.append_eq_append_iff.mp split with ⟨more, rfl, same⟩ | ⟨more, rfl, same⟩
  · match more with
    | [] =>
      cases same
      exact .inl ⟨List.append_nil line, rfl⟩
    | [_] =>
      cases same
      exact absurd rfl distinct
    | _ :: _ :: later =>
      cases same
      exact .inr ⟨later, rfl, rfl⟩
  · match more with
    | [] =>
      cases same
      exact .inl ⟨(List.append_nil before).symm, rfl⟩
    | [_] =>
      cases same
      exact absurd rfl distinct
    | _ :: _ :: inside =>
      cases same
      exact absurd ⟨before, inside, by simp⟩ oneLine

/-- A match begins with a line end of the text. -/
theorem Occurs.lineEnd (ends : LineEnd f cr lf)
    (occurs : Occurs f (f cr :: f lf :: name) text before after) :
    ∃ here, text = before ++ cr :: lf :: (here ++ after) ∧ here.map f = name := by
  obtain ⟨found, rfl, same⟩ := occurs
  match found with
  | [] => cases same
  | [_] => simp at same
  | a :: b :: here =>
    obtain ⟨first, second, rfl⟩ : f a = f cr ∧ f b = f lf ∧ here.map f = name := by
      simpa using same
    obtain rfl := ends.cr_only a first
    obtain rfl := ends.lf_only b second
    exact ⟨here, rfl, rfl⟩

variable [DecidableEq β]

/-- The match is at the end of the first line. -/
theorem find_line_here (ends : LineEnd f cr lf) (oneLine : OneLine cr lf line)
    (same : here.map f = name) (after : List α) :
    find f (f cr :: f lf :: name) (line ++ cr :: lf :: (here ++ after)) = some (line, after) := by
  refine (find_eq_some_iff _ _ _ _ _).mpr ⟨⟨cr :: lf :: here, rfl, ?_⟩, fun b a occurs => ?_⟩
  · rw [List.map_cons, List.map_cons, same]
  · obtain ⟨found, split, -⟩ := occurs.lineEnd ends
    rcases lineEnd_cases ends.distinct oneLine split with ⟨rfl, -⟩ | ⟨later, rfl, -⟩
    · exact Nat.le_refl _
    · rw [List.length_append]
      exact Nat.le_add_right _ _

/-- The first line is followed by something else. -/
theorem find_line_later (ends : LineEnd f cr lf) (oneLine : OneLine cr lf line)
    (other : ¬ name <+: rest.map f)
    (found : find f (f cr :: f lf :: name) rest = some (before, after)) :
    find f (f cr :: f lf :: name) (line ++ cr :: lf :: rest) =
      some (line ++ cr :: lf :: before, after) := by
  obtain ⟨⟨here, rfl, same⟩, first⟩ := (find_eq_some_iff _ _ _ _ _).mp found
  refine (find_eq_some_iff _ _ _ _ _).mpr ⟨⟨here, by simp, same⟩, fun b a occurs => ?_⟩
  obtain ⟨found, split, matched⟩ := occurs.lineEnd ends
  rcases lineEnd_cases ends.distinct oneLine split with ⟨rfl, rest⟩ | ⟨later, rfl, rest⟩
  · refine absurd ?_ other
    rw [← rest, List.map_append, matched]
    exact List.prefix_append _ _
  · have shorter := first later a ⟨cr :: lf :: found, rest, by simp [matched]⟩
    simp only [List.length_append, List.length_cons]
    omega

end Scanning
