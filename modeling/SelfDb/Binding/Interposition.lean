import Mathlib.Data.List.Basic
import Mathlib.Data.List.Infix
import Mathlib.Data.Nat.Find

/-! A stack of definitions that providers push one after the other. Search from
the top reaches the newest provider; a scope order may ask for another one. -/
namespace Binding

/-- Provider `k` of the list satisfies `q`. -/
def HasAt (q : β → Prop) (providers : List β) (k : Nat) : Prop :=
  ∃ x, providers[k]? = some x ∧ q x

/-- No two providers satisfy `q`. -/
def Sole (q : β → Prop) (providers : List β) : Prop :=
  providers.Pairwise fun x y => ¬ (q x ∧ q y)

instance (q : β → Prop) [DecidablePred q] (providers : List β) : Decidable (Sole q providers) :=
  inferInstanceAs (Decidable (List.Pairwise _ _))

theorem HasAt.lt (has : HasAt q providers k) : k < providers.length :=
  (List.getElem?_eq_some_iff.mp has.choose_spec.1).1

theorem exists_hasAt_iff (q : β → Prop) (providers : List β) :
    (∃ k, HasAt q providers k) ↔ ∃ x ∈ providers, q x := by
  simp only [HasAt, List.mem_iff_getElem?]
  constructor
  · rintro ⟨k, x, at_, holds⟩
    exact ⟨x, ⟨k, at_⟩, holds⟩
  · rintro ⟨x, ⟨k, at_⟩, holds⟩
    exact ⟨k, x, at_, holds⟩

theorem hasAt_append_left (q : β → Prop) (front back : List β) (bound : k < front.length) :
    HasAt q (front ++ back) k ↔ HasAt q front k := by
  rw [HasAt, List.getElem?_append_left bound, HasAt]

theorem hasAt_append_right (q : β → Prop) (front back : List β) (m : Nat) :
    HasAt q (front ++ back) (front.length + m) ↔ HasAt q back m := by
  rw [HasAt, List.getElem?_append_right (Nat.le_add_right _ _), Nat.add_sub_cancel_left, HasAt]

theorem sole_iff (q : β → Prop) (providers : List β) :
    Sole q providers ↔ ∀ i j, HasAt q providers i → HasAt q providers j → i = j := by
  rw [Sole, List.pairwise_iff_getElem]
  constructor
  · intro apart i j first second
    by_contra differ
    obtain ⟨x, atI, holdsX⟩ := first
    obtain ⟨y, atJ, holdsY⟩ := second
    obtain ⟨boundI, rfl⟩ := List.getElem?_eq_some_iff.mp atI
    obtain ⟨boundJ, rfl⟩ := List.getElem?_eq_some_iff.mp atJ
    rcases Nat.lt_or_gt_of_ne differ with before | after
    · exact apart i j boundI boundJ before ⟨holdsX, holdsY⟩
    · exact apart j i boundJ boundI after ⟨holdsY, holdsX⟩
  · intro same i j boundI boundJ before both
    have := same i j ⟨_, List.getElem?_eq_getElem boundI, both.1⟩
      ⟨_, List.getElem?_eq_getElem boundJ, both.2⟩
    omega

/-- The last provider that satisfies `q`. -/
def Newest (q : β → Prop) (providers : List β) (k : Nat) : Prop :=
  HasAt q providers k ∧ ∀ j, HasAt q providers j → j ≤ k

theorem exists_newest (some : ∃ x ∈ providers, q x) : ∃ k, Newest q providers k := by
  classical
  obtain ⟨k, has⟩ := (exists_hasAt_iff q providers).mpr some
  refine ⟨Nat.findGreatest (HasAt q providers) providers.length,
    Nat.findGreatest_spec has.lt.le has, ?_⟩
  intro j other
  exact Nat.le_findGreatest other.lt.le other

/-- The provider that satisfies `q` and comes first when `rank` orders them. -/
def Leads (rank : Nat → Nat) (q : β → Prop) (providers : List β) (k : Nat) : Prop :=
  HasAt q providers k ∧ ∀ j, HasAt q providers j → rank k ≤ rank j

/-- The positions behind the first `front` come first, each part in its order. -/
def backFirst (front back k : Nat) : Nat := if k < front then back + k else k - front

theorem backFirst_of_lt (bound : k < front) (back : Nat) : backFirst front back k = back + k :=
  if_pos bound

theorem backFirst_of_le (bound : front ≤ k) (back : Nat) : backFirst front back k = k - front :=
  if_neg (Nat.not_lt.mpr bound)

/-- A provider that is both first and newest is the only one of its part. -/
theorem sole_of_newest_leads
    (leads : Leads (backFirst front.length back.length) q (front ++ back) k)
    (newest : Newest q (front ++ back) k) :
    Sole q back ∧ ((∃ x ∈ back, q x) ∨ Sole q front) := by
  obtain ⟨has, least⟩ := leads
  have greatest := newest.2
  rw [sole_iff, sole_iff]
  by_cases inFront : k < front.length
  · have nowhere : ∀ j, ¬ HasAt q back j := by
      intro j later
      have := greatest _ ((hasAt_append_right q front back j).mpr later)
      omega
    have first : ∀ i, HasAt q front i → i = k := by
      intro i other
      have here := (hasAt_append_left q front back other.lt).mpr other
      have low := least i here
      have high := greatest i here
      rw [backFirst_of_lt inFront, backFirst_of_lt other.lt] at low
      omega
    exact ⟨fun i _ later => absurd later (nowhere i),
      Or.inr fun i j one two => (first i one).trans (first j two).symm⟩
  · obtain ⟨m, rfl⟩ := Nat.exists_eq_add_of_le (Nat.not_lt.mp inFront)
    have last : ∀ i, HasAt q back i → i = m := by
      intro i other
      have here := (hasAt_append_right q front back i).mpr other
      have low := least _ here
      have high := greatest _ here
      rw [backFirst_of_le (Nat.le_add_right _ _), backFirst_of_le (Nat.le_add_right _ _)] at low
      omega
    exact ⟨fun i j one two => (last i one).trans (last j two).symm,
      Or.inl ((exists_hasAt_iff q back).mp ⟨m, (hasAt_append_right q front back m).mp has⟩)⟩

/-- The newest provider leads when its part has no other one. -/
theorem newest_leads_of_sole (soleBack : Sole q back) (choice : (∃ x ∈ back, q x) ∨ Sole q front)
    (newest : Newest q (front ++ back) k) :
    Leads (backFirst front.length back.length) q (front ++ back) k := by
  obtain ⟨has, greatest⟩ := newest
  refine ⟨has, fun j other => ?_⟩
  have below := greatest j other
  by_cases inFront : k < front.length
  · have nowhere : ¬ ∃ x ∈ back, q x := by
      rw [← exists_hasAt_iff]
      rintro ⟨m, later⟩
      have := greatest _ ((hasAt_append_right q front back m).mpr later)
      omega
    rw [hasAt_append_left q front back inFront] at has
    rw [hasAt_append_left q front back (below.trans_lt inFront)] at other
    rw [(sole_iff q front).mp (choice.resolve_left nowhere) j k other has]
  · obtain ⟨m, rfl⟩ := Nat.exists_eq_add_of_le (Nat.not_lt.mp inFront)
    by_cases otherFront : j < front.length
    · have bound := has.lt
      rw [List.length_append] at bound
      rw [backFirst_of_le (Nat.le_add_right _ _), backFirst_of_lt otherFront]
      omega
    · obtain ⟨n, rfl⟩ := Nat.exists_eq_add_of_le (Nat.not_lt.mp otherFront)
      rw [hasAt_append_right] at has other
      rw [(sole_iff q back).mp soleBack n m other has]

/-- The newest provider leads exactly when its part has no other one. -/
theorem newest_leads_iff (some : ∃ x ∈ front ++ back, q x) :
    (∃ k, Leads (backFirst front.length back.length) q (front ++ back) k ∧
      Newest q (front ++ back) k) ↔
      Sole q back ∧ ((∃ x ∈ back, q x) ∨ Sole q front) := by
  constructor
  · rintro ⟨k, leads, newest⟩
    exact sole_of_newest_leads leads newest
  · rintro ⟨soleBack, choice⟩
    obtain ⟨k, newest⟩ := exists_newest some
    exact ⟨k, newest_leads_of_sole soleBack choice newest, newest⟩

/-! The stack itself. -/

section Stack
variable (definitions : β → List α)

def stacked (providers : List β) : List α := (providers.flatMap definitions).reverse

theorem mem_stacked (providers : List β) (a : α) :
    a ∈ stacked definitions providers ↔ ∃ x ∈ providers, a ∈ definitions x := by
  rw [stacked, List.mem_reverse, List.mem_flatMap]

theorem stacked_append (first second : List β) :
    stacked definitions (first ++ second) = stacked definitions second ++
      stacked definitions first := by
  rw [stacked, List.flatMap_append, List.reverse_append, stacked, stacked]

/-- The stack entry at the head of `node` is one that provider `k` pushed. -/
def PushedBy (providers : List β) (k : Nat) (node : List α) : Prop :=
  node <:+ stacked definitions (providers.take (k + 1)) ∧
    ¬ node <:+ stacked definitions (providers.take k)

theorem stacked_take_suffix (providers : List β) (le : i ≤ j) :
    stacked definitions (providers.take i) <:+ stacked definitions (providers.take j) := by
  rw [stacked, stacked, List.reverse_suffix, show providers.take j =
    providers.take i ++ (providers.drop i).take (j - i) by
      rw [← List.take_add, Nat.add_sub_cancel' le], List.flatMap_append]
  exact List.prefix_append _ _

theorem PushedBy.unique (first : PushedBy definitions providers i node)
    (second : PushedBy definitions providers j node) : i = j := by
  rcases Nat.lt_trichotomy i j with before | same | after
  · exact absurd (first.1.trans (stacked_take_suffix definitions providers before)) second.2
  · exact same
  · exact absurd (second.1.trans (stacked_take_suffix definitions providers after)) first.2

variable (p : α → Prop) [DecidablePred p]

/-- The stack from the topmost entry with `p` on. -/
def found (stack : List α) : List α := stack.dropWhile fun a => ¬ p a

def Provides (x : β) : Prop := ∃ a ∈ definitions x, p a

theorem found_skip (top : List α) (none : ∀ a ∈ top, ¬ p a) (stack : List α) :
    found p (top ++ stack) = found p stack :=
  List.dropWhile_append_of_pos fun a member => decide_eq_true (none a member)

theorem found_suffix (stack : List α) : found p stack <:+ stack := List.dropWhile_suffix _

/-- The entry that a search finds among new ones is not an old one. -/
theorem found_new (top : List α) (some : ∃ a ∈ top, p a) (stack : List α) :
    ∃ a older, found p (top ++ stack) = a :: older ∧ a ∈ top ∧ p a ∧
      stack.length ≤ older.length := by
  induction top with
  | nil => simp at some
  | cons a top ih =>
    by_cases holds : p a
    · refine ⟨a, top ++ stack, ?_, List.mem_cons_self, holds, ?_⟩
      · simp [found, holds]
      · rw [List.length_append]
        exact Nat.le_add_left _ _
    · rw [List.exists_mem_cons_iff, or_iff_right holds] at some
      obtain ⟨b, older, search, member, suits, longer⟩ := ih some
      refine ⟨b, older, ?_, List.mem_cons_of_mem _ member, suits, longer⟩
      rw [← search]
      simp [found, holds]

/-- A search of the stack stops at a definition that provider `k` pushed. -/
def FoundIn (providers : List β) (stack : List α) (k : Nat) : Prop :=
  ∃ x a older, providers[k]? = some x ∧ found p stack = a :: older ∧ a ∈ definitions x ∧
    PushedBy definitions providers k (a :: older)

theorem FoundIn.unique (first : FoundIn definitions p providers stack i)
    (second : FoundIn definitions p providers stack j) : i = j := by
  obtain ⟨_, _, _, _, search, _, pushed⟩ := first
  obtain ⟨_, _, _, _, search', _, pushed'⟩ := second
  rw [search] at search'
  cases search'
  exact pushed.unique definitions pushed'

/-- A search from the top stops at the newest provider. -/
theorem found_newest (newest : Newest (Provides definitions p) providers k) :
    FoundIn definitions p providers (stacked definitions providers) k := by
  obtain ⟨⟨x, at_, provides⟩, greatest⟩ := newest
  obtain ⟨bound, same⟩ := List.getElem?_eq_some_iff.mp at_
  have upto : stacked definitions (providers.take (k + 1)) =
      (definitions x).reverse ++ stacked definitions (providers.take k) := by
    rw [stacked, List.take_succ_eq_append_getElem bound, same, List.flatMap_append,
      List.reverse_append]
    simp [stacked]
  have later : ∀ a ∈ ((providers.drop (k + 1)).flatMap definitions).reverse, ¬ p a := by
    intro a member holds
    rw [List.mem_reverse, List.mem_flatMap] at member
    obtain ⟨y, dropped, defined⟩ := member
    obtain ⟨j, atJ⟩ := List.mem_iff_getElem?.mp dropped
    rw [List.getElem?_drop] at atJ
    have := greatest (k + 1 + j) ⟨y, atJ, a, defined, holds⟩
    omega
  have whole : stacked definitions providers =
      ((providers.drop (k + 1)).flatMap definitions).reverse ++
        stacked definitions (providers.take (k + 1)) := by
    exact (congrArg (stacked definitions) (List.take_append_drop (k + 1) providers).symm).trans
      (stacked_append definitions _ _)
  obtain ⟨a, older, search, member, _, longer⟩ := found_new p (definitions x).reverse
    (by simpa only [Provides, List.mem_reverse] using provides)
      (stacked definitions (providers.take k))
  rw [← upto] at search
  refine ⟨x, a, older, at_, ?_, List.mem_reverse.mp member, ?_, ?_⟩
  · rw [whole, found_skip p _ later, search]
  · rw [← search]
    exact found_suffix p _
  · intro before
    have := before.length_le
    rw [List.length_cons] at this
    omega

theorem foundIn_iff_newest (some : ∃ x ∈ providers, Provides definitions p x) (k : Nat) :
    FoundIn definitions p providers (stacked definitions providers) k ↔
      Newest (Provides definitions p) providers k := by
  obtain ⟨m, newest⟩ := exists_newest some
  constructor
  · intro here
    rwa [here.unique definitions p (found_newest definitions p newest)]
  · exact found_newest definitions p

/-- The provider reached by search is first in scope exactly when its part has
no other provider. -/
theorem found_leads_iff (some : ∃ x ∈ front ++ back, Provides definitions p x) :
    (∃ k, Leads (backFirst front.length back.length) (Provides definitions p) (front ++ back) k ∧
      FoundIn definitions p (front ++ back) (stacked definitions (front ++ back)) k) ↔
      Sole (Provides definitions p) back ∧
        ((∃ x ∈ back, Provides definitions p x) ∨ Sole (Provides definitions p) front) := by
  rw [← newest_leads_iff some]
  exact exists_congr fun k => and_congr_right fun _ => foundIn_iff_newest definitions p some k

end Stack

end Binding
