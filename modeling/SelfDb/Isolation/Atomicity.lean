import Mathlib.Data.List.Basic

/-! Computations over a state that outlives them: an exception does not restore
it. -/
namespace Isolation
variable {ε σ α β ι : Type}

def Returned (answer : Except ε α) : Prop := ∃ a, answer = .ok a

def Raised (answer : Except ε α) : Prop := ∃ e, answer = .error e

theorem not_raised_iff (answer : Except ε α) : ¬ Raised answer ↔ Returned answer := by
  cases answer <;> simp [Raised, Returned]

theorem raised_bind_iff (x : Except ε α) (f : α → Except ε β) :
    Raised (x >>= f) ↔ Raised x ∨ ∃ a, x = .ok a ∧ Raised (f a) := by
  cases x <;> simp [Raised, bind, Except.bind]

theorem returned_bind_iff (x : Except ε α) (f : α → Except ε β) :
    Returned (x >>= f) ↔ ∃ a, x = .ok a ∧ Returned (f a) := by
  cases x <;> simp [Returned, bind, Except.bind]

/-- When what comes later does not depend on the result. -/
theorem returned_bind_iff_and {x : Except ε α} {f : α → Except ε β} {P : Prop}
    (later : ∀ a, Returned (f a) ↔ P) :
    Returned (x >>= f) ↔ Returned x ∧ P := by
  rw [returned_bind_iff]
  simp only [later, exists_and_right]
  exact Iff.rfl

@[simp] theorem returned_ok (a : α) : Returned (.ok a : Except ε α) := ⟨a, rfl⟩

theorem returned_pure (a : α) : Returned (pure a : Except ε α) ↔ True :=
  iff_of_true ⟨a, rfl⟩ trivial

@[simp] theorem not_returned_error (e : ε) : ¬ Returned (.error e : Except ε α) :=
  fun ⟨_, same⟩ => nomatch same

/-- A loop returns if each of its steps does, whatever the state. -/
theorem returned_foldlM_iff {f : β → α → Except ε β} {P : α → Prop}
    (each : ∀ b a, Returned (f b a) ↔ P a)
    (xs : List α) (b : β) : Returned (xs.foldlM f b) ↔ ∀ x ∈ xs, P x := by
  induction xs generalizing b with
  | nil => exact iff_of_true ⟨b, rfl⟩ (List.forall_mem_nil _)
  | cons x rest ih =>
    rw [List.foldlM_cons, returned_bind_iff_and ih, List.forall_mem_cons, each]

theorem returned_mapM_iff {f : α → Except ε β} {P : α → Prop} {xs : List α}
    (each : ∀ a ∈ xs, (Returned (f a) ↔ P a)) : Returned (xs.mapM f) ↔ ∀ x ∈ xs, P x := by
  induction xs with
  | nil => exact iff_of_true ⟨[], rfl⟩ (List.forall_mem_nil _)
  | cons x rest ih =>
    rw [List.forall_mem_cons] at each
    have tail (b : β) : Returned (rest.mapM f >>= fun bs => pure (b :: bs)) ↔ ∀ y ∈ rest, P y := by
      rw [returned_bind_iff_and fun bs => returned_pure (b :: bs), and_true, ih each.2]
    rw [List.mapM_cons, returned_bind_iff_and tail, List.forall_mem_cons, each.1]

theorem returned_map_iff (f : α → β) (x : Except ε α) : Returned (x.map f) ↔ Returned x := by
  cases x <;> simp [Except.map]

abbrev Attempt (ε σ : Type) := ExceptT ε (StateM σ)

/-- The run from `s` returns `a` and leaves `t`. -/
def Returns (run : Attempt ε σ α) (s : σ) (a : α) (t : σ) : Prop := run.run.run s = (.ok a, t)

/-- The run from `s` raises and leaves `t`. -/
def Raises (run : Attempt ε σ α) (s t : σ) : Prop := ∃ e, run.run.run s = (.error e, t)

/-- A run that raises leaves the state as it was. -/
def AllOrNothing (run : Attempt ε σ α) (s : σ) : Prop := ∀ t, Raises run s t → t = s

/-- There is one run, so it is all or nothing if it returns, or if what it leaves
happens to be the state before it. -/
theorem allOrNothing_iff (run : Attempt ε σ α) (s : σ) :
    AllOrNothing run s ↔ (∃ a t, Returns run s a t) ∨ Raises run s s := by
  cases outcome : run.run.run s with
  | mk answer t =>
    cases answer with
    | ok a =>
      have kept : AllOrNothing run s := fun _ ⟨_, raised⟩ => nomatch outcome.symm.trans raised
      exact iff_of_true kept (.inl ⟨a, t, outcome⟩)
    | error e =>
      constructor
      · intro kept
        exact .inr ⟨e, outcome.trans (congrArg (Prod.mk _) (kept t ⟨e, outcome⟩))⟩
      · rintro (⟨a, u, returned⟩ | ⟨_, same⟩) u ⟨_, raised⟩
        · cases outcome.symm.trans returned
        · exact (congrArg Prod.snd (raised.symm.trans same))

namespace Attempt

/-- A call that does not touch the state. -/
def call (answer : Except ε α) : Attempt ε σ α := ExceptT.mk (pure answer)

/-- A call that does. -/
def callLeaving (answer : Except ε Unit) (t : σ) : Attempt ε σ Unit := do
  call answer
  set t

/-- Calls in turn; the state is that of the calls that have returned. -/
def each (answer : ι → Except ε Unit) (state : List ι → σ) : List ι → List ι → Attempt ε σ Unit
  | _, [] => pure ()
  | done, i :: rest => do
    callLeaving (answer i) (state (done ++ [i]))
    each answer state (done ++ [i]) rest

end Attempt

open Attempt

@[simp] theorem returns_pure (a b : α) (s t : σ) :
    Returns (pure a : Attempt ε σ α) s b t ↔ a = b ∧ s = t := by
  have run : Returns (pure a : Attempt ε σ α) s b t ↔ ((.ok a : Except ε α), s) = (.ok b, t) :=
    Iff.rfl
  rw [run, Prod.mk.injEq, Except.ok.injEq]

@[simp] theorem not_raises_pure (a : α) (s t : σ) : ¬ Raises (pure a : Attempt ε σ α) s t :=
  fun ⟨_, raised⟩ => nomatch raised

theorem bind_of_returns {run : Attempt ε σ α} (returned : Returns run s a m)
    (next : α → Attempt ε σ β) :
    (run >>= next).run.run s = (next a).run.run m := by
  have step : (run >>= next).run.run s = (ExceptT.bindCont next (run.run.run s).1).run
      (run.run.run s).2 := rfl
  rw [step, returned]
  rfl

theorem bind_of_raised {run : Attempt ε σ α} (raised : run.run.run s = (.error e, t))
    (next : α → Attempt ε σ β) :
    (run >>= next).run.run s = (.error e, t) := by
  have step : (run >>= next).run.run s = (ExceptT.bindCont next (run.run.run s).1).run
      (run.run.run s).2 := rfl
  rw [step, raised]
  rfl

theorem returns_bind (run : Attempt ε σ α) (next : α → Attempt ε σ β) (s : σ) (b : β) (t : σ) :
    Returns (run >>= next) s b t ↔ ∃ a m, Returns run s a m ∧ Returns (next a) m b t := by
  constructor
  · intro both
    cases outcome : run.run.run s with
    | mk answer m =>
      cases answer with
      | ok a => exact ⟨a, m, outcome, (bind_of_returns outcome next).symm.trans both⟩
      | error e => cases (bind_of_raised outcome next).symm.trans both
  · rintro ⟨a, m, first, later⟩
    exact (bind_of_returns first next).trans later

theorem raises_bind (run : Attempt ε σ α) (next : α → Attempt ε σ β) (s t : σ) :
    Raises (run >>= next) s t ↔ Raises run s t ∨ ∃ a m, Returns run s a m ∧
      Raises (next a) m t := by
  constructor
  · rintro ⟨e, both⟩
    cases outcome : run.run.run s with
    | mk answer m =>
      cases answer with
      | ok a => exact .inr ⟨a, m, outcome, e, (bind_of_returns outcome next).symm.trans both⟩
      | error e' =>
        cases (bind_of_raised outcome next).symm.trans both
        exact .inl ⟨e, outcome⟩
  · rintro (⟨e, first⟩ | ⟨a, m, first, e, later⟩)
    · exact ⟨e, bind_of_raised first next⟩
    · exact ⟨e, (bind_of_returns first next).trans later⟩

@[simp] theorem returns_call (answer : Except ε α) (s : σ) (a : α) (t : σ) :
    Returns (call answer) s a t ↔ answer = .ok a ∧ s = t := Prod.ext_iff

@[simp] theorem raises_call (answer : Except ε α) (s t : σ) : Raises (call answer) s t ↔
    Raised answer ∧ s = t := by
  have run (e : ε) : (call answer : Attempt ε σ α).run.run s = (.error e, t) ↔ answer = .error e ∧
      s = t :=
    Prod.ext_iff
  simp only [Raises, run, exists_and_right, Raised]

@[simp] theorem returns_callLeaving (answer : Except ε Unit) (next s : σ) (u : Unit) (t : σ) :
    Returns (callLeaving answer next) s u t ↔ Returned answer ∧ next = t := by
  have kept : Returns (set next : Attempt ε σ Unit) s u t ↔ next = t :=
    Prod.ext_iff.trans (and_iff_right rfl)
  simp only [callLeaving, returns_bind, returns_call]
  constructor
  · rintro ⟨a, _, ⟨returned, rfl⟩, same⟩
    exact ⟨⟨a, returned⟩, kept.mp same⟩
  · rintro ⟨⟨a, returned⟩, same⟩
    exact ⟨a, s, ⟨returned, rfl⟩, kept.mpr same⟩

@[simp] theorem raises_callLeaving (answer : Except ε Unit) (next s t : σ) :
    Raises (callLeaving answer next) s t ↔ Raised answer ∧ s = t := by
  have never (m : σ) : ¬ Raises (set next : Attempt ε σ Unit) m t :=
    fun ⟨_, raised⟩ => nomatch raised
  simp only [callLeaving, raises_bind, raises_call, never, and_false, exists_false, or_false]

/-- What `each` leaves depends on the calls that have returned. -/
theorem raises_each (answer : ι → Except ε Unit) (state : List ι → σ) (done rest : List ι) (t : σ) :
    Raises (each answer state done rest) (state done) t ↔ ∃ ran i later, rest = ran ++ i :: later ∧
      (∀ j ∈ ran, Returned (answer j)) ∧ Raised (answer i) ∧ state (done ++ ran) = t := by
  induction rest generalizing done with
  | nil => simp [each]
  | cons i rest ih =>
    simp only [each, raises_bind, raises_callLeaving, returns_callLeaving]
    constructor
    · rintro (⟨raised, same⟩ | ⟨_, _, ⟨returned, rfl⟩, later⟩)
      · exact ⟨[], i, rest, rfl, List.forall_mem_nil _, raised,
          same ▸ congrArg state (List.append_nil done)⟩
      · obtain ⟨ran, j, later, split, before, raised, same⟩ := (ih _).mp later
        exact ⟨i :: ran, j, later, congrArg (i :: ·) split,
          List.forall_mem_cons.mpr ⟨returned, before⟩, raised, by rwa [List.append_assoc] at same⟩
    · rintro ⟨ran, j, later, split, before, raised, same⟩
      cases ran with
      | nil =>
        cases split
        exact .inl ⟨raised, (congrArg state (List.append_nil done)).symm.trans same⟩
      | cons first ran =>
        cases split
        rw [List.forall_mem_cons] at before
        exact .inr ⟨(), _, ⟨before.1, rfl⟩, (ih _).mpr ⟨ran, j, later, rfl, before.2, raised,
          by rwa [List.append_assoc]⟩⟩

theorem returns_each (answer : ι → Except ε Unit) (state : List ι → σ) (done rest : List ι)
    (u : Unit) (t : σ) :
    Returns (each answer state done rest) (state done) u t ↔
      (∀ i ∈ rest, Returned (answer i)) ∧ state (done ++ rest) = t := by
  induction rest generalizing done with
  | nil => simp [each]
  | cons i rest ih =>
    simp only [each, returns_bind, returns_callLeaving, List.forall_mem_cons, and_assoc]
    rw [List.append_cons done i rest]
    constructor
    · rintro ⟨_, _, returned, rfl, later⟩
      exact ⟨returned, (ih _).mp later⟩
    · rintro ⟨returned, later⟩
      exact ⟨(), _, returned, rfl, (ih _).mpr later⟩

/-! The first call of a run. -/

theorem raises_get_bind (next : σ → Attempt ε σ α) (s t : σ) : Raises (get >>= next) s t ↔
    Raises (next s) s t :=
  Iff.rfl

theorem returns_get_bind (next : σ → Attempt ε σ α) (s : σ) (a : α) (t : σ) :
    Returns (get >>= next) s a t ↔ Returns (next s) s a t := Iff.rfl

theorem raises_call_bind (answer : Except ε α) (next : α → Attempt ε σ β) (s t : σ) :
    Raises (call answer >>= next) s t ↔ Raised answer ∧ s = t ∨ ∃ a, answer = .ok a ∧
      Raises (next a) s t := by
  simp only [raises_bind, raises_call, returns_call, and_assoc, exists_and_left, exists_eq_left']

theorem allOrNothing_call_bind (answer : Except ε α) (next : α → Attempt ε σ β) (s : σ) :
    AllOrNothing (call answer >>= next) s ↔ ∀ a, answer = .ok a → AllOrNothing (next a) s := by
  simp only [AllOrNothing, raises_call_bind]
  constructor
  · exact fun kept a returned t raised => kept t (.inr ⟨a, returned, raised⟩)
  · rintro kept t (⟨_, same⟩ | ⟨a, returned, raised⟩)
    · exact same.symm
    · exact kept a returned t raised

theorem returns_call_bind (answer : Except ε α) (next : α → Attempt ε σ β) (s : σ) (b : β) (t : σ) :
    Returns (call answer >>= next) s b t ↔ ∃ a, answer = .ok a ∧ Returns (next a) s b t := by
  simp only [returns_bind, returns_call, and_assoc, exists_and_left, exists_eq_left']

/-- A first run without a result, when what it leaves is known. -/
theorem raises_bind_unit {run : Attempt ε σ Unit} {P : Prop}
    (returns : ∀ u m, Returns run s u m ↔ P ∧ left = m) (next : Unit → Attempt ε σ β) (t : σ) :
    Raises (run >>= next) s t ↔ Raises run s t ∨ P ∧ Raises (next ()) left t := by
  simp only [raises_bind, returns]
  constructor
  · rintro (first | ⟨_, _, ⟨returned, rfl⟩, later⟩)
    · exact .inl first
    · exact .inr ⟨returned, later⟩
  · rintro (first | ⟨returned, later⟩)
    · exact .inl first
    · exact .inr ⟨(), left, ⟨returned, rfl⟩, later⟩

theorem returns_bind_unit {run : Attempt ε σ Unit} {P : Prop}
    (returns : ∀ u m, Returns run s u m ↔ P ∧ left = m)
    (next : Unit → Attempt ε σ β) (b : β) (t : σ) :
    Returns (run >>= next) s b t ↔ P ∧ Returns (next ()) left b t := by
  simp only [returns_bind, returns]
  constructor
  · rintro ⟨_, _, ⟨returned, rfl⟩, later⟩
    exact ⟨returned, later⟩
  · rintro ⟨returned, later⟩
    exact ⟨(), left, ⟨returned, rfl⟩, later⟩

theorem raises_callLeaving_bind (answer : Except ε Unit) (left : σ) (next : Unit → Attempt ε σ β)
    (s t : σ) :
    Raises (callLeaving answer left >>= next) s t ↔
      Raised answer ∧ s = t ∨ Returned answer ∧ Raises (next ()) left t := by
  rw [raises_bind_unit (returns_callLeaving answer left s), raises_callLeaving]

theorem returns_callLeaving_bind (answer : Except ε Unit) (left : σ) (next : Unit → Attempt ε σ β)
    (s : σ) (b : β) (t : σ) : Returns (callLeaving answer left >>= next) s b t ↔ Returned answer ∧
    Returns (next ()) left b t :=
  returns_bind_unit (returns_callLeaving answer left s) next b t

theorem raises_each_bind (answer : ι → Except ε Unit) (state : List ι → σ) (done rest : List ι)
    (start : state done = s) (next : Unit → Attempt ε σ β) (t : σ) :
    Raises (each answer state done rest >>= next) s t ↔
      (∃ ran i later, rest = ran ++ i :: later ∧ (∀ j ∈ ran, Returned (answer j)) ∧
        Raised (answer i) ∧
        state (done ++ ran) = t) ∨
      (∀ i ∈ rest, Returned (answer i)) ∧ Raises (next ()) (state (done ++ rest)) t := by
  subst start
  rw [raises_bind_unit (returns_each answer state done rest), raises_each]

theorem returns_each_bind (answer : ι → Except ε Unit) (state : List ι → σ) (done rest : List ι)
    (start : state done = s) (next : Unit → Attempt ε σ β) (b : β) (t : σ) :
    Returns (each answer state done rest >>= next) s b t ↔
      (∀ i ∈ rest, Returned (answer i)) ∧ Returns (next ()) (state (done ++ rest)) b t := by
  subst start
  exact returns_bind_unit (returns_each answer state done rest) next b t

end Isolation
