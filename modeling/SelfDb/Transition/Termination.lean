import SelfDb.Transition.Runs

/-! Runs that cannot go on forever, by a measure of the steps that are left. -/
namespace Transition
variable {σ ε : Type} {step : σ → ε → Option σ} {allowed : σ → ε → Prop}

/-- No step that is allowed is left. -/
def Finished (step : σ → ε → Option σ) (allowed : σ → ε → Prop) (s : σ) : Prop :=
  ∀ e, allowed s e → step s e = none

/-- Each allowed step keeps `P`, and uses the measure up. -/
structure Descent (step : σ → ε → Option σ) (allowed : σ → ε → Prop) (P : σ → Prop)
    (measure : σ → Nat) : Prop where
  keeps : ∀ {s e t}, P s → allowed s e → step s e = some t → P t
  decreases : ∀ {s e t}, P s → allowed s e → step s e = some t → measure t < measure s

namespace Descent
variable {P : σ → Prop} {measure : σ → Nat}

theorem length_le (descent : Descent step allowed P measure) (run : Run step allowed s events t)
    (start : P s) : events.length + measure t ≤ measure s := by
  induction run with
  | refl s => exact Nat.le_of_eq (Nat.zero_add _)
  | next admitted taken rest ih =>
    have later := ih (descent.keeps start admitted taken)
    have less := descent.decreases start admitted taken
    rw [List.length_cons]
    omega

/-- What is allowed can be taken until nothing is left. -/
theorem finishes (descent : Descent step allowed P measure) (start : P s) :
    ∃ events t, Run step allowed s events t ∧ P t ∧ Finished step allowed t := by
  induction left : measure s using Nat.strongRecOn generalizing s with
  | ind n ih =>
    by_cases finished : Finished step allowed s
    · exact ⟨[], s, .refl s, start, finished⟩
    · obtain ⟨e, blocked⟩ := Classical.not_forall.mp finished
      obtain ⟨admitted, possible⟩ := Classical.not_imp.mp blocked
      obtain ⟨t, taken⟩ := Option.ne_none_iff_exists'.mp possible
      have less := descent.decreases start admitted taken
      obtain ⟨events, u, run, last, finished⟩ :=
        ih (measure t) (left ▸ less) (descent.keeps start admitted taken) rfl
      exact ⟨e :: events, u, .next admitted taken run, last, finished⟩

end Descent

end Transition
