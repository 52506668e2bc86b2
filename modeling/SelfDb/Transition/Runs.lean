/-! Runs of a machine whose steps are given by events, some of which may be ruled out. -/
namespace Transition
variable {σ ε : Type} {step : σ → ε → Option σ} {allowed : σ → ε → Prop}

/-- A run whose steps are all allowed where they are taken. -/
inductive Run (step : σ → ε → Option σ) (allowed : σ → ε → Prop) : σ → List ε → σ → Prop where
  | refl (s : σ) : Run step allowed s [] s
  | next : allowed s e → step s e = some t → Run step allowed t rest u →
    Run step allowed s (e :: rest) u

/-- Every event may happen. -/
abbrev Reaches (step : σ → ε → Option σ) : σ → List ε → σ → Prop := Run step fun _ _ => True

namespace Run

theorem invariant {P : σ → Prop}
    (preserves : ∀ {s e t}, P s → allowed s e → step s e = some t → P t)
    (run : Run step allowed s events t) (start : P s) : P t := by
  induction run with
  | refl s => exact start
  | next admitted taken rest ih => exact ih (preserves start admitted taken)

theorem trans (first : Run step allowed s before t) (second : Run step allowed t after u) :
    Run step allowed s (before ++ after) u := by
  induction first with
  | refl s => exact second
  | next admitted taken rest ih => exact .next admitted taken (ih second)

theorem split (run : Run step allowed s (before ++ after) t) :
    ∃ u, Run step allowed s before u ∧ Run step allowed u after t := by
  induction before generalizing s with
  | nil => exact ⟨s, .refl s, run⟩
  | cons e before ih =>
    cases run with
    | next admitted taken rest =>
      obtain ⟨u, first, second⟩ := ih rest
      exact ⟨u, .next admitted taken first, second⟩

/-- Events that are all of a kind. -/
theorem restrict {kind : ε → Prop} (run : Run step allowed s events t)
    (only : ∀ e ∈ events, kind e) : Run step (fun s e => allowed s e ∧ kind e) s events t := by
  induction run with
  | refl s => exact .refl s
  | next admitted taken rest ih =>
    rw [List.forall_mem_cons] at only
    exact .next ⟨admitted, only.1⟩ taken (ih only.2)

end Run

/-- Takes the events in order, as long as they are allowed. -/
def exec (step : σ → ε → Option σ) (allowed : σ → ε → Prop) [∀ s e, Decidable (allowed s e)]
    (s : σ) :
    List ε → Option σ
  | [] => some s
  | e :: rest => if allowed s e then (step s e).bind fun t => exec step allowed t rest else none

theorem exec_eq_some_iff [∀ s e, Decidable (allowed s e)] (s : σ) (events : List ε) (t : σ) :
    exec step allowed s events = some t ↔ Run step allowed s events t := by
  constructor
  · intro ran
    induction events generalizing s with
    | nil =>
      cases ran
      exact .refl _
    | cons e rest ih =>
      rw [exec] at ran
      split at ran
      · next admitted =>
        obtain ⟨u, taken, later⟩ := Option.bind_eq_some_iff.mp ran
        exact .next admitted taken (ih u later)
      · cases ran
  · intro run
    induction run with
    | refl s => rfl
    | next admitted taken rest ih => rw [exec, if_pos admitted, taken, Option.bind_some, ih]

end Transition
