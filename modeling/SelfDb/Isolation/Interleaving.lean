import Mathlib.Data.List.Basic

/-! A client issues statements while others commit. Each statement sees the state
that is current when it is issued, and nothing relates the states of two statements. -/
namespace Isolation
variable {σ ι : Type}

inductive Event (σ ι : Type) where
  | commit (next : σ)
  | statement (q : ι)

/-- What the client issues, in order. -/
def statements : List (Event σ ι) → List ι
  | [] => []
  | .commit _ :: rest => statements rest
  | .statement q :: rest => q :: statements rest

/-- The statements of a run, each with the state that it sees. -/
def observed : σ → List (Event σ ι) → List (ι × σ)
  | _, [] => []
  | _, .commit next :: rest => observed next rest
  | s, .statement q :: rest => (q, s) :: observed s rest

/-- The state that the first statement `q` of a run sees; `s` if it issues none. -/
def saw [DecidableEq ι] (s : σ) (run : List (Event σ ι)) (q : ι) : σ :=
  (((observed s run).find? (·.1 = q)).map (·.2)).getD s

/-- The state that is current after a run. -/
def current : σ → List (Event σ ι) → σ
  | s, [] => s
  | _, .commit next :: rest => current next rest
  | s, .statement _ :: rest => current s rest

/-- The states that are current at some instant of a run. -/
def instants : σ → List (Event σ ι) → List σ
  | s, [] => [s]
  | s, .commit next :: rest => s :: instants next rest
  | s, .statement _ :: rest => instants s rest

theorem observed_append (s : σ) (before after : List (Event σ ι)) :
    observed s (before ++ after) = observed s before ++ observed (current s before) after := by
  induction before generalizing s with
  | nil => rfl
  | cons event rest ih =>
    cases event with
    | commit next => exact ih next
    | statement q => exact congrArg ((q, s) :: ·) (ih s)

theorem map_observed (s : σ) (run : List (Event σ ι)) :
    (observed s run).map Prod.fst = statements run := by
  induction run generalizing s with
  | nil => rfl
  | cons event rest ih =>
    cases event with
    | commit next => exact ih next
    | statement q => exact congrArg (q :: ·) (ih s)

theorem saw_mem_observed [DecidableEq ι] {s : σ} {run : List (Event σ ι)}
    (issued : q ∈ statements run) :
    (q, saw s run q) ∈ observed s run := by
  rw [← map_observed s, List.mem_map] at issued
  obtain ⟨pair, member, rfl⟩ := issued
  have present : ((observed s run).find? (·.1 = pair.1)).isSome := by
    rw [List.find?_isSome]
    exact ⟨pair, member, decide_eq_true rfl⟩
  obtain ⟨seen, found⟩ := Option.isSome_iff_exists.mp present
  have named : seen.1 = pair.1 := by simpa using List.find?_some found
  rw [saw, found, ← named]
  exact List.mem_of_find?_eq_some found

theorem mem_instants (s : σ) (run : List (Event σ ι)) : s ∈ instants s run := by
  induction run generalizing s with
  | nil => exact List.mem_cons_self
  | cons event rest ih =>
    cases event with
    | commit next => exact List.mem_cons_self
    | statement q => exact ih s

theorem current_mem_instants (s : σ) (before after : List (Event σ ι)) :
    current s before ∈ instants s (before ++ after) := by
  induction before generalizing s with
  | nil => exact mem_instants s after
  | cons event rest ih =>
    cases event with
    | commit next => exact List.mem_cons_of_mem _ (ih next)
    | statement q => exact ih s

/-! `same q` relates the states in which `q` has the same answer. -/

variable (same : ι → σ → σ → Prop)

/-- Every commit leaves the answers that the client has already read. -/
def KeepsRead : σ → List ι → List (Event σ ι) → Prop
  | _, _, [] => True
  | s, earlier, .commit next :: rest => (∀ q ∈ earlier, same q s next) ∧ KeepsRead next earlier rest
  | s, earlier, .statement q :: rest => KeepsRead s (q :: earlier) rest

/-- Every commit leaves the answers that the client has yet to read. -/
def KeepsUnread : σ → List (Event σ ι) → Prop
  | _, [] => True
  | s, .commit next :: rest => (∀ q ∈ statements rest, same q s next) ∧ KeepsUnread next rest
  | s, .statement _ :: rest => KeepsUnread s rest

/-- Up to some instant the commits leave what was read before them, and from it
on what is read after them. -/
def Settled (s : σ) (run : List (Event σ ι)) : Prop :=
  ∃ before after, run = before ++ after ∧ KeepsRead same s [] before ∧
    KeepsUnread same (current s before) after

variable {same}

theorem KeepsRead.observed (equivalence : ∀ q, Equivalence (same q)) {run : List (Event σ ι)}
    (keeps : KeepsRead same s earlier run) :
    (∀ q ∈ earlier, same q s (current s run)) ∧
    ∀ seen ∈ observed s run, same seen.1 seen.2 (current s run) := by
  induction run generalizing s earlier with
  | nil => exact ⟨fun q _ => (equivalence q).refl s, fun _ seen => nomatch seen⟩
  | cons event rest ih =>
    cases event with
    | commit next =>
      obtain ⟨step, later⟩ := keeps
      obtain ⟨kept, rest⟩ := ih later
      exact ⟨fun q member => (equivalence q).trans (step q member) (kept q member), rest⟩
    | statement q =>
      obtain ⟨kept, rest⟩ := ih keeps
      rw [List.forall_mem_cons] at kept
      exact ⟨kept.2, List.forall_mem_cons.mpr ⟨kept.1, rest⟩⟩

theorem KeepsUnread.observed (equivalence : ∀ q, Equivalence (same q)) {run : List (Event σ ι)}
    (keeps : KeepsUnread same s run) : ∀ seen ∈ observed s run, same seen.1 seen.2 s := by
  induction run generalizing s with
  | nil => exact fun _ seen => nomatch seen
  | cons event rest ih =>
    cases event with
    | commit next =>
      obtain ⟨step, later⟩ := keeps
      intro seen member
      have issued : seen.1 ∈ statements rest := by
        rw [← map_observed next rest]
        exact List.mem_map_of_mem member
      exact (equivalence seen.1).trans (ih later seen member)
        ((equivalence seen.1).symm (step _ issued))
    | statement q => exact List.forall_mem_cons.mpr ⟨(equivalence q).refl s, ih keeps⟩

/-- All statements of a settled run have the answers of one instant. -/
theorem Settled.saw [DecidableEq ι] (equivalence : ∀ q, Equivalence (same q))
    {run : List (Event σ ι)}
    (settled : Settled same s run) :
    ∃ t ∈ instants s run, ∀ q ∈ statements run, same q (saw s run q) t := by
  obtain ⟨before, after, rfl, kept, awaited⟩ := settled
  refine ⟨current s before, current_mem_instants s before after, fun q issued => ?_⟩
  have member := saw_mem_observed (s := s) issued
  rw [observed_append, List.mem_append] at member
  rcases member with earlier | later
  · exact (kept.observed equivalence).2 _ earlier
  · exact awaited.observed equivalence _ later

end Isolation
