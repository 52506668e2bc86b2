import Mathlib.Algebra.Order.BigOperators.Group.Finset
import SelfDb.Server.Pool
import SelfDb.Transition.Accounts
import SelfDb.Transition.Termination

/-! A parent that has been told to stop stops: every step brings the pool nearer to its end, and
until then there is one. -/
namespace SelfDb.Server
open Transition

/-! The steps that are left. -/

/-- A blocked worker is one signal away from its test. -/
def WorkerPc.rank : WorkerPc → Nat
  | .opening | .serving => 5
  | .testing => 4
  | .calling => 3
  | .blocked => 2
  | .closing => 1
  | .exited => 0

def Worker.rank (w : Worker) : Nat := w.pc.rank + 3 * w.pending.toNat

/-- The parent has to wait for a process too. -/
def slotRank : Option Worker → Nat
  | none => 0
  | some w => Worker.rank w + 2

/-- What the parent has to do, with the steps of the workers that it starts, and of those that
it tells. -/
def ParentPc.rank (count : Nat) : ParentPc → Nat
  | .starting i => 4 * count + 8 * (count - i) + 12
  | .calling => 4 * count + 15
  | .blocked => 4 * count + 14
  | .sleeping _ => 4 * count + 13
  | .respawning _ => 4 * count + 12
  | .testing => 4 * count + 4
  | .killing i => 4 * (count - i) + 3
  | .draining => 2
  | .drainBlocked => 1
  | .stopped => 0

def State.rank (count : Nat) (s : State) : Nat :=
  s.parent.pc.rank count + 2 * s.parent.pending.toNat + owing slotRank count s.slots

/-- No connection arrives, nobody sends a signal, and none is delivered in a window. -/
def quiet (s : State) (e : Event) : Prop :=
  inWindow s e = false ∧
    match e with
    | .worker _ .accepted | .worker _ .aborted | .termWorker _ | .termParent => False
    | _ => True

theorem WorkerPc.next_rank (moved : WorkerPc.next stopping pc e = some after)
    (accepted : e ≠ .accepted) (aborted : e ≠ .aborted) : after.rank < pc.rank := by
  cases stopping <;> cases pc <;> cases e <;> cases moved <;> first
    | exact absurd rfl accepted
    | exact absurd rfl aborted
    | decide

theorem WorkerPc.interrupt_rank (pc : WorkerPc) : pc.interrupt.rank < pc.rank + 3 := by
  cases pc <;> simp [WorkerPc.interrupt, WorkerPc.rank]

theorem ParentPc.interrupt_rank (count : Nat) (pc : ParentPc) :
    pc.interrupt.rank count < pc.rank count + 2 := by
  cases pc <;> simp [ParentPc.interrupt, ParentPc.rank]

theorem Worker.step_rank (taken : Worker.step w e = some after) (accepted : e ≠ .accepted)
    (aborted : e ≠ .aborted) : Worker.rank after < Worker.rank w := by
  rcases Worker.step_cases taken with ⟨-, -, pending, rfl⟩ | ⟨pc, moved, rfl⟩
  · have less := w.pc.interrupt_rank
    rw [Worker.rank, Worker.rank, pending]
    exact less
  · have less := WorkerPc.next_rank moved accepted aborted
    exact Nat.add_lt_add_right less _

theorem Worker.rank_le (w : Worker) : Worker.rank w ≤ 8 := by
  have pc : w.pc.rank ≤ 5 := by cases w.pc <;> simp [WorkerPc.rank]
  have signal := Bool.toNat_le w.pending
  rw [Worker.rank]
  omega

theorem slotRank_le (slot : Option Worker) : slotRank slot ≤ 10 := by
  cases slot with
  | none => exact Nat.zero_le _
  | some w => exact Nat.add_le_add_right (Worker.rank_le w) 2

theorem slotRank_term (slot : Option Worker) :
    slotRank (slot.map Process.term) ≤ slotRank slot + 3 := by
  cases slot with
  | none => exact Nat.zero_le _
  | some w =>
    have signal := Bool.toNat_le w.pending
    simp only [Option.map_some, slotRank, Worker.rank, Process.term, Bool.toNat_true]
    omega

namespace State
variable {s : State} {pc : ParentPc}

/-- One slot changes, and the parent goes on. -/
theorem rank_setSlot_lt (inside : i < count)
    (less : slotRank slot + pc.rank count < slotRank (s.slots i) + s.parent.pc.rank count) :
    ((s.setSlot i slot).goto pc).rank count < s.rank count := by
  have changed := owing_update slotRank inside s.slots slot
  simp only [rank, goto, setSlot]
  omega

theorem rank_goto_lt (less : pc.rank count < s.parent.pc.rank count) :
    (s.goto pc).rank count < s.rank count :=
  Nat.add_lt_add_right (Nat.add_lt_add_right less _) _

/-- A worker that is started has not been sent a signal. -/
theorem rank_fork_lt (inside : i < count)
    (less : pc.rank count + 7 < s.parent.pc.rank count) (ok : Bool) :
    ((s.fork i ok).goto pc).rank count < s.rank count := by
  refine rank_setSlot_lt inside ?_
  have new : slotRank (if ok then some ⟨.opening, s.parent.stopping, false⟩ else none) ≤ 7 := by
    cases ok
    · exact Nat.zero_le _
    · exact Nat.le_refl 7
  omega

end State

/-- The parent has been told, and the pool is as its steps leave it. -/
structure Stopping (count : Nat) (s : State) : Prop where
  sound : Sound s
  pooled : Pooled count s
  told : s.parent.stopping = true

namespace Stopping

/-- It has not called `wait` for a worker that it would replace. -/
theorem not_committed (stopping : Stopping count s) : ¬ s.parent.pc.committed := fun committed =>
  absurd ((stopping.sound.parent committed).symm.trans stopping.told) Bool.false_ne_true

theorem parentMove (moved : ParentMove count s e after) (told : s.parent.stopping = true) :
    after.parent.stopping = true := by
  cases moved with
  | delivered => rfl
  | _ => exact told

theorem keeps (stopping : Stopping count s) (allowed : quiet s e)
    (taken : s.step count e = some after) : Stopping count after := by
  refine ⟨stopping.sound.step allowed.1 taken, stopping.pooled.step taken, ?_⟩
  cases e with
  | worker i e =>
    obtain ⟨w, found, rest⟩ := Option.bind_eq_some_iff.mp taken
    obtain ⟨next, moved, rfl⟩ := Option.map_eq_some_iff.mp rest
    exact stopping.told
  | parent e => exact parentMove (State.parentStep_cases taken) stopping.told
  | termWorker i => exact allowed.2.elim
  | termParent => exact allowed.2.elim

theorem worker_decreases (stopping : Stopping count s) (found : s.slots i = some w)
    (less : Worker.rank after < Worker.rank w) :
    (s.setSlot i (some after)).rank count < s.rank count := by
  change ((s.setSlot i (some after)).goto s.parent.pc).rank count < s.rank count
  refine State.rank_setSlot_lt (stopping.pooled.some_lt found) ?_
  rw [found]
  exact Nat.add_lt_add_right (Nat.add_lt_add_right less 2) _

theorem parent_decreases (stopping : Stopping count s) (moved : ParentMove count s e after) :
    after.rank count < s.rank count := by
  have pooled := stopping.pooled
  cases moved with
  | delivered pending running =>
    have less := s.parent.pc.interrupt_rank count
    simp only [State.rank, pending, Bool.toNat_true, Bool.toNat_false]
    omega
  | @started i ok here =>
    refine State.rank_fork_lt (pooled.slot i (by rw [here]; rfl)) ?_ ok
    rw [here]
    split <;> simp only [ParentPc.rank] <;> omega
  | tested here =>
    refine State.rank_goto_lt ?_
    rw [stopping.told, if_pos rfl, here]
    simp only [ParentPc.rank]
    omega
  | reaped here zombie => exact absurd here stopping.not_committed
  | alone here alone => exact absurd (.inl here) stopping.not_committed
  | waits here child => exact absurd (.inl here) stopping.not_committed
  | woke here =>
    refine State.rank_goto_lt ?_
    rw [here]
    exact Nat.lt_succ_self _
  | @respawned i ok here =>
    refine State.rank_fork_lt (pooled.slot i (by rw [here]; rfl)) ?_ ok
    rw [here]
    simp only [ParentPc.rank]
    omega
  | @kills i here less =>
    have told := slotRank_term (s.slots i)
    refine State.rank_setSlot_lt less ?_
    rw [here]
    simp only [ParentPc.rank]
    omega
  | told here all =>
    refine State.rank_goto_lt ?_
    rw [here]
    simp only [ParentPc.rank]
    omega
  | @drained i here zombie =>
    have gone : 2 ≤ slotRank (s.slots i) := by
      obtain ⟨w, found⟩ := Option.ne_none_iff_exists'.mp (State.zombie_ne_none zombie)
      rw [found]
      exact Nat.le_add_left 2 _
    have last : 1 ≤ s.parent.pc.rank count := by
      rcases here with here | here <;> rw [here] <;> simp [ParentPc.rank]
    refine State.rank_setSlot_lt (pooled.zombie_lt zombie) ?_
    change 0 + 2 < slotRank (s.slots i) + s.parent.pc.rank count
    omega
  | stops here alone =>
    refine State.rank_goto_lt ?_
    rw [here]
    exact Nat.zero_lt_two
  | drains here child =>
    refine State.rank_goto_lt ?_
    rw [here]
    exact Nat.one_lt_two

theorem descent : Descent (State.step count) quiet (Stopping count) (State.rank count) where
  keeps := keeps
  decreases := by
    intro s e after stopping allowed taken
    cases e with
    | worker i e =>
      obtain ⟨w, found, rest⟩ := Option.bind_eq_some_iff.mp taken
      obtain ⟨next, moved, rfl⟩ := Option.map_eq_some_iff.mp rest
      refine stopping.worker_decreases found (Worker.step_rank moved ?_ ?_)
      · rintro rfl
        exact allowed.2
      · rintro rfl
        exact allowed.2
    | parent e => exact stopping.parent_decreases (State.parentStep_cases taken)
    | termWorker i => exact allowed.2.elim
    | termParent => exact allowed.2.elim

end Stopping

theorem State.rank_le (positive : 0 < count) (s : State) : s.rank count ≤ 22 * count + 14 := by
  have pc : s.parent.pc.rank count ≤ 12 * count + 12 := by
    cases s.parent.pc <;> simp only [ParentPc.rank] <;> omega
  have slots : owing slotRank count s.slots ≤ count * 10 := by
    refine (Finset.sum_le_sum fun i _ => slotRank_le (s.slots i)).trans_eq ?_
    rw [Finset.sum_const_nat fun _ _ => rfl, Finset.card_range]
  have signal := Bool.toNat_le s.parent.pending
  rw [State.rank]
  omega

/-! Until the parent has stopped, some process can go on. -/

/-- A worker that has been told to stop is not stuck. -/
theorem Worker.Told.can_step (told : Worker.Told w) (running : w.pc ≠ .exited)
    (sound : w.pc.committed → w.stopping = false) :
    ∃ e, Worker.step w e ≠ none ∧ e ≠ .accepted ∧ e ≠ .aborted ∧
      (e = .delivered → w.pc ≠ .calling) := by
  obtain ⟨pc, stopping, pending⟩ := w
  cases pc with
  | opening => exact ⟨.opened, by simp [Worker.step, WorkerPc.next]⟩
  | testing => exact ⟨.tested, by simp [Worker.step, WorkerPc.next]⟩
  | calling => exact ⟨.blocks, by simp [Worker.step, WorkerPc.next]⟩
  | blocked =>
    have clear : stopping = false := sound (.inr rfl)
    have asked : pending = true := by
      rcases told with exited | told | asked
      · exact absurd exited running
      · exact absurd (clear.symm.trans told) Bool.false_ne_true
      · exact asked
    exact ⟨.delivered, by simp [Worker.step, Process.deliver, asked]⟩
  | serving => exact ⟨.served, by simp [Worker.step, WorkerPc.next]⟩
  | closing => exact ⟨.closed, by simp [Worker.step, WorkerPc.next]⟩
  | exited => exact absurd rfl running

theorem not_finished (allowed : quiet s e) (possible : s.step count e ≠ none) :
    ¬ Finished (State.step count) quiet s := fun finished => possible (finished e allowed)

/-- The parent can take a step that is not the delivery of a signal. -/
theorem parent_can_step (other : e ≠ .delivered) (possible : s.parentStep count e ≠ none) :
    ¬ Finished (State.step count) quiet s := by
  refine not_finished (e := .parent e) ⟨?_, trivial⟩ possible
  cases e with
  | delivered => exact absurd rfl other
  | _ => rfl

namespace Stopping

theorem worker_can_step (stopping : Stopping count s) (found : s.slots i = some w)
    (told : w.Told) (running : w.pc ≠ .exited) : ¬ Finished (State.step count) quiet s := by
  obtain ⟨e, possible, accepted, aborted, window⟩ :=
    told.can_step running (stopping.sound.worker i w found)
  refine not_finished (e := .worker i e) ⟨?_, ?_⟩ ?_
  · cases e with
    | delivered =>
      rw [inWindow, found, Option.any_some]
      exact decide_eq_false (window rfl)
    | _ => rfl
  · cases e with
    | accepted => exact accepted rfl
    | aborted => exact aborted rfl
    | _ => trivial
  · obtain ⟨after, moved⟩ := Option.ne_none_iff_exists'.mp possible
    rw [State.step, found, Option.bind_some, moved]
    exact Option.some_ne_none _

/-- A child that has not exited goes on, and one that has is reaped. -/
theorem child_can_step (stopping : Stopping count s)
    (here : s.parent.pc = .draining ∨ s.parent.pc = .drainBlocked) (present : s.slots i ≠ none) :
    ¬ Finished (State.step count) quiet s := by
  obtain ⟨w, found⟩ := Option.ne_none_iff_exists'.mp present
  by_cases exited : w.pc = .exited
  · have zombie : s.zombie i = true := by
      rw [State.zombie, found, Option.any_some]
      exact decide_eq_true exited
    refine parent_can_step (e := .reaped i) ParentEvent.noConfusion ?_
    rcases here with here | here <;> simp [State.parentStep, here, State.reap, zombie]
  · have all : count ≤ s.parent.pc.told count := by
      rcases here with here | here <;> rw [here] <;> rfl
    exact stopping.worker_can_step found (stopping.pooled.told_all all i w found) exited

/-- Nothing but the end of the parent leaves no step. -/
theorem stopped_of_finished (stopping : Stopping count s)
    (finished : Finished (State.step count) quiet s) :
    s.parent.pc = .stopped ∧ ∀ i, s.slots i = none := by
  cases here : s.parent.pc with
  | starting i =>
    refine absurd finished (parent_can_step (e := .forked true) ParentEvent.noConfusion ?_)
    simp [State.parentStep, here]
  | testing =>
    refine absurd finished (parent_can_step (e := .tested) ParentEvent.noConfusion ?_)
    simp [State.parentStep, here]
  | calling => exact absurd (.inl here) stopping.not_committed
  | blocked => exact absurd (.inr here) stopping.not_committed
  | sleeping i =>
    refine absurd finished (parent_can_step (e := .woke) ParentEvent.noConfusion ?_)
    simp [State.parentStep, here]
  | respawning i =>
    refine absurd finished (parent_can_step (e := .forked true) ParentEvent.noConfusion ?_)
    simp [State.parentStep, here]
  | killing i =>
    refine absurd finished (parent_can_step (e := .kills) ParentEvent.noConfusion ?_)
    simp only [State.parentStep, here]
    split <;> simp
  | draining =>
    by_cases child : s.hasChild count = true
    · obtain ⟨i, -, present⟩ := State.hasChild_iff.mp child
      exact absurd finished (stopping.child_can_step (.inl here) present)
    · refine absurd finished (parent_can_step (e := .noChild) ParentEvent.noConfusion ?_)
      simp [State.parentStep, here, child]
  | drainBlocked =>
    obtain ⟨i, -, present⟩ := stopping.pooled.drained here
    exact absurd finished (stopping.child_can_step (.inr here) present)
  | stopped => exact ⟨rfl, stopping.pooled.stopped here⟩

end Stopping

/-- Once its handler has run, the parent reaches its end whatever the order of the steps: from
then on there are at most so many of them, and none is left only when every worker has been
waited for. -/
theorem shutdown_finishes (positive : 0 < count)
    (run : Transition.Run (State.step count) (fun s e => inWindow s e = false) initial events s)
    (told : s.parent.stopping = true) :
    (∀ later t, Transition.Run (State.step count) quiet s later t →
      later.length ≤ 22 * count + 14 ∧
        (Finished (State.step count) quiet t →
          t.parent.pc = .stopped ∧ ∀ i, t.slots i = none)) ∧
      ∃ later t, Transition.Run (State.step count) quiet s later t ∧ t.parent.pc = .stopped := by
  have stopping : Stopping count s := {
    sound := run.invariant (fun sound outside taken => sound.step outside taken) sound_initial
    pooled := run.invariant (fun pooled _ taken => pooled.step taken) (pooled_initial positive)
    told := told }
  refine ⟨fun later t rest => ⟨?_, fun finished => ?_⟩, ?_⟩
  · have length := Stopping.descent.length_le rest stopping
    have bound := s.rank_le positive
    omega
  · have last := rest.invariant Stopping.keeps stopping
    exact last.stopped_of_finished finished
  · obtain ⟨later, t, rest, last, finished⟩ := Stopping.descent.finishes stopping
    exact ⟨later, t, rest, (last.stopped_of_finished finished).1⟩

/-- The parent is told while it waits; one of its workers serves, one has crashed. -/
theorem shutdown_finishes_waiting : ∃ s,
    Transition.Run (State.step workerCount) (fun s e => inWindow s e = false) initial
      (startup ++ [.parent .tested, .parent .blocks, .worker 0 .opened, .worker 0 .tested,
        .worker 0 .accepted, .worker 1 .crashed, .termParent, .parent .delivered]) s ∧
    (∀ later t, Transition.Run (State.step workerCount) quiet s later t → later.length ≤ 102) ∧
      ∃ later t, Transition.Run (State.step workerCount) quiet s later t ∧
        t.parent.pc = .stopped := by
  obtain ⟨s, ran, told⟩ : ∃ s,
      exec (State.step workerCount) (fun s e => inWindow s e = false) initial
        (startup ++ [.parent .tested, .parent .blocks, .worker 0 .opened, .worker 0 .tested,
          .worker 0 .accepted, .worker 1 .crashed, .termParent, .parent .delivered]) = some s ∧
      s.parent.stopping = true := ⟨_, rfl, rfl⟩
  have run := (exec_eq_some_iff _ _ _).mp ran
  obtain ⟨bounded, stops⟩ := shutdown_finishes (by decide) run told
  exact ⟨s, run, fun later t rest => (bounded later t rest).1, stops⟩

end SelfDb.Server
