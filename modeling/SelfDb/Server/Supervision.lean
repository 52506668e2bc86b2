import Mathlib.Logic.Function.Basic
import Mathlib.Tactic.IntervalCases
import SelfDb.Transition.Runs

/-! `worker_loop`, `on_terminate` and the supervision in `main` of `examples/server/server.c`,
as processes whose steps alternate in any order. -/
namespace SelfDb.Server
open Transition

def workerCount : Nat := 4

/-- `stopping` is the process's `g_stopping`; `pending` is a SIGTERM that has not been delivered. -/
structure Process (π : Type) where
  pc : π
  stopping : Bool
  pending : Bool

/-- `kill(pid, SIGTERM)` -/
def Process.term (p : Process π) : Process π := { p with pending := true }

/-- `on_terminate` runs; a system call that blocks is left with EINTR. -/
def Process.deliver (interrupt : π → π) (p : Process π) : Option (Process π) :=
  if p.pending then some ⟨interrupt p.pc, true, false⟩ else none

/-! A worker. -/

inductive WorkerPc where
  | opening
  /-- `while (!g_stopping)` -/
  | testing
  /-- The test is behind it, the call of `accept` before it. -/
  | calling
  /-- `accept` blocks. -/
  | blocked
  | serving
  | closing
  /-- Until the parent waits for it. -/
  | exited
deriving DecidableEq

abbrev Worker := Process WorkerPc

inductive WorkerEvent where
  | opened
  | openFailed
  | tested
  | accepted
  | aborted
  | acceptFailed
  | blocks
  | served
  | closed
  | crashed
  | delivered

def WorkerPc.interrupt : WorkerPc → WorkerPc
  | .blocked => .testing
  | pc => pc

/-- `worker_loop` between two signals. -/
def WorkerPc.next (stopping : Bool) (pc : WorkerPc) (e : WorkerEvent) : Option WorkerPc :=
  match pc, e with
  | .exited, _ => none
  | _, .crashed => some .exited
  | .opening, .opened => some .testing
  | .opening, .openFailed => some .exited
  | .testing, .tested => some (if stopping then .closing else .calling)
  | .calling, .blocks => some .blocked
  | .calling, .accepted | .blocked, .accepted => some .serving
  | .calling, .aborted | .blocked, .aborted => some .testing
  | .calling, .acceptFailed | .blocked, .acceptFailed => some .closing
  | .serving, .served => some .testing
  | .closing, .closed => some .exited
  | _, _ => none

def Worker.step (w : Worker) (e : WorkerEvent) : Option Worker :=
  match e with
  | .delivered => if w.pc = .exited then none else w.deliver WorkerPc.interrupt
  | e => (w.pc.next w.stopping e).map fun pc => { w with pc }

/-! The parent. -/

inductive ParentPc where
  /-- The first `fork` of each slot. -/
  | starting (i : Nat)
  /-- `while (!g_stopping)` -/
  | testing
  /-- The test is behind it, the call of `wait` before it. -/
  | calling
  /-- `wait` blocks. -/
  | blocked
  | sleeping (i : Nat)
  | respawning (i : Nat)
  | killing (i : Nat)
  /-- The loop that waits for the last workers, and its `wait` that blocks. -/
  | draining
  | drainBlocked
  | stopped
deriving DecidableEq

abbrev Parent := Process ParentPc

inductive ParentEvent where
  | forked (ok : Bool)
  | tested
  | reaped (i : Nat)
  | noChild
  | blocks
  | woke
  | kills
  | delivered

def ParentPc.interrupt : ParentPc → ParentPc
  | .blocked => .testing
  | .sleeping i => .respawning i
  | .drainBlocked => .draining
  | pc => pc

/-- The parent, and the process of each slot of `workers`. -/
structure State where
  parent : Parent
  slots : Nat → Option Worker

namespace State
variable (count : Nat) (s : State)

def zombie (i : Nat) : Bool := (s.slots i).any fun w => w.pc = .exited

def hasChild : Bool := (List.range count).any fun i => (s.slots i).isSome

def hasZombie : Bool := (List.range count).any fun i => s.zombie i

def goto (pc : ParentPc) : State := { s with parent := { s.parent with pc } }

def setSlot (i : Nat) (w : Option Worker) : State := { s with slots := Function.update s.slots i w }

/-- The child has the parent's `g_stopping`, and no signal is pending for it. -/
def fork (i : Nat) (ok : Bool) : State :=
  s.setSlot i (if ok then some ⟨.opening, s.parent.stopping, false⟩ else none)

def reap (i : Nat) (pc : ParentPc) : Option State :=
  if s.zombie i then some ((s.setSlot i none).goto pc) else none

def parentStep (e : ParentEvent) : Option State :=
  match s.parent.pc, e with
  | .stopped, _ => none
  | _, .delivered => (s.parent.deliver ParentPc.interrupt).map fun parent => { s with parent }
  | .starting i, .forked ok =>
    some ((s.fork i ok).goto (if i + 1 < count then .starting (i + 1) else .testing))
  | .testing, .tested => some (s.goto (if s.parent.stopping then .killing 0 else .calling))
  | .calling, .reaped i | .blocked, .reaped i => s.reap i (.sleeping i)
  | .calling, .noChild => if s.hasChild count then none else some (s.goto (.killing 0))
  | .calling, .blocks =>
    if s.hasChild count && !s.hasZombie count then some (s.goto .blocked) else none
  | .sleeping i, .woke => some (s.goto (.respawning i))
  | .respawning i, .forked ok => some ((s.fork i ok).goto .testing)
  | .killing i, .kills =>
    if i < count then some ((s.setSlot i ((s.slots i).map Process.term)).goto (.killing (i + 1)))
    else some (s.goto .draining)
  | .draining, .reaped i | .drainBlocked, .reaped i => s.reap i .draining
  | .draining, .noChild => if s.hasChild count then none else some (s.goto .stopped)
  | .draining, .blocks =>
    if s.hasChild count && !s.hasZombie count then some (s.goto .drainBlocked) else none
  | _, _ => none

end State

/-- A step of a worker, a step of the parent, or a SIGTERM that someone sends to one of them. -/
inductive Event where
  | worker (i : Nat) (e : WorkerEvent)
  | parent (e : ParentEvent)
  | termWorker (i : Nat)
  | termParent

def State.step (count : Nat) (s : State) : Event → Option State
  | .worker i e => (s.slots i).bind fun w => (w.step e).map fun after => s.setSlot i (some after)
  | .parent e => s.parentStep count e
  | .termWorker i => some (s.setSlot i ((s.slots i).map Process.term))
  | .termParent => some { s with parent := s.parent.term }

/-- `main` before its first `fork`. -/
def initial : State := ⟨⟨.starting 0, false, false⟩, fun _ => none⟩

/-! Stop requests. -/

/-- A worker that has to stop, or the parent before it has told any worker, waits for
something else. -/
def Lost (count : Nat) (s : State) : Prop :=
  (∃ i w, s.slots i = some w ∧ w.pc = .blocked ∧ w.stopping = true) ∨
    s.parent.pc = .blocked ∧ s.parent.stopping = true ∧
      ∀ i < count, ∃ w, s.slots i = some w ∧ w.pc ≠ .exited ∧ w.pending = false ∧ w.stopping = false

/-- The signal is delivered between the test of `g_stopping` and the call that blocks. -/
def inWindow (s : State) : Event → Bool
  | .worker i .delivered => (s.slots i).any fun w => w.pc = .calling
  | .parent .delivered => s.parent.pc = .calling
  | _ => false

/-- The test of `g_stopping` is behind the worker, and the call not yet over. -/
def WorkerPc.committed (pc : WorkerPc) : Prop := pc = .calling ∨ pc = .blocked

def ParentPc.committed (pc : ParentPc) : Prop := pc = .calling ∨ pc = .blocked

/-- A process that is committed to its call has not been told to stop. -/
structure Sound (s : State) : Prop where
  worker : ∀ i w, s.slots i = some w → w.pc.committed → w.stopping = false
  parent : s.parent.pc.committed → s.parent.stopping = false

theorem sound_initial : Sound initial := ⟨nofun, nofun⟩

theorem Sound.not_lost (sound : Sound s) : ¬ Lost count s := by
  rintro (⟨i, w, found, blocked, stopping⟩ | ⟨blocked, stopping, -⟩)
  · exact Bool.false_ne_true ((sound.worker i w found (.inr blocked)).symm.trans stopping)
  · exact Bool.false_ne_true ((sound.parent (.inr blocked)).symm.trans stopping)

/-- Only a test that finds the flag clear commits a worker. -/
theorem WorkerPc.next_committed (moved : WorkerPc.next stopping pc e = some after)
    (committed : after.committed) :
    pc.committed ∨ stopping = false := by
  cases stopping with
  | false => exact .inr rfl
  | true =>
    rcases committed with rfl | rfl
    · cases pc <;> cases e <;> simp [WorkerPc.next] at moved
    · cases pc <;> cases e <;> simp [WorkerPc.next] at moved
      exact .inl (.inl rfl)

theorem WorkerPc.interrupt_committed (committed : (WorkerPc.interrupt pc).committed) :
    pc = .calling := by
  cases pc <;> simp [WorkerPc.interrupt, WorkerPc.committed] at committed
  rfl

theorem ParentPc.interrupt_committed (committed : (ParentPc.interrupt pc).committed) :
    pc = .calling := by
  cases pc <;> simp [ParentPc.interrupt, ParentPc.committed] at committed
  rfl

theorem worker_step_sound (taken : Worker.step w e = some after)
    (outside : e = .delivered → w.pc ≠ .calling)
    (sound : w.pc.committed → w.stopping = false) : after.pc.committed →
    after.stopping = false := by
  intro committed
  rw [Worker.step.eq_def] at taken
  split at taken
  · split at taken
    · cases taken
    · rw [Process.deliver] at taken
      split at taken
      · cases taken
        exact absurd (WorkerPc.interrupt_committed committed) (outside rfl)
      · cases taken
  · obtain ⟨pc, moved, rfl⟩ := Option.map_eq_some_iff.mp taken
    rcases WorkerPc.next_committed moved committed with before | clear
    · exact sound before
    · exact clear

/-! Each step keeps the invariant. -/

namespace Sound

theorem setSlot (sound : Sound s) (i : Nat)
    (kept : ∀ w ∈ after, w.pc.committed → w.stopping = false) :
    Sound (s.setSlot i after) := by
  refine ⟨fun j w found => ?_, sound.parent⟩
  change Function.update s.slots i after j = some w at found
  rw [Function.update_apply] at found
  split at found
  · exact kept w found
  · exact sound.worker j w found

theorem goto (sound : Sound s) (kept : pc.committed → s.parent.stopping = false) :
    Sound (s.goto pc) :=
  ⟨sound.worker, kept⟩

theorem free (sound : Sound s) (pc : ParentPc) (free : ¬ pc.committed) : Sound (s.goto pc) :=
  sound.goto fun committed => absurd committed free

/-- A new worker begins before its first test. -/
theorem fork (sound : Sound s) (i : Nat) (ok : Bool) : Sound (s.fork i ok) := by
  refine sound.setSlot i fun w forked committed => ?_
  split at forked
  · cases forked
    rcases committed with opening | opening <;> cases opening
  · cases forked

theorem term (sound : Sound s) (i : Nat) : Sound (s.setSlot i ((s.slots i).map Process.term)) := by
  refine sound.setSlot i fun w marked => ?_
  obtain ⟨before, found, rfl⟩ := Option.map_eq_some_iff.mp marked
  exact sound.worker i before found

theorem reap (sound : Sound s) (taken : s.reap i pc = some after) (free : ¬ pc.committed) :
    Sound after := by
  rw [State.reap] at taken
  split at taken
  · cases taken
    exact (sound.setSlot i (by simp)).free pc free
  · cases taken

theorem delivered (sound : Sound s) (outside : s.parent.pc ≠ .calling)
    (taken : s.parent.deliver ParentPc.interrupt = some told) :
    Sound { s with parent := told } := by
  refine ⟨sound.worker, fun committed => ?_⟩
  rw [Process.deliver] at taken
  split at taken
  · cases taken
    exact absurd (ParentPc.interrupt_committed committed) outside
  · cases taken

theorem parentStep (sound : Sound s) (taken : s.parentStep count e = some after)
    (outside : e = .delivered → s.parent.pc ≠ .calling) : Sound after := by
  rw [State.parentStep.eq_def] at taken
  split at taken
  case h_1 => cases taken
  case h_2 =>
    obtain ⟨parent, delivered, rfl⟩ := Option.map_eq_some_iff.mp taken
    exact sound.delivered (outside rfl) delivered
  case h_3 i ok starting =>
    cases taken
    refine (sound.fork i ok).free _ ?_
    split <;> simp [ParentPc.committed]
  case h_4 testing =>
    cases taken
    refine sound.goto fun committed => ?_
    split at committed
    · simp [ParentPc.committed] at committed
    · next clear => simpa using clear
  case h_5 => exact sound.reap taken (by simp [ParentPc.committed])
  case h_6 => exact sound.reap taken (by simp [ParentPc.committed])
  case h_7 =>
    split at taken
    · cases taken
    · cases taken
      exact sound.free _ (by simp [ParentPc.committed])
  case h_8 calling =>
    split at taken
    · cases taken
      exact sound.goto fun _ => sound.parent (.inl calling)
    · cases taken
  case h_9 =>
    cases taken
    exact sound.free _ (by simp [ParentPc.committed])
  case h_10 i ok respawning =>
    cases taken
    exact (sound.fork i ok).free _ (by simp [ParentPc.committed])
  case h_11 i killing =>
    split at taken
    · cases taken
      exact (sound.term i).free _ (by simp [ParentPc.committed])
    · cases taken
      exact sound.free _ (by simp [ParentPc.committed])
  case h_12 => exact sound.reap taken (by simp [ParentPc.committed])
  case h_13 => exact sound.reap taken (by simp [ParentPc.committed])
  case h_14 =>
    split at taken
    · cases taken
    · cases taken
      exact sound.free _ (by simp [ParentPc.committed])
  case h_15 =>
    split at taken
    · cases taken
      exact sound.free _ (by simp [ParentPc.committed])
    · cases taken
  case h_16 => cases taken

theorem step (sound : Sound s) (outside : inWindow s e = false)
    (taken : s.step count e = some after) :
    Sound after := by
  cases e with
  | worker i e =>
    obtain ⟨w, found, rest⟩ := Option.bind_eq_some_iff.mp taken
    obtain ⟨next, moved, rfl⟩ := Option.map_eq_some_iff.mp rest
    refine sound.setSlot i fun w' same => ?_
    cases same
    refine worker_step_sound moved ?_ (sound.worker i w found)
    rintro rfl calling
    rw [inWindow, found, Option.any_some, calling] at outside
    cases outside
  | parent e =>
    refine sound.parentStep taken ?_
    rintro rfl calling
    rw [inWindow, calling] at outside
    cases outside
  | termWorker i =>
    cases taken
    exact sound.term i
  | termParent =>
    cases taken
    exact ⟨sound.worker, sound.parent⟩

end Sound

/-- As long as no signal is delivered between a test of `g_stopping` and the call behind it, no
stop request is lost. -/
theorem no_request_lost
    (run : Transition.Run (State.step count) (fun s e => inWindow s e = false) initial events s) :
    ¬ Lost count s :=
  (run.invariant (fun sound outside taken => sound.step outside taken) sound_initial).not_lost

/-- `main` up to the loop, with all workers. -/
def startup : List Event := List.replicate workerCount (.parent (.forked true))

/-- The parent is told to stop while it waits, and a worker while it serves. -/
theorem no_request_lost_waiting : ∃ s,
    Transition.Run (State.step workerCount) (fun s e => inWindow s e = false) initial
      (startup ++ [.parent .tested, .parent .blocks, .worker 0 .opened, .worker 0 .tested,
        .worker 0 .accepted, .termParent, .parent .delivered, .parent .tested, .parent .kills,
          .worker 0 .delivered]) s ∧
      ¬ Lost workerCount s := by
  obtain ⟨s, ran⟩ : ∃ s, exec (State.step workerCount) (fun s e => inWindow s e = false) initial
      (startup ++ [.parent .tested, .parent .blocks, .worker 0 .opened, .worker 0 .tested,
        .worker 0 .accepted, .termParent, .parent .delivered, .parent .tested, .parent .kills,
        .worker 0 .delivered]) = some s := ⟨_, rfl⟩
  have run := (exec_eq_some_iff _ _ _).mp ran
  exact ⟨s, run, no_request_lost run⟩

/-- A delivery in the window of a worker loses the request if no connection arrives. -/
theorem worker_window_loses (found : s.slots i = some w) (calling : w.pc = .calling)
    (pending : w.pending = true) :
    ∃ after, Reaches (State.step count) s [.worker i .delivered, .worker i .blocks] after ∧
      Lost count after := by
  have delivered : s.step count (.worker i .delivered) =
      some (s.setSlot i (some ⟨.calling, true, false⟩)) := by
    simp [State.step, found, Worker.step, calling, Process.deliver, pending, WorkerPc.interrupt]
  have blocks : (s.setSlot i (some ⟨.calling, true, false⟩)).step count (.worker i .blocks) =
      some ((s.setSlot i (some ⟨.calling, true, false⟩)).setSlot i
        (some ⟨.blocked, true, false⟩)) := by
    simp [State.step, State.setSlot, Worker.step, WorkerPc.next]
  refine ⟨_, .next trivial delivered (.next trivial blocks (.refl _)),
    .inl ⟨i, ⟨.blocked, true, false⟩, ?_, rfl, rfl⟩⟩
  simp [State.setSlot]

/-- So does a delivery in the window of the parent, if its workers run and have not been told. -/
theorem parent_window_loses (calling : s.parent.pc = .calling) (pending : s.parent.pending = true)
    (positive : 0 < count)
    (workers : ∀ i < count, ∃ w, s.slots i = some w ∧ w.pc ≠ .exited ∧ w.pending = false ∧
      w.stopping = false) :
    ∃ after, Reaches (State.step count) s [.parent .delivered, .parent .blocks] after ∧
      Lost count after := by
  have child : s.hasChild count = true := by
    obtain ⟨w, found, -⟩ := workers 0 positive
    exact List.any_eq_true.mpr ⟨0, List.mem_range.mpr positive, by rw [found]; rfl⟩
  have none : s.hasZombie count = false := by
    refine List.any_eq_false.mpr fun i member zombie => ?_
    obtain ⟨w, found, alive, -⟩ := workers i (List.mem_range.mp member)
    rw [State.zombie, found, Option.any_some, decide_eq_true_eq] at zombie
    exact alive zombie
  have delivered : s.step count (.parent .delivered) =
      some { s with parent := ⟨.calling, true, false⟩ } := by
    simp [State.step, State.parentStep, calling, Process.deliver, pending, ParentPc.interrupt]
  have blocks : State.step count { s with parent := ⟨.calling, true, false⟩ } (.parent .blocks) =
      some { s with parent := ⟨.blocked, true, false⟩ } := by
    change (if s.hasChild count && !s.hasZombie count then _ else _) = _
    rw [child, none]
    rfl
  exact ⟨_, .next trivial delivered (.next trivial blocks (.refl _)), .inr ⟨rfl, rfl, workers⟩⟩

/-- The signal of the parent reaches worker 0 behind its test; and the parent is told behind
its own. -/
theorem request_lost :
    (∃ s, Reaches (State.step workerCount) initial
      (startup ++ [.parent .tested, .parent .blocks, .worker 0 .opened, .worker 0 .tested,
        .termParent, .parent .delivered, .parent .tested, .parent .kills, .worker 0 .delivered,
          .worker 0 .blocks]) s ∧ Lost workerCount s) ∧
    ∃ s, Reaches (State.step workerCount) initial
      (startup ++ [.parent .tested, .termParent, .parent .delivered, .parent .blocks]) s ∧
      Lost workerCount s := by
  refine ⟨⟨_, (exec_eq_some_iff _ _ _).mp rfl, .inl ⟨0, _, rfl, rfl, rfl⟩⟩,
    ⟨_, (exec_eq_some_iff _ _ _).mp rfl, .inr ⟨rfl, rfl, fun i less => ?_⟩⟩⟩
  rw [workerCount] at less
  interval_cases i <;> exact ⟨_, rfl, by decide, rfl, rfl⟩

end SelfDb.Server
