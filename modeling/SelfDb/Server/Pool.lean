import SelfDb.Server.Supervision

/-! The pool of workers over whole runs: which slots the parent has filled, and which workers it
has told to stop. -/
namespace SelfDb.Server
open Transition

/-! What a step can do. -/

theorem Worker.step_cases (taken : Worker.step w e = some after) :
    (e = .delivered ∧ w.pc ≠ .exited ∧ w.pending = true ∧
      after = ⟨WorkerPc.interrupt w.pc, true, false⟩) ∨
    ∃ pc, w.pc.next w.stopping e = some pc ∧ after = { w with pc } := by
  rw [Worker.step.eq_def] at taken
  split at taken
  · split at taken
    · cases taken
    · next running =>
      rw [Process.deliver] at taken
      split at taken
      · next pending =>
        cases taken
        exact .inl ⟨rfl, running, pending, rfl⟩
      · cases taken
  · obtain ⟨pc, moved, rfl⟩ := Option.map_eq_some_iff.mp taken
    exact .inr ⟨pc, moved, rfl⟩

/-- The steps of the parent. -/
inductive ParentMove (count : Nat) (s : State) : ParentEvent → State → Prop where
  | delivered (pending : s.parent.pending = true) (running : s.parent.pc ≠ .stopped) :
    ParentMove count s .delivered
      { s with parent := ⟨ParentPc.interrupt s.parent.pc, true, false⟩ }
  | started (here : s.parent.pc = .starting i) :
    ParentMove count s (.forked ok)
      ((s.fork i ok).goto (if i + 1 < count then .starting (i + 1) else .testing))
  | tested (here : s.parent.pc = .testing) :
    ParentMove count s .tested (s.goto (if s.parent.stopping then .killing 0 else .calling))
  | reaped (here : s.parent.pc.committed) (zombie : s.zombie i = true) :
    ParentMove count s (.reaped i) ((s.setSlot i none).goto (.sleeping i))
  | alone (here : s.parent.pc = .calling) (alone : s.hasChild count = false) :
    ParentMove count s .noChild (s.goto (.killing 0))
  | waits (here : s.parent.pc = .calling) (child : s.hasChild count = true) :
    ParentMove count s .blocks (s.goto .blocked)
  | woke (here : s.parent.pc = .sleeping i) :
    ParentMove count s .woke (s.goto (.respawning i))
  | respawned (here : s.parent.pc = .respawning i) :
    ParentMove count s (.forked ok) ((s.fork i ok).goto .testing)
  | kills (here : s.parent.pc = .killing i) (less : i < count) :
    ParentMove count s .kills
      ((s.setSlot i ((s.slots i).map Process.term)).goto (.killing (i + 1)))
  | told (here : s.parent.pc = .killing i) (all : count ≤ i) :
    ParentMove count s .kills (s.goto .draining)
  | drained (here : s.parent.pc = .draining ∨ s.parent.pc = .drainBlocked)
    (zombie : s.zombie i = true) :
    ParentMove count s (.reaped i) ((s.setSlot i none).goto .draining)
  | stops (here : s.parent.pc = .draining) (alone : s.hasChild count = false) :
    ParentMove count s .noChild (s.goto .stopped)
  | drains (here : s.parent.pc = .draining) (child : s.hasChild count = true) :
    ParentMove count s .blocks (s.goto .drainBlocked)

theorem State.reap_eq_some (taken : State.reap s i pc = some after) :
    s.zombie i = true ∧ after = (s.setSlot i none).goto pc := by
  rw [State.reap] at taken
  split at taken
  · next zombie =>
    cases taken
    exact ⟨zombie, rfl⟩
  · cases taken

theorem State.parentStep_cases (taken : State.parentStep count s e = some after) :
    ParentMove count s e after := by
  rw [State.parentStep.eq_def] at taken
  split at taken
  case h_1 => cases taken
  case h_2 running =>
    obtain ⟨parent, delivered, rfl⟩ := Option.map_eq_some_iff.mp taken
    rw [Process.deliver] at delivered
    split at delivered
    · next pending =>
      cases delivered
      exact .delivered pending running
    · cases delivered
  case h_3 starting =>
    cases taken
    exact .started starting
  case h_4 testing =>
    cases taken
    exact .tested testing
  case h_5 calling =>
    obtain ⟨zombie, rfl⟩ := State.reap_eq_some taken
    exact .reaped (.inl calling) zombie
  case h_6 blocked =>
    obtain ⟨zombie, rfl⟩ := State.reap_eq_some taken
    exact .reaped (.inr blocked) zombie
  case h_7 calling =>
    split at taken
    · cases taken
    · next alone =>
      cases taken
      exact .alone calling (Bool.not_eq_true _ ▸ alone)
  case h_8 calling =>
    split at taken
    · next child =>
      cases taken
      exact .waits calling (Bool.and_eq_true_iff.mp child).1
    · cases taken
  case h_9 sleeping =>
    cases taken
    exact .woke sleeping
  case h_10 respawning =>
    cases taken
    exact .respawned respawning
  case h_11 killing =>
    split at taken
    · next less =>
      cases taken
      exact .kills killing less
    · next all =>
      cases taken
      exact .told killing (not_lt.mp all)
  case h_12 draining =>
    obtain ⟨zombie, rfl⟩ := State.reap_eq_some taken
    exact .drained (.inl draining) zombie
  case h_13 blocked =>
    obtain ⟨zombie, rfl⟩ := State.reap_eq_some taken
    exact .drained (.inr blocked) zombie
  case h_14 draining =>
    split at taken
    · cases taken
    · next alone =>
      cases taken
      exact .stops draining (Bool.not_eq_true _ ▸ alone)
  case h_15 draining =>
    split at taken
    · next child =>
      cases taken
      exact .drains draining (Bool.and_eq_true_iff.mp child).1
    · cases taken
  case h_16 => cases taken

theorem State.zombie_ne_none (zombie : State.zombie s i = true) : s.slots i ≠ none := by
  intro missing
  rw [State.zombie, missing] at zombie
  cases zombie

theorem State.hasChild_iff : State.hasChild count s = true ↔ ∃ i < count, s.slots i ≠ none := by
  simp only [State.hasChild, List.any_eq_true, List.mem_range, Option.isSome_iff_ne_none]

theorem State.setSlot_slots (s : State) (i j : Nat) (w : Option Worker) :
    (s.setSlot i w).slots j = if j = i then w else s.slots j := Function.update_apply _ _ _ _

/-! The workers and the place of the parent. -/

/-- The slot that the parent is about to fill. -/
def ParentPc.slot : ParentPc → Option Nat
  | .starting i | .sleeping i | .respawning i => some i
  | _ => none

/-- How many workers have been sent their signal. -/
def ParentPc.told (count : Nat) : ParentPc → Nat
  | .killing i => i
  | .draining | .drainBlocked | .stopped => count
  | _ => 0

/-- The stop request of the worker is under way. -/
def Worker.Told (w : Worker) : Prop := w.pc = .exited ∨ w.stopping = true ∨ w.pending = true

theorem ParentPc.no_slot (free : ParentPc.slot pc = none) (i : Nat)
    (found : ParentPc.slot pc = some i) : i < count :=
  absurd (found.symm.trans free) (Option.some_ne_none i)

structure Pooled (count : Nat) (s : State) : Prop where
  outside : ∀ i, count ≤ i → s.slots i = none
  slot : ∀ i, s.parent.pc.slot = some i → i < count
  told : ∀ i < s.parent.pc.told count, ∀ w, s.slots i = some w → Worker.Told w
  drained : s.parent.pc = .drainBlocked → ∃ i < count, s.slots i ≠ none
  stopped : s.parent.pc = .stopped → ∀ i, s.slots i = none

theorem pooled_initial (positive : 0 < count) : Pooled count initial := by
  refine ⟨fun _ _ => rfl, fun i found => ?_, fun i less => absurd less (Nat.not_lt_zero i),
    ParentPc.noConfusion, ParentPc.noConfusion⟩
  cases found
  exact positive

theorem Worker.Told.step (told : Worker.Told w) (taken : Worker.step w e = some after) :
    Worker.Told after := by
  rcases Worker.step_cases taken with ⟨-, -, -, rfl⟩ | ⟨pc, moved, rfl⟩
  · exact .inr (.inl rfl)
  · rcases told with exited | asked
    · rw [exited] at moved
      cases e <;> cases moved
    · exact .inr asked

@[simp] theorem ParentPc.interrupt_slot (pc : ParentPc) : pc.interrupt.slot = pc.slot := by
  cases pc <;> rfl

@[simp] theorem ParentPc.interrupt_told (pc : ParentPc) :
    pc.interrupt.told count = pc.told count := by
  cases pc <;> rfl

namespace Pooled

theorem ne_none_lt (pooled : Pooled count s) (present : s.slots i ≠ none) : i < count := by
  by_contra beyond
  exact present (pooled.outside i (not_lt.mp beyond))

theorem some_lt (pooled : Pooled count s) (found : s.slots i = some w) : i < count :=
  pooled.ne_none_lt (found ▸ Option.some_ne_none w)

theorem worker (pooled : Pooled count s) (found : s.slots i = some w)
    (taken : Worker.step w e = some after) : Pooled count (s.setSlot i (some after)) := by
  have inside := pooled.some_lt found
  refine ⟨fun j beyond => ?_, pooled.slot, fun j less v same => ?_, fun waits => ⟨i, inside, ?_⟩,
    fun stopped => ?_⟩
  · rw [State.setSlot_slots, if_neg (by omega), pooled.outside j beyond]
  · rw [State.setSlot_slots] at same
    split at same
    · next here =>
      subst here
      cases same
      exact (pooled.told j less w found).step taken
    · exact pooled.told j less v same
  · rw [State.setSlot_slots, if_pos rfl]
    exact Option.some_ne_none _
  · rw [pooled.stopped stopped i] at found
    cases found

/-- The parent has passed on, and no worker has changed. -/
theorem goto (pooled : Pooled count s) (slot : ∀ i, pc.slot = some i → i < count)
    (told : pc.told count = 0) (waits : pc ≠ .drainBlocked) (stopped : pc ≠ .stopped) :
    Pooled count (s.goto pc) := by
  refine ⟨pooled.outside, slot, fun i less => ?_, fun here => absurd here waits,
    fun here => absurd here stopped⟩
  rw [State.goto, told] at less
  exact absurd less (Nat.not_lt_zero i)

/-- A slot of the parent has changed. -/
theorem setSlot (pooled : Pooled count s) (inside : i < count)
    (told : i < s.parent.pc.told count → ∀ w, after = some w → Worker.Told w)
    (waits : s.parent.pc ≠ .drainBlocked) (stopped : s.parent.pc ≠ .stopped) :
    Pooled count (s.setSlot i after) := by
  refine ⟨fun j beyond => ?_, pooled.slot, fun j less w same => ?_, fun here => absurd here waits,
    fun here => absurd here stopped⟩
  · rw [State.setSlot_slots, if_neg (by omega), pooled.outside j beyond]
  · rw [State.setSlot_slots] at same
    split at same
    · next here =>
      subst here
      exact told less w same
    · exact pooled.told j less w same

theorem zombie_lt (pooled : Pooled count s) (zombie : s.zombie i = true) : i < count :=
  pooled.ne_none_lt (State.zombie_ne_none zombie)

/-- The first worker that the parent has not told is told, and it goes on to the next. -/
theorem kills (pooled : Pooled count s) (here : s.parent.pc = .killing i) (less : i < count) :
    Pooled count ((s.setSlot i ((s.slots i).map Process.term)).goto (.killing (i + 1))) := by
  refine ⟨fun j beyond => ?_, ParentPc.no_slot rfl, fun j before w same => ?_,
    ParentPc.noConfusion, ParentPc.noConfusion⟩
  · change (s.setSlot i _).slots j = none
    rw [State.setSlot_slots, if_neg (by omega), pooled.outside j beyond]
  · change (s.setSlot i _).slots j = some w at same
    rw [State.setSlot_slots] at same
    split at same
    · obtain ⟨v, -, rfl⟩ := Option.map_eq_some_iff.mp same
      exact .inr (.inr rfl)
    · next other =>
      have earlier : j < i := Nat.lt_of_le_of_ne (Nat.lt_succ_iff.mp before) other
      exact pooled.told j (by rw [here]; exact earlier) w same

/-- Every worker has been told. -/
theorem told_all (pooled : Pooled count s) (all : count ≤ s.parent.pc.told count) (i : Nat)
    (w : Worker) (found : s.slots i = some w) : w.Told :=
  pooled.told i (lt_of_lt_of_le (pooled.some_lt found) all) w found

theorem parentMove (pooled : Pooled count s) (moved : ParentMove count s e after) :
    Pooled count after := by
  cases moved with
  | delivered pending running =>
    refine ⟨pooled.outside, fun i found => pooled.slot i ?_, fun i less => pooled.told i ?_,
      fun here => ?_, fun here => ?_⟩
    · rwa [← ParentPc.interrupt_slot]
    · rwa [← ParentPc.interrupt_told]
    · exact absurd here (by cases s.parent.pc <;> simp [ParentPc.interrupt])
    · exact absurd here (by revert running; cases s.parent.pc <;> simp [ParentPc.interrupt])
  | @started i ok here =>
    have inside := pooled.slot i (by rw [here]; rfl)
    refine (pooled.setSlot inside (by simp [here, ParentPc.told]) (by simp [here])
      (by simp [here])).goto (fun j found => ?_) ?_ ?_ ?_
    · split at found <;> cases found
      assumption
    · split <;> rfl
    · split <;> exact ParentPc.noConfusion
    · split <;> exact ParentPc.noConfusion
  | tested here =>
    refine pooled.goto (fun i found => ?_) ?_ ?_ ?_
    · split at found <;> cases found
    · split <;> rfl
    · split <;> exact ParentPc.noConfusion
    · split <;> exact ParentPc.noConfusion
  | @reaped i here zombie =>
    have inside := pooled.zombie_lt zombie
    have emptied : Pooled count (s.setSlot i none) := by
      refine pooled.setSlot inside (fun _ w same => absurd same.symm (Option.some_ne_none w)) ?_ ?_
      all_goals rcases here with here | here <;> simp [here]
    refine emptied.goto (fun j found => ?_) rfl ParentPc.noConfusion ParentPc.noConfusion
    cases found
    exact inside
  | alone here alone =>
    exact pooled.goto (ParentPc.no_slot rfl) rfl ParentPc.noConfusion ParentPc.noConfusion
  | waits here child =>
    exact pooled.goto (ParentPc.no_slot rfl) rfl ParentPc.noConfusion ParentPc.noConfusion
  | @woke i here =>
    refine pooled.goto (fun j found => pooled.slot j ?_) rfl ParentPc.noConfusion
      ParentPc.noConfusion
    rw [here]
    exact found
  | @respawned i ok here =>
    have inside := pooled.slot i (by rw [here]; rfl)
    exact (pooled.setSlot inside (by simp [here, ParentPc.told]) (by simp [here])
      (by simp [here])).goto (ParentPc.no_slot rfl) rfl ParentPc.noConfusion ParentPc.noConfusion
  | kills here less => exact pooled.kills here less
  | told here all =>
    refine ⟨pooled.outside, ParentPc.no_slot rfl, fun i _ w found => ?_, ParentPc.noConfusion,
      ParentPc.noConfusion⟩
    exact pooled.told_all (by rw [here]; exact all) i w found
  | @drained i here zombie =>
    have all : count ≤ s.parent.pc.told count :=
      by rcases here with here | here <;> rw [here] <;> rfl
    refine ⟨fun j beyond => ?_, ParentPc.no_slot rfl, fun j _ w same => ?_, ParentPc.noConfusion,
      ParentPc.noConfusion⟩
    · change (s.setSlot i none).slots j = none
      rw [State.setSlot_slots, pooled.outside j beyond, ite_self]
    · change (s.setSlot i none).slots j = some w at same
      rw [State.setSlot_slots] at same
      split at same
      · cases same
      · exact pooled.told_all all j w same
  | stops here alone =>
    have none : ∀ i, s.slots i = none := by
      intro i
      by_contra present
      rw [State.hasChild_iff.mpr ⟨i, pooled.ne_none_lt present, present⟩] at alone
      cases alone
    refine ⟨pooled.outside, ParentPc.no_slot rfl, fun i _ w found => ?_, ParentPc.noConfusion,
      fun _ => none⟩
    exact pooled.told_all (by rw [here]; rfl) i w found
  | drains here child =>
    refine ⟨pooled.outside, ParentPc.no_slot rfl, fun i _ w found => ?_,
      fun _ => State.hasChild_iff.mp child, ParentPc.noConfusion⟩
    exact pooled.told_all (by rw [here]; rfl) i w found

theorem term (pooled : Pooled count s) (i : Nat) :
    Pooled count (s.setSlot i ((s.slots i).map Process.term)) := by
  have same : ∀ j, (s.setSlot i ((s.slots i).map Process.term)).slots j = none ↔
      s.slots j = none := by
    intro j
    rw [State.setSlot_slots]
    split
    · next here => rw [here, Option.map_eq_none_iff]
    · rfl
  refine ⟨fun j beyond => (same j).mpr (pooled.outside j beyond), pooled.slot,
    fun j less w found => ?_, fun waits => ?_,
    fun stopped j => (same j).mpr (pooled.stopped stopped j)⟩
  · rw [State.setSlot_slots] at found
    split at found
    · obtain ⟨v, -, rfl⟩ := Option.map_eq_some_iff.mp found
      exact .inr (.inr rfl)
    · exact pooled.told j less w found
  · obtain ⟨j, inside, present⟩ := pooled.drained waits
    exact ⟨j, inside, fun missing => present ((same j).mp missing)⟩

theorem step (pooled : Pooled count s) (taken : s.step count e = some after) :
    Pooled count after := by
  cases e with
  | worker i e =>
    obtain ⟨w, found, rest⟩ := Option.bind_eq_some_iff.mp taken
    obtain ⟨next, moved, rfl⟩ := Option.map_eq_some_iff.mp rest
    exact pooled.worker found moved
  | parent e => exact pooled.parentMove (State.parentStep_cases taken)
  | termWorker i =>
    cases taken
    exact pooled.term i
  | termParent =>
    cases taken
    exact ⟨pooled.outside, pooled.slot, pooled.told, pooled.drained, pooled.stopped⟩

end Pooled

/-! The parent replaces its workers until it is told to stop. -/

/-- It has left the loop that replaces workers. -/
def ParentPc.leaving : ParentPc → Bool
  | .killing _ | .draining | .drainBlocked | .stopped => true
  | _ => false

/-- The slot may be empty. -/
def ParentPc.awaits (i : Nat) : ParentPc → Prop
  | .starting j => j ≤ i
  | .sleeping j | .respawning j => j = i
  | _ => False

structure Filled (count : Nat) (s : State) : Prop where
  slots : ∀ i < count, s.slots i = none → s.parent.pc.leaving = true ∨ s.parent.pc.awaits i
  leaving : s.parent.pc.leaving = true → s.parent.stopping = true

theorem filled_initial : Filled count initial :=
  ⟨fun i _ _ => .inr (Nat.zero_le i), fun leaving => absurd leaving Bool.false_ne_true⟩

/-- No `fork` fails. -/
def forksSucceed : Event → Bool
  | .parent (.forked ok) => ok
  | _ => true

@[simp] theorem ParentPc.interrupt_leaving (pc : ParentPc) : pc.interrupt.leaving = pc.leaving := by
  cases pc <;> rfl

@[simp] theorem ParentPc.interrupt_awaits (pc : ParentPc) :
    pc.interrupt.awaits i = pc.awaits i := by
  cases pc <;> rfl

namespace Filled

/-- Only what fills the slots more has happened to them. -/
theorem setSlot (filled : Filled count s) (i : Nat) (kept : after = none → s.slots i = none) :
    Filled count (s.setSlot i after) := by
  refine ⟨fun j inside missing => filled.slots j inside ?_, filled.leaving⟩
  rw [State.setSlot_slots] at missing
  split at missing
  · next here =>
    subst here
    exact kept missing
  · exact missing

theorem awaiting (filled : Filled count s) (here : s.parent.pc = pc) (staying : pc.leaving = false)
    (inside : i < count) (missing : s.slots i = none) : pc.awaits i := by
  have either := filled.slots i inside missing
  rw [here, staying] at either
  exact either.resolve_left Bool.false_ne_true

/-- The parent is in its loop, or on its way to it. -/
theorem of_awaits (staying : s.parent.pc.leaving = false)
    (slots : ∀ i < count, s.slots i = none → s.parent.pc.awaits i) : Filled count s :=
  ⟨fun i inside missing => .inr (slots i inside missing),
    fun leaving => absurd (staying.symm.trans leaving) Bool.false_ne_true⟩

/-- The parent is past its loop, as it was before. -/
theorem of_leaving (filled : Filled count s) (before : s.parent.pc.leaving = true)
    (same : after.parent.stopping = s.parent.stopping) (now : after.parent.pc.leaving = true) :
    Filled count after :=
  ⟨fun _ _ _ => .inl now, fun _ => same.trans (filled.leaving before)⟩

theorem parentMove (filled : Filled count s) (positive : 0 < count)
    (moved : ParentMove count s e after) (forks : forksSucceed (.parent e) = true) :
    Filled count after := by
  cases moved with
  | delivered pending running =>
    refine ⟨fun i inside missing => ?_, fun _ => rfl⟩
    rw [ParentPc.interrupt_leaving, ParentPc.interrupt_awaits]
    exact filled.slots i inside missing
  | @started i ok here =>
    refine of_awaits ?_ fun j inside missing => ?_
    · change ParentPc.leaving (if i + 1 < count then _ else _) = false
      split <;> rfl
    · change (s.setSlot i _).slots j = none at missing
      rw [State.setSlot_slots, if_pos (show ok = true from forks)] at missing
      split at missing
      · cases missing
      · next other =>
        have later : i ≤ j := filled.awaiting here rfl inside missing
        change ParentPc.awaits j (if i + 1 < count then _ else _)
        rw [if_pos (by omega)]
        exact Nat.lt_of_le_of_ne later (Ne.symm other)
  | tested here =>
    have full := fun i (inside : i < count) => filled.awaiting (i := i) here rfl inside
    refine ⟨fun i inside missing => (full i inside missing).elim, fun leaving => ?_⟩
    change ParentPc.leaving (if s.parent.stopping then _ else _) = true at leaving
    split at leaving
    · assumption
    · cases leaving
  | @reaped i here zombie =>
    refine of_awaits rfl fun j inside missing => ?_
    change (s.setSlot i none).slots j = none at missing
    rw [State.setSlot_slots] at missing
    split at missing
    · next same => exact same.symm
    · rcases here with here | here
      · exact (filled.awaiting here rfl inside missing).elim
      · exact (filled.awaiting here rfl inside missing).elim
  | alone here alone =>
    have present : s.slots 0 ≠ none := filled.awaiting here rfl positive
    rw [State.hasChild_iff.mpr ⟨0, positive, present⟩] at alone
    cases alone
  | waits here child =>
    exact of_awaits rfl fun i inside missing => (filled.awaiting here rfl inside missing).elim
  | @woke i here =>
    refine of_awaits rfl fun j inside missing => ?_
    have same : i = j := filled.awaiting here rfl inside missing
    exact same
  | @respawned i ok here =>
    refine of_awaits rfl fun j inside missing => ?_
    change (s.setSlot i _).slots j = none at missing
    rw [State.setSlot_slots, if_pos (show ok = true from forks)] at missing
    split at missing
    · cases missing
    · next other =>
      have same : i = j := filled.awaiting here rfl inside missing
      exact absurd same.symm other
  | kills here less | told here all | stops here alone | drains here child =>
    exact filled.of_leaving (by rw [here]; rfl) rfl rfl
  | drained here zombie =>
    refine filled.of_leaving ?_ rfl rfl
    rcases here with here | here <;> rw [here] <;> rfl

theorem step (filled : Filled count s) (positive : 0 < count) (forks : forksSucceed e = true)
    (taken : s.step count e = some after) : Filled count after := by
  cases e with
  | worker i e =>
    obtain ⟨w, found, rest⟩ := Option.bind_eq_some_iff.mp taken
    obtain ⟨next, moved, rfl⟩ := Option.map_eq_some_iff.mp rest
    exact filled.setSlot i fun missing => absurd missing (Option.some_ne_none _)
  | parent e => exact filled.parentMove positive (State.parentStep_cases taken) forks
  | termWorker i =>
    cases taken
    exact filled.setSlot i fun missing => Option.map_eq_none_iff.mp missing
  | termParent =>
    cases taken
    exact ⟨filled.slots, filled.leaving⟩

end Filled

/-- However its workers crash, a parent that has not been told to stop keeps its loop, and a
process in every slot but the one that it is about to fill. -/
theorem pool_filled (positive : 0 < count)
    (run : Transition.Run (State.step count) (fun _ e => forksSucceed e = true) initial events s)
    (going : s.parent.stopping = false) :
    s.parent.pc.leaving = false ∧
      ∀ i < count, s.slots i = none → s.parent.pc.awaits i := by
  have filled : Filled count s :=
    run.invariant (fun filled forks taken => filled.step positive forks taken) filled_initial
  have staying : s.parent.pc.leaving = false := by
    refine Bool.eq_false_iff.mpr fun leaving => ?_
    rw [filled.leaving leaving] at going
    cases going
  refine ⟨staying, fun i inside missing => ?_⟩
  rcases filled.slots i inside missing with leaving | awaits
  · rw [staying] at leaving
    cases leaving
  · exact awaits

/-- A worker crashes, the parent waits for it, and another one crashes meanwhile. -/
theorem pool_filled_crashes : ∃ s,
    Transition.Run (State.step workerCount) (fun _ e => forksSucceed e = true) initial
      (startup ++ [.parent .tested, .parent .blocks, .worker 2 .crashed, .parent (.reaped 2),
        .worker 0 .crashed]) s ∧
      s.parent.pc = .sleeping 2 ∧ ∀ i < workerCount, s.slots i = none → i = 2 := by
  obtain ⟨s, ran, here, going⟩ : ∃ s,
      exec (State.step workerCount) (fun _ e => forksSucceed e = true) initial
        (startup ++ [.parent .tested, .parent .blocks, .worker 2 .crashed, .parent (.reaped 2),
          .worker 0 .crashed]) = some s ∧
      s.parent.pc = .sleeping 2 ∧ s.parent.stopping = false := ⟨_, rfl, rfl, rfl⟩
  have run := (exec_eq_some_iff _ _ _).mp ran
  refine ⟨s, run, here, fun i inside missing => ?_⟩
  have awaited := (pool_filled (by decide) run going).2 i inside missing
  rw [here] at awaited
  exact Eq.symm awaited

end SelfDb.Server
