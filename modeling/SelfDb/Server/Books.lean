import SelfDb.Server.Totals

/-! Presses and visits as books that the workers keep together: what was entered, against what
was answered. -/
namespace SelfDb.Server
open Transition

/-- A table, the rows that statements add to it, and the rows that an answer stands for. -/
structure Book (ρ : Type) where
  rows : Site → List ρ
  adds : Connection → Statement → List ρ
  settles : Request → Response → List ρ
  /-- The outcomes of `record_visit` that the book is about. -/
  admits : Bool → Prop
  kept : ∀ site content, rows { site with content } = rows site
  ran : ∀ {site after : Site} {conn done q}, admits done → site.exec conn done q = some after →
    rows after = rows site ++ adds conn q
  settled : ∀ met req, settles req (Circumstances.answer met req) =
    (handleStatements met.conn req).flatMap (adds met.conn)

namespace Book

/-- The presses, and the answers that acknowledge one. -/
def presses : Book Bytes where
  rows := Site.presses
  adds := Statement.pressed
  settles req response :=
    if req.presses ∧ response.status = 200 then [sanitizeButton req.body] else []
  admits _ := True
  kept _ _ := rfl
  ran _ taken := (Site.exec_rows taken).2
  settled met req := by
    rw [handleStatements_pressed]
    by_cases presses : req.presses
    · simp only [presses, true_and]
      exact if_congr (answer_press presses met ▸ servePress_status _ _ _) rfl rfl
    · rw [if_neg fun both => presses both.1, if_neg fun both => presses both.1]

/-- The visits, and the requests that were read; as long as `record_visit` is not refused. -/
def visits : Book Visit where
  rows := Site.visits
  adds _ := Statement.visited true
  settles req _ := [⟨req.userAgent, req.route⟩]
  admits done := done = true
  kept _ _ := rfl
  ran admitted taken := by
    rw [← admitted]
    exact (Site.exec_rows taken).1
  settled met req := (handleStatements_visited met.conn req).symm

variable {ρ : Type} (book : Book ρ)

/-- The rows that the statements behind a worker have added. -/
def owed (w : Option Serving) : Multiset ρ :=
  w.elim 0 fun w => (handleStatements w.met.conn w.req).take
    ((handleStatements w.met.conn w.req).length - w.pending.length) |>.flatMap
      (book.adds w.met.conn)

def settledBy (a : Answered) : List ρ := a.req.elim [] fun req => book.settles req a.response

def entered (s : Service) : Multiset ρ := book.rows s.site

/-- The rows of the answers, and of the workers that have not answered yet. -/
def due (count : Nat) (s : Service) : Multiset ρ :=
  (s.sent.flatMap book.settledBy : Multiset ρ) + owing book.owed count s.workers

theorem owed_split {front pending : List Statement}
    (split : front ++ pending = handleStatements met.conn req) :
    book.owed (some ⟨req, met, pending⟩) = (front.flatMap (book.adds met.conn) : Multiset ρ) := by
  rw [owed, Option.elim_some, ← split, List.length_append, Nat.add_sub_cancel, List.take_left]

theorem owed_accepted (req : Request) (met : Circumstances) :
    book.owed (some ⟨req, met, handleStatements met.conn req⟩) = 0 :=
  book.owed_split (List.nil_append _)

/-- The statement at hand is the one behind those that were run. -/
theorem owed_statement (pending : q :: rest <:+ handleStatements met.conn req) :
    book.owed (some ⟨req, met, rest⟩) =
      book.owed (some ⟨req, met, q :: rest⟩) + (book.adds met.conn q : Multiset ρ) := by
  obtain ⟨front, split⟩ := pending
  rw [book.owed_split split, book.owed_split ((List.append_cons front q rest).symm.trans split),
    List.flatMap_append, List.flatMap_singleton, Multiset.coe_add]

theorem owed_answered (req : Request) (met : Circumstances) :
    book.owed (some ⟨req, met, []⟩) =
      (book.settledBy ⟨some req, met.answer req⟩ : Multiset ρ) := by
  rw [book.owed_split (List.append_nil _), settledBy, Option.elim_some, book.settled]

/-! A step enters what becomes due, unless a worker crashes. -/

variable {count : Nat} {s t : Service}

theorem due_setWorker (inside : k < count) (w : Option Serving) :
    book.due count (s.setWorker k w) + book.owed (s.workers k) =
      book.due count s + book.owed w := by
  have moved := owing_update book.owed inside s.workers w
  calc book.due count (s.setWorker k w) + book.owed (s.workers k)
      = (s.sent.flatMap book.settledBy : Multiset ρ) +
          (owing book.owed count (Function.update s.workers k w) + book.owed (s.workers k)) :=
        add_assoc _ _ _
    _ = book.due count s + book.owed w := by rw [moved, due, add_assoc]

theorem due_send (req : Option Request) (response : Response) :
    book.due count (s.send req response) =
      book.due count s + (book.settledBy ⟨req, response⟩ : Multiset ρ) := by
  have sent : ((s.send req response).sent.flatMap book.settledBy : Multiset ρ) =
      (s.sent.flatMap book.settledBy : Multiset ρ) +
        (book.settledBy ⟨req, response⟩ : Multiset ρ) :=
    congrArg _ (List.flatMap_append.trans (congrArg _ (List.flatMap_singleton _ _)))
  rw [due, sent, add_right_comm]
  rfl

variable {book}

/-- The event records a visit if it tries to. -/
def Admits (book : Book ρ) (e : ServiceEvent) : Prop :=
  ∀ k done, e = .statement k done → book.admits done

theorem balanced_step (sound : s.Sound count) (taken : s.step count e = some t)
    (admitted : book.Admits e) (alive : ∀ k, e ≠ .crash k) :
    Transition.Balanced book.entered (book.due count) s t := by
  rw [Transition.Balanced]
  cases e with
  | accept k chunks met =>
    obtain ⟨inside, free, rfl⟩ := Service.step_accept taken
    rw [Service.accept]
    split
    · rw [due_send]
      exact congrArg (book.entered s + ·) (add_zero _).symm
    · next req read =>
      have moved := book.due_setWorker (s := s) inside
        (some ⟨req, met, handleStatements met.conn req⟩)
      rw [free, owed_accepted] at moved
      exact congrArg (book.entered s + ·) (add_right_cancel moved).symm
  | statement k done =>
    obtain ⟨req, met, q, rest, site, found, ran, rfl⟩ := Service.step_statement taken
    have moved := book.due_setWorker (s := s) (sound.inside found)
      (some ⟨req, met, rest⟩)
    rw [found, book.owed_statement (sound.pending k _ found), ← add_assoc, add_right_comm] at moved
    have rows : book.rows site = book.rows s.site ++ book.adds met.conn q :=
      book.ran (admitted k done rfl) ran
    calc (book.rows site : Multiset ρ) + book.due count s
        = book.entered s + (book.due count s + (book.adds met.conn q : Multiset ρ)) := by
          rw [rows, ← Multiset.coe_add, entered]
          abel
      _ = book.entered s + book.due count (s.setWorker k (some ⟨req, met, rest⟩)) :=
          congrArg _ (add_right_cancel moved).symm
  | respond k =>
    obtain ⟨req, met, found, rfl⟩ := Service.step_respond taken
    have moved := book.due_setWorker (s := s) (sound.inside found) none
    rw [found, owed_answered] at moved
    exact congrArg (book.entered s + ·) ((book.due_send _ _).trans (moved.trans (add_zero _))).symm
  | crash k => exact absurd rfl (alive k)
  | edit content =>
    cases taken
    rw [entered, entered, book.kept]
    rfl

/-- The rows of a worker that crashes are never settled. -/
theorem covered_step (sound : s.Sound count) (taken : s.step count e = some t)
    (admitted : book.Admits e) : Transition.Covered book.entered (book.due count) s t := by
  by_cases alive : ∀ k, e ≠ .crash k
  · exact (balanced_step sound taken admitted alive).covered
  · obtain ⟨k, rfl⟩ : ∃ k, e = .crash k := by simpa using alive
    obtain ⟨w, found, rfl⟩ := Service.step_crash taken
    have moved := book.due_setWorker (s := s) (sound.inside found) none
    refine add_le_add_right (a := book.entered s) ?_
    calc book.due count (s.setWorker k none)
        ≤ book.due count (s.setWorker k none) + book.owed (s.workers k) := le_self_add
      _ = book.due count s := moved.trans (add_zero _)

/-! Runs. -/

theorem rows_step (taken : s.step count e = some t) (admitted : book.Admits e) :
    book.rows s.site <+: book.rows t.site := by
  cases e with
  | accept k chunks met =>
    obtain ⟨-, -, rfl⟩ := Service.step_accept taken
    rw [Service.accept]
    split <;> exact List.prefix_rfl
  | statement k done =>
    obtain ⟨req, met, q, rest, site, -, ran, rfl⟩ := Service.step_statement taken
    exact book.ran (admitted k done rfl) ran ▸ List.prefix_append _ _
  | respond k =>
    obtain ⟨req, met, -, rfl⟩ := Service.step_respond taken
    exact List.prefix_rfl
  | crash k =>
    obtain ⟨w, -, rfl⟩ := Service.step_crash taken
    exact List.prefix_rfl
  | edit content =>
    cases taken
    exact book.kept s.site content ▸ List.prefix_rfl

end Book

theorem Service.sent_step {s t : Service} (taken : s.step count e = some t) :
    s.sent <+: t.sent := by
  cases e with
  | accept k chunks met =>
    obtain ⟨-, -, rfl⟩ := step_accept taken
    rw [Service.accept]
    split
    · exact List.prefix_append _ _
    · exact List.prefix_rfl
  | statement k done =>
    obtain ⟨req, met, q, rest, site, -, ran, rfl⟩ := step_statement taken
    exact List.prefix_rfl
  | respond k =>
    obtain ⟨req, met, -, rfl⟩ := step_respond taken
    exact List.prefix_append _ _
  | crash k =>
    obtain ⟨w, -, rfl⟩ := step_crash taken
    exact List.prefix_rfl
  | edit content =>
    cases taken
    exact List.prefix_rfl

namespace Book
variable {ρ : Type} (book : Book ρ) {s t : Service}

/-- What a run has added to a table and sent, if no worker serves at its start. -/
theorem run_spec (run : Reaches (Service.step count) s events t)
    (admitted : ∀ e ∈ events, book.Admits e) (idle : s.Idle) :
    ∃ added answers, book.rows t.site = book.rows s.site ++ added ∧ t.sent = s.sent ++ answers ∧
      (answers.flatMap book.settledBy : Multiset ρ) + owing book.owed count t.workers ≤ added ∧
      ((∀ e ∈ events, ∀ k, e ≠ .crash k) → (added : Multiset ρ) =
        answers.flatMap book.settledBy + owing book.owed count t.workers) := by
  have none : owing book.owed count s.workers = 0 :=
    owing_eq_zero _ fun k => by rw [idle k]; rfl
  obtain ⟨sound, covered, ⟨added, rows⟩, ⟨answers, sent⟩⟩ := (run.restrict admitted).invariant
    (P := fun u => u.Sound count ∧ Transition.Covered book.entered (book.due count) s u ∧
      book.rows s.site <+: book.rows u.site ∧ s.sent <+: u.sent)
    (fun ⟨sound, covered, rows, sent⟩ admitted taken => ⟨sound.step taken,
      covered.trans (covered_step sound taken admitted.2), rows.trans (rows_step taken admitted.2),
      sent.trans (Service.sent_step taken)⟩)
    ⟨Service.sound_of_idle idle, (Transition.Balanced.refl s).covered, List.prefix_rfl,
      List.prefix_rfl⟩
  have entered : book.entered t = book.entered s + (added : Multiset ρ) := by
    rw [Book.entered, ← rows, ← Multiset.coe_add]
    rfl
  have due : book.due count t = book.due count s + ((answers.flatMap book.settledBy : Multiset ρ) +
      owing book.owed count t.workers) := by
    rw [Book.due, Book.due, ← sent, none, List.flatMap_append, ← Multiset.coe_add]
    abel
  refine ⟨added, answers, rows.symm, sent.symm, covered.gained entered due, fun alive => ?_⟩
  have both : ∀ e ∈ events, book.Admits e ∧ ∀ k, e ≠ .crash k := fun e member =>
    ⟨admitted e member, alive e member⟩
  have balanced := (run.restrict both).invariant
    (P := fun u => u.Sound count ∧ Transition.Balanced book.entered (book.due count) s u)
    (fun ⟨sound, balanced⟩ admitted taken => ⟨sound.step taken,
      balanced.trans (balanced_step sound taken admitted.2.1 admitted.2.2)⟩)
    ⟨Service.sound_of_idle idle, Transition.Balanced.refl s⟩
  exact balanced.2.gained entered due

/-- Every answer stands for a row of its own; if no worker crashes, every row for an answer. -/
theorem run_rows (run : Reaches (Service.step count) s events t)
    (admitted : ∀ e ∈ events, book.Admits e) (idle : s.Idle) :
    ∃ added answers, book.rows t.site = book.rows s.site ++ added ∧ t.sent = s.sent ++ answers ∧
      (answers.flatMap book.settledBy).Subperm added ∧
      ((∀ e ∈ events, ∀ k, e ≠ .crash k) → t.Idle →
        (answers.flatMap book.settledBy).Perm added) := by
  obtain ⟨added, answers, rows, sent, covered, balanced⟩ := book.run_spec run admitted idle
  refine ⟨added, answers, rows, sent, ?_, fun alive ended => ?_⟩
  · exact Multiset.coe_le.mp (le_self_add.trans covered)
  · have none : owing book.owed count t.workers = 0 :=
      owing_eq_zero _ fun k => by rw [ended k]; rfl
    have same := balanced alive
    rw [none, add_zero] at same
    exact Multiset.coe_eq_coe.mp same.symm

end Book

/-- Whatever the workers do among each other, each press that is acknowledged is a row of its
own, and each row that is added was acknowledged, unless a worker crashed behind its insert. -/
theorem presses_recorded (run : Reaches (Service.step count) s events t) (idle : s.Idle) :
    ∃ added answers, t.site.presses = s.site.presses ++ added ∧ t.sent = s.sent ++ answers ∧
      (answers.flatMap Book.presses.settledBy).Subperm added ∧
      ((∀ e ∈ events, ∀ k, e ≠ .crash k) → t.Idle →
        (answers.flatMap Book.presses.settledBy).Perm added) :=
  Book.presses.run_rows run (fun _ _ _ _ _ => trivial) idle

/-- Two workers, one press each. -/
theorem presses_recorded_twice : ∃ (t : Service) (added : List Bytes) (answers : List Answered),
    t.site.presses = freshService.site.presses ++ added ∧ t.sent = freshService.sent ++ answers ∧
      (answers.flatMap Book.presses.settledBy).Perm added := by
  obtain ⟨t, u, first, second, ended, -⟩ := exists_presses
  obtain ⟨added, answers, rows, sent, -, all⟩ :=
    presses_recorded (first.trans second) fun _ => rfl
  exact ⟨u, added, answers, rows, sent, all (by simp [pressEvents]) ended⟩

/-- As long as no insert into `visits` is refused, each request that is answered is one visit. -/
theorem visits_recorded (run : Reaches (Service.step count) s events t) (idle : s.Idle)
    (recorded : ∀ k, .statement k false ∉ events) :
    ∃ added answers, t.site.visits = s.site.visits ++ added ∧ t.sent = s.sent ++ answers ∧
      (answers.flatMap Book.visits.settledBy).Subperm added ∧
      ((∀ e ∈ events, ∀ k, e ≠ .crash k) → t.Idle →
        (answers.flatMap Book.visits.settledBy).Perm added) := by
  refine Book.visits.run_rows run (fun e member k done same => ?_) idle
  cases done with
  | true => rfl
  | false => exact absurd (same ▸ member) (recorded k)

theorem visits_recorded_twice : ∃ (t : Service) (added : List Visit) (answers : List Answered),
    t.site.visits = freshService.site.visits ++ added ∧ t.sent = freshService.sent ++ answers ∧
      (answers.flatMap Book.visits.settledBy).Perm added := by
  obtain ⟨t, u, first, second, ended, -⟩ := exists_presses
  obtain ⟨added, answers, rows, sent, -, all⟩ :=
    visits_recorded (first.trans second) (fun _ => rfl) (by simp [pressEvents])
  exact ⟨u, added, answers, rows, sent, all (by simp [pressEvents]) ended⟩

end SelfDb.Server
