import SelfDb.Server.Endpoints
import SelfDb.Server.SiteProofs
import SelfDb.Server.Supervision

/-! The totals that `/api/press` answers, against the order in which the presses were served. -/
namespace SelfDb.Server
open CString Json Transition

/-- Statements that ran one after the other, while other workers wrote between them. -/
inductive Ran (conn : Connection) : Site → List Statement → Site → Prop where
  | nil : site.Grows last → Ran conn site [] last
  | cons : site.Grows before → before.exec conn done q = some after → Ran conn after rest last →
    Ran conn site (q :: rest) last

namespace Ran
variable {conn : Connection} {a b c : Site}

theorem grow (ran : Ran conn a qs b) (grown : b.Grows c) : Ran conn a qs c := by
  induction ran with
  | nil earlier => exact .nil (earlier.trans grown)
  | cons earlier taken _ ih => exact .cons earlier taken (ih grown)

theorem snoc (ran : Ran conn a qs b) (taken : b.exec conn done q = some c) :
    Ran conn a (qs ++ [q]) c := by
  induction ran with
  | nil earlier => exact .cons earlier taken (.nil (.refl c))
  | cons earlier first _ ih => exact .cons earlier first (ih taken)

end Ran

namespace Service
variable {count : Nat} {s t : Service}

theorem grows_step (taken : s.step count e = some t) : s.site.Grows t.site := by
  cases e with
  | accept k chunks met =>
    obtain ⟨-, -, rfl⟩ := step_accept taken
    rw [Service.accept]
    split <;> exact .refl _
  | statement k done =>
    obtain ⟨req, met, q, rest, site, -, ran, rfl⟩ := step_statement taken
    exact Site.exec_grows ran
  | respond k =>
    obtain ⟨req, met, -, rfl⟩ := step_respond taken
    exact .refl _
  | crash k =>
    obtain ⟨w, -, rfl⟩ := step_crash taken
    exact .refl _
  | edit content =>
    cases taken
    exact ⟨List.prefix_rfl, List.prefix_rfl⟩

theorem grows_run (run : Reaches (Service.step count) s events t) : s.site.Grows t.site :=
  run.invariant (P := fun u => s.site.Grows u.site)
    (fun grown _ taken => grown.trans (grows_step taken)) (.refl _)

/-- A worker runs its statements in order, until it answers. -/
theorem ran_step (busy : s.workers k = some ⟨req, met, pending⟩)
    (serves : e ≠ .respond k ∧ e ≠ .crash k) (taken : s.step count e = some t) :
    t.workers k = some ⟨req, met, pending⟩ ∧ s.site.Grows t.site ∨
      ∃ q rest done, pending = q :: rest ∧ t.workers k = some ⟨req, met, rest⟩ ∧
        s.site.exec met.conn done q = some t.site := by
  have grown := grows_step taken
  have kept (i : Nat) (w : Option Serving) (other : i ≠ k) :
      Function.update s.workers i w k = some ⟨req, met, pending⟩ := by
    rw [Function.update_of_ne other.symm, busy]
  cases e with
  | accept i chunks met' =>
    obtain ⟨-, free, rfl⟩ := step_accept taken
    have other : i ≠ k := fun same => nomatch (same ▸ free).symm.trans busy
    refine .inl ⟨?_, grown⟩
    rw [Service.accept]
    split
    · exact busy
    · exact kept i _ other
  | statement i done =>
    obtain ⟨req', met', q, rest, site, found, ran, rfl⟩ := step_statement taken
    by_cases same : i = k
    · subst same
      cases found.symm.trans busy
      exact .inr ⟨q, rest, done, rfl, Function.update_self _ _ _, ran⟩
    · exact .inl ⟨kept i _ same, grown⟩
  | respond i =>
    obtain ⟨req', met', -, rfl⟩ := step_respond taken
    exact .inl ⟨kept i _ fun same => serves.1 (same ▸ rfl), grown⟩
  | crash i =>
    obtain ⟨w, -, rfl⟩ := step_crash taken
    exact .inl ⟨kept i _ fun same => serves.2 (same ▸ rfl), grown⟩
  | edit content =>
    cases taken
    exact .inl ⟨busy, grown⟩

theorem ran_run (run : Reaches (Service.step count) s events t)
    (serves : ∀ e ∈ events, e ≠ .respond k ∧ e ≠ .crash k)
    (busy : s.workers k = some ⟨req, met, pending⟩) :
    ∃ ran rest, pending = ran ++ rest ∧ t.workers k = some ⟨req, met, rest⟩ ∧
      Ran met.conn s.site ran t.site := by
  refine (run.restrict serves).invariant (P := fun u => ∃ ran rest, pending = ran ++ rest ∧
    u.workers k = some ⟨req, met, rest⟩ ∧ Ran met.conn s.site ran u.site) ?_
    ⟨[], pending, rfl, busy, .nil (.refl _)⟩
  rintro u e v ⟨ran, rest, split, busy, done⟩ ⟨-, serves⟩ taken
  rcases ran_step busy serves taken with ⟨still, grown⟩ | ⟨q, rest', _, rfl, next, exec⟩
  · exact ⟨ran, rest, split, still, done.grow grown⟩
  · exact ⟨ran ++ [q], rest', by rw [split, List.append_cons], next, done.snoc exec⟩

end Service

/-- Between the two states worker `k` accepts a connection, reads a request and answers it. -/
def Serves (count : Nat) (s t : Service) (k : Nat) (req : Request) (met : Circumstances) : Prop :=
  ∃ chunks events, readRequest chunks = some req ∧
    (∀ e ∈ events, e ≠ ServiceEvent.respond k ∧ e ≠ .crash k) ∧
    Reaches (Service.step count) s (.accept k chunks met :: events ++ [.respond k]) t

/-- All its statements are run in between. -/
theorem Serves.ran (serves : Serves count s t k req met) :
    Ran met.conn s.site (handleStatements met.conn req) t.site := by
  obtain ⟨chunks, events, read, own, run⟩ := serves
  cases run with
  | next _ accepted run =>
    obtain ⟨-, -, rfl⟩ := Service.step_accept accepted
    rw [Service.accept, read] at run
    obtain ⟨u, run, last⟩ := run.split
    obtain ⟨ran, rest, split, busy, done⟩ :=
      Service.ran_run run own (Function.update_self _ _ _)
    cases last with
    | next _ answered ended =>
      cases ended
      obtain ⟨req', met', found, rfl⟩ := Service.step_respond answered
      cases found.symm.trans busy
      rw [split, List.append_nil]
      exact done

/-! Presses. -/

/-- The press is recorded, and the query for the total does not fail. -/
structure Counted (met : Circumstances) (req : Request) : Prop where
  presses : req.presses
  recorded : met.conn.pressed (sanitizeButton req.body) = true
  counts : met.conn.answers 0 countPresses ≠ none

/-- The request is answered with the total `n`. -/
def AnswersTotal (met : Circumstances) (req : Request) (n : Nat) : Prop :=
  met.answer req = ⟨200, jsonMime, (pressValue n (sanitizeButton req.body)).canonical⟩

theorem Site.value_countPresses (site : Site) :
    site.value countPresses = some (digitsOf site.presses.length) := by
  have other : ¬ (countPresses = countVisits ∨ countPresses = countSql (literal "visits")) := by
    decide +kernel
  rw [Site.value, if_neg other, if_pos (.inl rfl)]

theorem answersTotal (counted : Counted met req)
    (answered : met.conn.answers 0 countPresses = some (digitsOf n)) :
    AnswersTotal met req n := by
  have total : sqlScalar met.conn.answers 0 (literal "SELECT count(*) FROM presses") =
      some (digitsOf n) := by
    rw [sqlScalar]
    exact (congrArg _ answered).trans (congrArg some (cstr_plain (digitsOf_plain n)))
  have text : (pressValue n (sanitizeButton req.body)).canonical =
      pressText met.conn (sanitizeButton req.body) := by
    rw [pressText, total]
    simp [pressValue, Value.canonical, commas, quoted, literal]
  rw [AnswersTotal, answer_press counted.presses, servePress_eq, if_pos counted.recorded, text]

theorem Site.exec_press {site after : Site} (ran : site.exec conn done (.press button) = some after)
    (recorded : conn.pressed button = true) :
    after.presses.length = site.presses.length + 1 := by
  rw [(Site.exec_rows ran).2, Statement.pressed, if_pos recorded, List.length_append]
  rfl

/-- The query for the total yields the number of rows. -/
theorem Site.exec_total {site after : Site}
    (ran : site.exec conn done (.scalar 0 countPresses) = some after)
    (counts : conn.answers 0 countPresses ≠ none) :
    conn.answers 0 countPresses = some (digitsOf site.presses.length) := by
  obtain ⟨scalar, -⟩ := Option.ite_none_right_eq_some.mp ran
  exact (scalar.resolve_left counts).trans site.value_countPresses

/-- The total counts the press, and no more than there are when it is answered. -/
theorem Serves.total (serves : Serves count s t k req met) (counted : Counted met req) :
    ∃ n, AnswersTotal met req n ∧ s.site.presses.length < n ∧ n ≤ t.site.presses.length := by
  have ran := serves.ran
  rw [handleStatements, answerStatements, if_pos counted.presses, pressStatements,
    if_pos counted.recorded] at ran
  obtain _ | ⟨before, visited, ran⟩ := ran
  obtain _ | ⟨between, pressed, ran⟩ := ran
  obtain _ | ⟨behind, total, ended⟩ := ran
  obtain ⟨rest⟩ | _ := ended
  refine ⟨_, answersTotal counted (Site.exec_total total counted.counts), ?_, ?_⟩
  · have start := before.presses.length_le.trans (Site.exec_grows visited).presses.length_le
    have inserted := Site.exec_press pressed counted.recorded
    have later := behind.presses.length_le
    have earlier := between.presses.length_le
    omega
  · exact (Site.exec_grows total).presses.length_le.trans rest.presses.length_le

/-! A service on which presses succeed. -/

theorem Service.statement_taken {s : Service} {after : Site}
    (busy : s.workers k = some ⟨req, met, q :: rest⟩)
    (ran : s.site.exec met.conn done q = some after) : s.step count (.statement k done) =
      some ({ s with site := after }.setWorker k (some ⟨req, met, rest⟩)) := by
  simp [Service.step, busy, ran]

theorem Service.respond_taken {s : Service} (busy : s.workers k = some ⟨req, met, []⟩) :
    s.step count (.respond k) = some ((s.setWorker k none).send (some req) (met.answer req)) := by
  simp [Service.step, busy]

theorem Request.print_nonempty (req : Request) : req.print ≠ [] := by
  simp [Request.print, Request.head, Request.line]

/-- A press that is recorded, by worker `k`. -/
def pressEvents (k : Nat) (req : Request) (met : Circumstances) : List ServiceEvent :=
  [.accept k [⟨req.print, req.print_nonempty⟩] met, .statement k true, .statement k true,
    .statement k true, .respond k]

/-- A worker that is free can serve a press. -/
theorem exists_press {s : Service} (inside : k < count) (free : s.workers k = none)
    (plain : req.Plain) (counted : Counted met req)
    (total : met.conn.answers 0 countPresses = some (digitsOf (s.site.presses.length + 1))) :
    ∃ t, Reaches (Service.step count) s (pressEvents k req met) t ∧
      t.site.visits = s.site.visits ++ [⟨req.userAgent, req.route⟩] ∧
      t.site.presses = s.site.presses ++ [sanitizeButton req.body] ∧ t.workers = s.workers := by
  have read := readRequest_print plain [⟨req.print, req.print_nonempty⟩] (List.append_nil _)
  have statements : handleStatements met.conn req = [.visit req.userAgent req.route,
      .press (sanitizeButton req.body), .scalar 0 countPresses] := by
    rw [handleStatements, answerStatements, if_pos counted.presses, pressStatements,
      if_pos counted.recorded]
  have accepted : s.step count (.accept k [⟨req.print, req.print_nonempty⟩] met) =
      some (s.setWorker k (some ⟨req, met, handleStatements met.conn req⟩)) := by
    rw [Service.step, if_pos ⟨inside, by rw [free]; rfl⟩, Service.accept, read]
  rw [statements] at accepted
  have pressed {site : Site} : site.exec met.conn true (.press (sanitizeButton req.body)) =
      some { site with presses := site.presses ++ [sanitizeButton req.body] } := by
    rw [Site.exec, if_pos counted.recorded]
  have counts {site : Site} (rows : site.presses.length = s.site.presses.length + 1) :
      site.exec met.conn true (.scalar 0 countPresses) = some site := by
    rw [Site.exec, if_pos (.inr (by rw [site.value_countPresses, rows, total]))]
  have rows : (s.site.presses ++ [sanitizeButton req.body]).length = s.site.presses.length + 1 :=
    List.length_append
  have taken {u : Service} {w : Serving} : (u.setWorker k (some w)).workers k = some w :=
    Function.update_self _ _ _
  refine ⟨_, .next trivial accepted <| .next trivial (Service.statement_taken taken rfl) <|
    .next trivial (Service.statement_taken taken pressed) <|
    .next trivial (Service.statement_taken taken (counts rows)) <|
    .next trivial (Service.respond_taken taken) (.refl _), rfl, rfl, ?_⟩
  simp [Service.setWorker, Service.send, Function.update_eq_self_iff, free]

theorem serves_press (plain : req.Plain)
    (run : Reaches (Service.step count) s (pressEvents k req met) t) :
    Serves count s t k req met :=
  ⟨_, [.statement k true, .statement k true, .statement k true],
    readRequest_print plain _ (List.append_nil _), by simp, run⟩

/-- A site in which there are no rows yet. -/
def freshService : Service where
  site := ⟨[], [], ⟨fun _ => none, [], fun _ => none⟩⟩
  workers _ := none
  sent := []

def pressA : Request :=
  { getA with
    method := literal "POST"
    path := literal "/api/press"
    body := literal "a"
    method_fits := by decide
    path_fits := by decide
    body_fits := by decide }

theorem plain_pressA : pressA.Plain where
  method := isToken_of_all (by decide) (by decide)
  path := isToken_of_all (by decide) (by decide)
  method_plain := by decide
  path_plain := by decide
  agent_plain := by decide
  agent_line := Scanning.oneLine_of_not_mem (by decide)
  agent_start := by decide

/-- Inserts succeed, and there are so many presses when they are counted. -/
def pressing (total : Nat) (small : total < 2 ^ 63) : Circumstances where
  conn := { oneRow [] [] with
    answers := fun _ _ => some (digitsOf total)
    pressed := fun _ => true
    counts := fun _ _ _ same => ⟨total, small, (Option.some.inj same).symm⟩ }
  heap _ := none
  stack := ⟨fun _ => 0, fun _ => 0⟩

theorem counted_pressA (total : Nat) (small : total < 2 ^ 63) :
    Counted (pressing total small) pressA where
  presses := by decide
  recorded := rfl
  counts := Option.some_ne_none _

/-- Two workers record a press each. -/
theorem exists_presses : ∃ t u,
    Reaches (Service.step workerCount) freshService
      (pressEvents 0 pressA (pressing 1 (by decide))) t ∧
    Reaches (Service.step workerCount) t (pressEvents 1 pressA (pressing 2 (by decide))) u ∧
    u.Idle ∧ u.site.visits = [⟨[], literal "/api/press"⟩, ⟨[], literal "/api/press"⟩] ∧
    u.site.presses = [literal "a", literal "a"] := by
  have zero : 0 < workerCount := by decide
  have one : 1 < workerCount := by decide
  obtain ⟨t, first, visits, presses, same⟩ := exists_press (s := freshService) zero rfl plain_pressA
    (counted_pressA 1 (by decide)) rfl
  obtain ⟨u, second, visits', presses', same'⟩ := exists_press one (congrFun same 1) plain_pressA
    (counted_pressA 2 (by decide)) (by rw [presses]; rfl)
  refine ⟨t, u, first, second, fun k => by rw [same', same]; rfl, ?_, ?_⟩
  · rw [visits', visits]
    decide
  · rw [presses', presses]
    decide

/-- A press that is taken on after another one was answered is answered with a larger total,
whatever the other workers do meanwhile. -/
theorem press_totals_increase (first : Serves count s t i req met)
    (between : Reaches (Service.step count) t events u) (second : Serves count u v j req' met')
    (counted : Counted met req) (counted' : Counted met' req') :
    ∃ n n', AnswersTotal met req n ∧ AnswersTotal met' req' n' ∧ n < n' := by
  obtain ⟨n, answered, -, most⟩ := first.total counted
  obtain ⟨n', answered', least, -⟩ := second.total counted'
  have grown := (Service.grows_run between).presses.length_le
  exact ⟨n, n', answered, answered', by omega⟩

/-- The first press is answered before the second is taken on. -/
theorem press_totals_increase_twice : ∃ n n',
    AnswersTotal (pressing 1 (by decide)) pressA n ∧
      AnswersTotal (pressing 2 (by decide)) pressA n' ∧ n < n' := by
  obtain ⟨t, u, first, second, -⟩ := exists_presses
  exact press_totals_increase (serves_press plain_pressA first) (.refl t)
    (serves_press plain_pressA second) (counted_pressA 1 _) (counted_pressA 2 _)

end SelfDb.Server
