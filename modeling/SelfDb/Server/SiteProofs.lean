import SelfDb.Server.Client
import SelfDb.Server.Framing
import SelfDb.Server.Site

/-! What the statements of a request do to the tables of the site, and what a step of the
service is. -/
namespace SelfDb.Server
open CString Transition

/-! One statement. -/

/-- Rows are only added. -/
structure Site.Grows (before after : Site) : Prop where
  visits : before.visits <+: after.visits
  presses : before.presses <+: after.presses

theorem Site.Grows.refl (site : Site) : site.Grows site := ⟨List.prefix_rfl, List.prefix_rfl⟩

theorem Site.Grows.trans {a b c : Site} (first : a.Grows b) (second : b.Grows c) : a.Grows c :=
  ⟨first.visits.trans second.visits, first.presses.trans second.presses⟩

/-- What a statement adds to each table. -/
def Statement.visited (done : Bool) : Statement → List Visit
  | .visit ua path => if done then [⟨ua, path⟩] else []
  | _ => []

def Statement.pressed (conn : Connection) : Statement → List Bytes
  | .press button => if conn.pressed button then [button] else []
  | _ => []

theorem Site.exec_rows {site after : Site} (ran : site.exec conn done q = some after) :
    after.visits = site.visits ++ q.visited done ∧
      after.presses = site.presses ++ q.pressed conn := by
  cases q with
  | visit ua path =>
    cases ran
    cases done <;> simp [Statement.visited, Statement.pressed]
  | press button =>
    cases ran
    cases pressed : conn.pressed button <;> simp [Statement.visited, Statement.pressed, pressed]
  | scalar | tables | route =>
    obtain ⟨-, same⟩ := Option.ite_none_right_eq_some.mp ran
    cases same
    simp [Statement.visited, Statement.pressed]

theorem Site.exec_grows {site after : Site} (ran : site.exec conn done q = some after) :
    site.Grows after := by
  obtain ⟨visits, presses⟩ := exec_rows ran
  exact ⟨visits ▸ List.prefix_append _ _, presses ▸ List.prefix_append _ _⟩

/-! The statements of a request. -/

/-- The rows that a statement of the request can add. -/
def Statement.Legit (req : Request) : Statement → Prop
  | .visit ua path => ua = req.userAgent ∧ path = req.route
  | .press button => req.presses ∧ button = sanitizeButton req.body
  | _ => True

/-- A request that is no press only reads. -/
theorem answerStatements_reads (other : ¬ req.presses) (conn : Connection) :
    ∀ q ∈ answerStatements conn req,
      q.Legit req ∧ (∀ done, q.visited done = []) ∧ q.pressed conn = [] := by
  intro q member
  rw [answerStatements, if_neg other] at member
  split at member
  · cases member
  · split at member
    · rw [List.mapIdx_eq_zipIdx_map] at member
      obtain ⟨v, -, rfl⟩ := List.mem_map.mp member
      exact ⟨trivial, fun _ => rfl, rfl⟩
    · split at member <;>
      · cases List.mem_singleton.mp member
        exact ⟨trivial, fun _ => rfl, rfl⟩

theorem handleStatements_legit (conn : Connection) (req : Request) :
    ∀ q ∈ handleStatements conn req, q.Legit req := by
  refine List.forall_mem_cons.mpr ⟨⟨rfl, rfl⟩, fun q member => ?_⟩
  by_cases presses : req.presses
  · rw [answerStatements, if_pos presses, pressStatements] at member
    rcases List.mem_cons.mp member with rfl | counts
    · exact ⟨presses, rfl⟩
    · split at counts
      · cases List.mem_singleton.mp counts
        trivial
      · cases counts
  · exact (answerStatements_reads presses conn q member).1

theorem handleStatements_visited (conn : Connection) (req : Request) :
    (handleStatements conn req).flatMap (Statement.visited true) =
      [⟨req.userAgent, req.route⟩] := by
  have later : (answerStatements conn req).flatMap (Statement.visited true) = [] := by
    by_cases presses : req.presses
    · rw [answerStatements, if_pos presses, pressStatements]
      split <;> rfl
    · exact List.flatMap_eq_nil_iff.mpr fun q member =>
        (answerStatements_reads presses conn q member).2.1 true
  rw [handleStatements, List.flatMap_cons, later, List.append_nil]
  rfl

theorem handleStatements_pressed (conn : Connection) (req : Request) :
    (handleStatements conn req).flatMap (Statement.pressed conn) =
      if req.presses ∧ conn.pressed (sanitizeButton req.body) then [sanitizeButton req.body]
      else [] := by
  rw [handleStatements, List.flatMap_cons]
  change (answerStatements conn req).flatMap (Statement.pressed conn) = _
  by_cases presses : req.presses
  · rw [answerStatements, if_pos presses, pressStatements]
    cases recorded : conn.pressed (sanitizeButton req.body) <;>
      simp [Statement.pressed, recorded, presses]
  · rw [if_neg fun both => presses both.1]
    exact List.flatMap_eq_nil_iff.mpr fun q member =>
      (answerStatements_reads presses conn q member).2.2

theorem answer_press (presses : req.presses) (met : Circumstances) :
    met.answer req = servePress met.conn met.stack req.body := by
  rw [Circumstances.answer, answer]
  exact (if_pos presses.1).trans (if_pos presses.2)

/-- A press is answered with 200 exactly if it was recorded. -/
theorem servePress_status (conn : Connection) (stack : Stack) (body : Bytes) :
    (servePress conn stack body).status = 200 ↔ conn.pressed (sanitizeButton body) = true := by
  rw [servePress]
  split
  · next pressed => exact iff_of_true rfl pressed
  · next refused => exact iff_of_false (by decide) refused

/-! One step of the service. -/

namespace Service
variable {count : Nat} {s t : Service}

theorem step_accept (taken : s.step count (.accept k chunks met) = some t) :
    k < count ∧ s.workers k = none ∧ t = s.accept k chunks met := by
  obtain ⟨⟨inside, free⟩, same⟩ := Option.ite_none_right_eq_some.mp taken
  exact ⟨inside, Option.isNone_iff_eq_none.mp free, (Option.some.inj same).symm⟩

theorem step_statement (taken : s.step count (.statement k done) = some t) :
    ∃ req met q rest site, s.workers k = some ⟨req, met, q :: rest⟩ ∧
      s.site.exec met.conn done q = some site ∧
      t = { s with site }.setWorker k (some ⟨req, met, rest⟩) := by
  rw [step] at taken
  split at taken
  · next req met q rest found =>
    obtain ⟨site, ran, rfl⟩ := Option.map_eq_some_iff.mp taken
    exact ⟨req, met, q, rest, site, found, ran, rfl⟩
  · cases taken

theorem step_respond (taken : s.step count (.respond k) = some t) :
    ∃ req met, s.workers k = some ⟨req, met, []⟩ ∧
      t = (s.setWorker k none).send (some req) (met.answer req) := by
  rw [step] at taken
  split at taken
  · next req met found =>
    cases taken
    exact ⟨req, met, found, rfl⟩
  · cases taken

theorem step_crash (taken : s.step count (.crash k) = some t) :
    ∃ w, s.workers k = some w ∧ t = s.setWorker k none := by
  obtain ⟨busy, same⟩ := Option.ite_none_right_eq_some.mp taken
  obtain ⟨w, found⟩ := Option.isSome_iff_exists.mp busy
  exact ⟨w, found, (Option.some.inj same).symm⟩

/-- What a worker has in hand comes from a request that was read, and what it still has to run
is the end of the statements of that request. -/
structure Sound (count : Nat) (s : Service) : Prop where
  read : ∀ k w, s.workers k = some w → ∃ chunks, readRequest chunks = some w.req
  pending : ∀ k w, s.workers k = some w → w.pending <:+ handleStatements w.met.conn w.req
  few : ∀ k, count ≤ k → s.workers k = none

theorem sound_of_idle (idle : s.Idle) : Sound count s where
  read k _ found := nomatch (idle k).symm.trans found
  pending k _ found := nomatch (idle k).symm.trans found
  few k _ := idle k

/-- Another content of one slot. -/
theorem Sound.setWorker (sound : Sound count s) (inside : k < count) (site : Site)
    (fits : ∀ w ∈ after, (∃ chunks, readRequest chunks = some w.req) ∧
      w.pending <:+ handleStatements w.met.conn w.req) :
    Sound count ({ s with site }.setWorker k after) := by
  have slots (i : Nat) (w : Serving) (found : Function.update s.workers k after i = some w) :
      i = k ∧ after = some w ∨ s.workers i = some w := by
    by_cases same : i = k
    · subst same
      exact .inl ⟨rfl, by rwa [Function.update_self] at found⟩
    · exact .inr (by rwa [Function.update_of_ne same] at found)
  constructor
  · intro i w found
    rcases slots i w found with ⟨-, rfl⟩ | earlier
    · exact (fits w rfl).1
    · exact sound.read i w earlier
  · intro i w found
    rcases slots i w found with ⟨-, rfl⟩ | earlier
    · exact (fits w rfl).2
    · exact sound.pending i w earlier
  · intro i outside
    exact (Function.update_of_ne (by omega) _ _).trans (sound.few i outside)

theorem Sound.inside (sound : Sound count s) (found : s.workers k = some w) : k < count := by
  by_contra outside
  cases (sound.few k (Nat.le_of_not_lt outside)).symm.trans found

theorem Sound.step (sound : Sound count s) (taken : s.step count e = some t) : Sound count t := by
  cases e with
  | accept k chunks met =>
    obtain ⟨inside, -, rfl⟩ := step_accept taken
    rw [Service.accept]
    split
    · exact ⟨sound.read, sound.pending, sound.few⟩
    · next req read =>
      exact sound.setWorker inside s.site fun w same => by
        cases same
        exact ⟨⟨chunks, read⟩, List.suffix_rfl⟩
  | statement k done =>
    obtain ⟨req, met, q, rest, site, found, -, rfl⟩ := step_statement taken
    refine sound.setWorker (sound.inside found) site fun w same => ?_
    cases same
    obtain ⟨chunks, read⟩ := sound.read k _ found
    exact ⟨⟨chunks, read⟩, (List.suffix_cons q rest).trans (sound.pending k _ found)⟩
  | respond k =>
    obtain ⟨req, met, found, rfl⟩ := step_respond taken
    have free : Sound count (s.setWorker k none) :=
      sound.setWorker (sound.inside found) s.site nofun
    exact ⟨free.read, free.pending, free.few⟩
  | crash k =>
    obtain ⟨w, found, rfl⟩ := step_crash taken
    exact sound.setWorker (sound.inside found) s.site nofun
  | edit content =>
    cases taken
    exact ⟨sound.read, sound.pending, sound.few⟩

end Service

end SelfDb.Server
