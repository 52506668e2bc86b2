import SelfDb.Server.Totals

/-! What the workers store: whatever a client sends, the rows are plain. -/
namespace SelfDb.Server
open CString Transition

structure Visit.Plain (v : Visit) : Prop where
  agent : 0 ∉ v.ua ∧ v.ua.length < maxUaBytes ∧ Scanning.OneLine 13 10 v.ua
  path : 0 ∉ v.path ∧ v.path.length < maxPathBytes
  visible : ∀ b ∈ v.path, isspace b = false ∧ b ≠ '?'.toUInt8

def IsButton (button : Bytes) : Prop :=
  button ≠ [] ∧ button.length < maxButtonBytes ∧ ∀ c ∈ button, Harmless c

theorem sanitizeButton_nonempty (raw : Bytes) : sanitizeButton raw ≠ [] := by
  simp only [sanitizeButton]
  split
  · decide
  · next some => exact some

theorem visit_plain {req : Request} (plain : req.Plain) :
    Visit.Plain ⟨req.userAgent, req.route⟩ := by
  have part : req.route <+: req.path := List.takeWhile_prefix _
  refine ⟨⟨plain.agent_plain, req.userAgent_fits, plain.agent_line⟩,
    ⟨fun null => plain.path_plain (part.subset null), part.length_le.trans_lt req.path_fits⟩,
    fun b member => ⟨plain.path.visible b (part.subset member), ?_⟩⟩
  have found := List.mem_takeWhile_imp (show b ∈ req.path.takeWhile _ from member)
  simpa using found

theorem added_plain {req : Request} {q : Statement} (plain : req.Plain) (legit : q.Legit req) :
    (∀ v ∈ q.visited done, v.Plain) ∧ ∀ b ∈ q.pressed conn, IsButton b := by
  cases q with
  | visit ua path =>
    obtain ⟨rfl, rfl⟩ := legit
    refine ⟨fun v member => ?_, List.forall_mem_nil _⟩
    rw [Statement.visited] at member
    split at member
    · cases List.mem_singleton.mp member
      exact visit_plain plain
    · cases member
  | press button =>
    obtain ⟨-, rfl⟩ := legit
    refine ⟨List.forall_mem_nil _, fun b member => ?_⟩
    rw [Statement.pressed] at member
    split at member
    · cases List.mem_singleton.mp member
      obtain ⟨harmless, fits⟩ := sanitizeButton_spec req.body
      exact ⟨sanitizeButton_nonempty req.body, fits, harmless⟩
    · cases member
  | scalar | tables | route => exact ⟨List.forall_mem_nil _, List.forall_mem_nil _⟩

/-- What is added since the start, and that it is plain. -/
def Site.GrowsPlain (before after : Site) : Prop :=
  ∃ visits presses, after.visits = before.visits ++ visits ∧
    after.presses = before.presses ++ presses ∧
    (∀ v ∈ visits, v.Plain) ∧ ∀ b ∈ presses, IsButton b

theorem Site.GrowsPlain.refl (site : Site) : site.GrowsPlain site :=
  ⟨[], [], (List.append_nil _).symm, (List.append_nil _).symm, List.forall_mem_nil _,
    List.forall_mem_nil _⟩

theorem Site.GrowsPlain.trans {a b c : Site} (first : a.GrowsPlain b) (second : b.GrowsPlain c) :
    a.GrowsPlain c := by
  obtain ⟨visits, presses, visited, pressed, plain, buttons⟩ := first
  obtain ⟨visits', presses', visited', pressed', plain', buttons'⟩ := second
  refine ⟨visits ++ visits', presses ++ presses', ?_, ?_, ?_, ?_⟩
  · rw [visited', visited, List.append_assoc]
  · rw [pressed', pressed, List.append_assoc]
  · exact List.forall_mem_append.mpr ⟨plain, plain'⟩
  · exact List.forall_mem_append.mpr ⟨buttons, buttons'⟩

theorem Service.growsPlain_step {s t : Service} (sound : s.Sound count)
    (taken : s.step count e = some t) : s.site.GrowsPlain t.site := by
  cases e with
  | accept k chunks met =>
    obtain ⟨-, -, rfl⟩ := step_accept taken
    rw [Service.accept]
    split <;> exact .refl _
  | statement k done =>
    obtain ⟨req, met, q, rest, site, found, ran, rfl⟩ := step_statement taken
    obtain ⟨visited, pressed⟩ := Site.exec_rows ran
    obtain ⟨chunks, read⟩ := sound.read k _ found
    have issued : q ∈ handleStatements met.conn req :=
      (sound.pending k _ found).subset List.mem_cons_self
    exact ⟨_, _, visited, pressed,
      added_plain (plain_of_readRequest read) (handleStatements_legit _ _ q issued)⟩
  | respond k =>
    obtain ⟨req, met, -, rfl⟩ := step_respond taken
    exact .refl _
  | crash k =>
    obtain ⟨w, -, rfl⟩ := step_crash taken
    exact .refl _
  | edit content =>
    cases taken
    exact ⟨[], [], (List.append_nil _).symm, (List.append_nil _).symm, List.forall_mem_nil _,
      List.forall_mem_nil _⟩

/-- Whatever arrives on the connections, the rows that are added hold one line of text, a path
without a query string, and names of buttons. -/
theorem stored_plain (run : Reaches (Service.step count) s events t) (idle : s.Idle) :
    s.site.GrowsPlain t.site :=
  (run.invariant (P := fun u => u.Sound count ∧ s.site.GrowsPlain u.site)
    (fun ⟨sound, grown⟩ _ taken =>
      ⟨sound.step taken, grown.trans (Service.growsPlain_step sound taken)⟩)
    ⟨Service.sound_of_idle idle, .refl _⟩).2

/-- After two presses, the rows of which are all that is added. -/
theorem stored_plain_twice : ∃ t : Service,
    t.site.visits = [⟨[], literal "/api/press"⟩, ⟨[], literal "/api/press"⟩] ∧
    t.site.presses = [literal "a", literal "a"] ∧ freshService.site.GrowsPlain t.site := by
  obtain ⟨t, u, first, second, -, visits, presses⟩ := exists_presses
  exact ⟨u, visits, presses, stored_plain (first.trans second) fun _ => rfl⟩

end SelfDb.Server
