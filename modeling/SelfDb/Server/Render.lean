import SelfDb.Scanning.CString
import SelfDb.Server.Buffer

/-! `TEMPLATE_VARS`, `sql_scalar` and `render` of `examples/server/server.c`. -/
namespace SelfDb.Server
open CString Scanning

inductive ValueKind where
  | number
  | text
deriving DecidableEq

/-- `struct template_var` -/
structure TemplateVar where
  name : Bytes
  sql : Bytes
  kind : ValueKind
deriving DecidableEq

def templateVars : List TemplateVar :=
  let number (name sql : String) : TemplateVar := ⟨literal name, literal sql, .number⟩
  let text (name sql : String) : TemplateVar := ⟨literal name, literal sql, .text⟩
  [ number "visits" "SELECT count(*) FROM visits",
    number "presses" "SELECT count(*) FROM presses",
    number "routes" "SELECT count(*) FROM routes",
    number "site_bytes" "SELECT coalesce(sum(length(body)), 0) FROM routes",
    number "segments" "SELECT count(*) FROM segments",
    number "symbols" "SELECT count(*) FROM symbols",
    number "relocations" "SELECT count(*) FROM relocations",
    number "needed" "SELECT count(*) FROM needed",
    number "tables" "SELECT count(*) FROM sqlite_schema WHERE type='table'",
    number "file_bytes"
      "SELECT (SELECT * FROM pragma_page_count) * (SELECT * FROM pragma_page_size)",
    number "page_size" "SELECT * FROM pragma_page_size",
    text "machine" "SELECT value FROM self_meta WHERE key='machine'",
    text "entry" "SELECT printf('0x%x', value) FROM self_meta WHERE key='entry'",
    text "interp" "SELECT value FROM self_meta WHERE key='interp'",
    text "sqlite_version" "SELECT sqlite_version()" ]

/-- The text in the first column of the first row that a query yields, for the n-th query
of a request: other processes write to the file between two queries. -/
abbrev Answers := Nat → Bytes → Option Bytes

/-- `sql_scalar`: the text is copied as a C string. -/
def sqlScalar (db : Answers) (query : Nat) (sql : Bytes) : Option Bytes := (db query sql).map cstr

def opening : Bytes := literal "\x7b\x7b"

def closing : Bytes := literal "\x7d\x7d"

/-- What one call appends: bytes of the page, or a value in the place of `{{name}}`. -/
inductive Segment where
  | text (bytes : Bytes)
  | slot (name value : Bytes)

namespace Segment

/-- The bytes of the page that a segment stands for. -/
def source : Segment → Bytes
  | text bytes => bytes
  | slot name _ => opening ++ name ++ closing

def shown : Segment → Bytes
  | text bytes => bytes
  | slot _ value => value

end Segment

/-- The variable of a name. -/
def varNamed (name : Bytes) : Option TemplateVar := templateVars.find? (·.name = name)

/-- The value, or `{{name}}` where there is none. -/
def substitute (db : Answers) (query : Nat) (braced : Bytes) : Segment :=
  match (varNamed (braced.drop 2)).bind fun v => sqlScalar db query v.sql with
  | some value => .slot (braced.drop 2) value
  | none => .text (braced ++ closing)

/-- The loop of `render`, from a position of the page on. -/
def renderFrom (db : Answers) (query : Nat) (html : Bytes) : List Segment :=
  match memmem html opening with
  | none => [.text html]
  | some (before, _) =>
    match _closed : memmem (html.drop before.length) closing with
    | none => [.text html]
    | some (braced, rest) =>
      let asked := if (varNamed (braced.drop 2)).isSome then query + 1 else query
      .text before :: substitute db query braced :: renderFrom db asked rest
termination_by html.length
decreasing_by
  have length := congrArg List.length (find_id_some _closed).1
  simp only [List.length_drop, List.length_append] at length
  have two : closing.length = 2 := rfl
  omega

def render (heap : Nat → Answer) (db : Answers) (html : Bytes) : Buffer :=
  assemble heap ((renderFrom db 0 html).map fun segment => .append segment.shown)

/-! One turn of the loop. -/

/-- The page is `before`, `{{name}}` and `rest`; no other `{{` is earlier, no other `}}` between. -/
structure Braces (html before name rest : Bytes) : Prop where
  split : html = before ++ (opening ++ name ++ (closing ++ rest))
  first : ∀ p, opening <+: html.drop p → before.length ≤ p
  ends : ∀ p, before.length ≤ p → closing <+: html.drop p → before.length + 2 + name.length ≤ p

theorem braces_of_found (opened : memmem html opening = some (before, inside))
    (closed : memmem (html.drop before.length) closing = some (braced, rest)) :
    ∃ name, braced = opening ++ name ∧ Braces html before name rest := by
  obtain ⟨split, first⟩ := find_id_some opened
  obtain ⟨behind, ends⟩ := find_id_some closed
  rw [split, List.drop_left] at behind
  -- The closing braces are behind the opening ones.
  obtain ⟨name, rfl⟩ : ∃ name, braced = opening ++ name := by
    match braced, behind with
    | [], behind => cases behind
    | [_], behind => cases behind
    | a :: b :: name, behind =>
      obtain ⟨rfl, rfl, -⟩ : '{'.toUInt8 = a ∧ '{'.toUInt8 = b ∧ _ := by
        simpa [opening, literal] using behind
      exact ⟨name, rfl⟩
  refine ⟨name, rfl, ⟨by rw [split, behind], first, fun p inside here => ?_⟩⟩
  obtain ⟨k, rfl⟩ := Nat.exists_eq_add_of_le inside
  have bound := ends k (by rwa [List.drop_drop])
  rw [List.length_append] at bound
  have two : opening.length = 2 := rfl
  omega

theorem source_substitute (db : Answers) (query : Nat) (name : Bytes) :
    (substitute db query (opening ++ name)).source = opening ++ name ++ closing := by
  rw [substitute]
  split <;> rfl

/-- The segments are the page, in order. -/
theorem source_renderFrom (db : Answers) (query : Nat) (html : Bytes) :
    (renderFrom db query html).flatMap Segment.source = html := by
  fun_induction renderFrom db query html with
  | case1 query html absent => exact List.append_nil html
  | case2 query html before inside opened absent => exact List.append_nil html
  | case3 query html before inside opened braced rest closed asked ih =>
    obtain ⟨name, rfl, braces⟩ := braces_of_found opened closed
    rw [List.flatMap_cons, List.flatMap_cons, ih, source_substitute, Segment.source]
    conv_rhs => rw [braces.split]
    simp only [List.append_assoc]

/-- Where the page is cut does not depend on the values. -/
theorem sources_renderFrom (db db' : Answers) (query query' : Nat) (html : Bytes) :
    (renderFrom db query html).map Segment.source =
    (renderFrom db' query' html).map Segment.source := by
  fun_induction renderFrom db query html generalizing query' with
  | case1 query html absent =>
    rw [renderFrom]
    split
    · rfl
    · next opened => cases absent.symm.trans opened
  | case2 query html before inside opened absent =>
    rw [renderFrom]
    split
    · rfl
    · next opened' =>
      cases opened.symm.trans opened'
      split
      · rfl
      · next closed => cases absent.symm.trans closed
  | case3 query html before inside opened braced rest closed asked ih =>
    conv_rhs => rw [renderFrom]
    split
    · next absent => cases opened.symm.trans absent
    · next opened' =>
      cases opened.symm.trans opened'
      split
      · next absent => cases closed.symm.trans absent
      · next closed' =>
        cases closed.symm.trans closed'
        obtain ⟨name, rfl, -⟩ := braces_of_found opened closed
        simp only [List.map_cons, source_substitute]
        rw [ih]

/-- A value is the answer to the query of its name. -/
theorem substitute_eq_slot (same : substitute db query braced = .slot name value) :
    name = braced.drop 2 ∧ ∃ v, varNamed name = some v ∧ sqlScalar db query v.sql = some value := by
  rw [substitute] at same
  split at same
  · next found =>
    cases same
    obtain ⟨v, named, answered⟩ := Option.bind_eq_some_iff.mp found
    exact ⟨rfl, v, named, answered⟩
  · cases same

theorem slot_mem_renderFrom (member : .slot name value ∈ renderFrom db query html) :
    ∃ v, varNamed name = some v ∧ ∃ n, sqlScalar db n v.sql = some value := by
  fun_induction renderFrom db query html with
  | case1 => simp at member
  | case2 => simp at member
  | case3 query html before inside opened braced rest closed asked ih =>
    rcases List.mem_cons.mp member with same | member
    · cases same
    rcases List.mem_cons.mp member with same | member
    · obtain ⟨-, v, named, answered⟩ := substitute_eq_slot same.symm
      exact ⟨v, named, query, answered⟩
    · exact ih member

theorem varNamed_eq_some (named : varNamed name = some v) : v ∈ templateVars ∧ v.name = name :=
  ⟨List.mem_of_find?_eq_some named, by simpa using List.find?_some named⟩

/-- `{{name}}` -/
def placeholder (name : Bytes) : Bytes := opening ++ name ++ closing

/-- The page is cut into segments, some of which are `{{name}}` and are replaced by the
answer to the query of that name. -/
structure Substitutes (db : Answers) (html out : Bytes) (segments : List Segment) : Prop where
  source : segments.flatMap Segment.source = html
  shown : segments.flatMap Segment.shown = out
  slots : ∀ name value, .slot name value ∈ segments →
    ∃ v ∈ templateVars, v.name = name ∧ ∃ query, sqlScalar db query v.sql = some value

theorem render_contents (memory : ∀ call, heap call ≠ none) (db : Answers) (html : Bytes) :
    (render heap db html).Valid ∧
      (render heap db html).contents = (renderFrom db 0 html).flatMap Segment.shown := by
  obtain ⟨valid, same⟩ := assemble_contents memory
    ((renderFrom db 0 html).map fun segment => .append segment.shown)
  exact ⟨valid, same.trans (List.flatMap_map _ _ _)⟩

/-- The output is the page with some placeholders replaced; which bytes of the page
these are does not depend on the values; without a placeholder that has a value the
page comes out as it is. -/
theorem render_conservative (memory : ∀ call, heap call ≠ none) (db : Answers) (html : Bytes) :
    Substitutes db html (render heap db html).contents (renderFrom db 0 html) ∧
      (∀ db', (renderFrom db' 0 html).map Segment.source =
        (renderFrom db 0 html).map Segment.source) ∧
      ((∀ v ∈ templateVars, placeholder v.name <:+: html →
        ∀ query, sqlScalar db query v.sql = none) →
        (render heap db html).contents = html) := by
  have slots : ∀ name value, .slot name value ∈ renderFrom db 0 html →
      ∃ v ∈ templateVars, v.name = name ∧ ∃ query, sqlScalar db query v.sql = some value := by
    intro name value member
    obtain ⟨v, named, answered⟩ := slot_mem_renderFrom member
    exact ⟨v, (varNamed_eq_some named).1, (varNamed_eq_some named).2, answered⟩
  have source := source_renderFrom db 0 html
  have shown := (render_contents memory db html).2
  refine ⟨⟨source, shown.symm, slots⟩, fun db' => sources_renderFrom db' db 0 0 html,
    fun bare => ?_⟩
  rw [shown]
  conv_rhs => rw [← source]
  refine List.flatMap_congr fun segment member => ?_
  cases segment with
  | text bytes => rfl
  | slot name value =>
    obtain ⟨v, known, rfl, query, answered⟩ := slots name value member
    obtain ⟨front, back, split⟩ := List.append_of_mem member
    have inside : placeholder v.name <:+: html := by
      rw [← source, split, List.flatMap_append, List.flatMap_cons]
      exact ⟨_, _, List.append_assoc _ _ _⟩
    rw [bare v known inside query] at answered
    cases answered

/-- A page with a placeholder between other braces. -/
theorem render_conservative_visits :
    let db : Answers := fun _ _ => some (placeholder (literal "presses"))
    let html := closing ++ placeholder (literal "visits") ++ opening
    let out := (render (fun _ => some fun _ => 0) db html).contents
    Substitutes db html out (renderFrom db 0 html) ∧
      (∀ db', (renderFrom db' 0 html).map Segment.source =
        (renderFrom db 0 html).map Segment.source) ∧
      ((∀ v ∈ templateVars, placeholder v.name <:+: html →
        ∀ query, sqlScalar db query v.sql = none) → out = html) :=
  render_conservative (fun _ => Option.some_ne_none _) _ _

/-! Which placeholders are reached. -/

/-- Every `{{` before the position has its `}}` before it. -/
def ClosedBefore (html : Bytes) (p : Nat) : Prop :=
  ∀ q < p, opening <+: html.drop q → ∃ r, q + 2 ≤ r ∧ r < p ∧ closing <+: html.drop r

/-- At the position the output has the answer to the query of `v`. -/
def ReplacedFrom (db : Answers) (v : TemplateVar) (p : Nat) (segments : List Segment) : Prop :=
  ∃ front value back query, segments = front ++ .slot v.name value :: back ∧
    (front.flatMap Segment.source).length = p ∧ sqlScalar db query v.sql = some value

theorem opening_at (html : Bytes) (p : Nat) :
    opening <+: html.drop p ↔ html[p]? = some '{'.toUInt8 ∧ html[p + 1]? = some '{'.toUInt8 :=
      pair_at_iff _ _ html p

theorem closing_at (html : Bytes) (p : Nat) :
    closing <+: html.drop p ↔ html[p]? = some '}'.toUInt8 ∧ html[p + 1]? = some '}'.toUInt8 :=
      pair_at_iff _ _ html p

/-- An opening pair is behind both braces of a closing pair, or before both. -/
theorem apart {html : Bytes} (opens : opening <+: html.drop p) (closes : closing <+: html.drop q) :
    p + 2 ≤ q ∨ q + 2 ≤ p := by
  have other (k : Nat) (left : html[k]? = some '{'.toUInt8) (right : html[k]? = some '}'.toUInt8) :
      False :=
    absurd (Option.some.inj (left.symm.trans right)) (by decide)
  rw [opening_at] at opens
  rw [closing_at] at closes
  by_contra overlap
  obtain rfl | rfl | rfl : p = q ∨ p = q + 1 ∨ q = p + 1 := by omega
  · exact other _ opens.1 closes.1
  · exact other _ opens.1 closes.2
  · exact other _ opens.2 closes.1

theorem names_plain : ∀ v ∈ templateVars, '}'.toUInt8 ∉ v.name := by decide +kernel

theorem names_distinct : (templateVars.map TemplateVar.name).Nodup := by decide +kernel

theorem varNamed_name (known : v ∈ templateVars) : varNamed v.name = some v := by
  have present : (varNamed v.name).isSome := List.find?_isSome.mpr ⟨v, known, decide_eq_true rfl⟩
  obtain ⟨found, named⟩ := Option.isSome_iff_exists.mp present
  obtain ⟨listed, same⟩ := varNamed_eq_some named
  rw [named, List.inj_on_of_nodup_map names_distinct listed known same]

theorem placeholder_opens {html : Bytes} (here : placeholder name <+: html.drop p) :
    opening <+: html.drop p :=
  ((List.prefix_append _ _).trans (List.prefix_append _ _)).trans here

theorem placeholder_closes {html : Bytes} (here : placeholder name <+: html.drop p) :
    closing <+: html.drop (p + (2 + name.length)) := by
  obtain ⟨after, split⟩ := here
  refine ⟨after, ?_⟩
  have length : (opening ++ name).length = 2 + name.length := List.length_append
  rw [← List.drop_drop, ← split, placeholder, List.append_assoc, ← length, List.drop_left]

namespace Braces

/-- What is between the braces is the name of the placeholder that begins there. -/
theorem name_eq (braces : Braces html before name rest) (plain : '}'.toUInt8 ∉ known)
    (here : placeholder known <+: html.drop before.length) : name = known := by
  have shorter := braces.ends _ (by omega) (placeholder_closes here)
  rw [braces.split, List.drop_left, placeholder, List.append_assoc, List.append_assoc,
    List.prefix_append_right_inj] at here
  obtain ⟨more, rfl⟩ := List.prefix_of_prefix_length_le (List.prefix_append name (closing ++ rest))
    ((List.prefix_append known closing).trans here) (by omega)
  cases more with
  | nil => exact (List.append_nil _).symm
  | cons b more =>
    -- The name would contain the brace that ends it.
    rw [List.append_assoc, List.prefix_append_right_inj] at here
    have brace := List.head_eq_of_cons_eq here.choose_spec
    exact absurd (List.mem_append_right _ (brace ▸ List.mem_cons_self)) plain

theorem opens (braces : Braces html before name rest) : opening <+: html.drop before.length := by
  rw [braces.split, List.drop_left, List.append_assoc]
  exact List.prefix_append _ _

theorem closes (braces : Braces html before name rest) :
    closing <+: html.drop (before.length + (2 + name.length)) :=
  placeholder_closes (by
    rw [braces.split, List.drop_left, placeholder]
    exact ⟨rest, by simp only [List.append_assoc]⟩)

theorem rest_eq (braces : Braces html before name rest) (k : Nat) :
    html.drop (before.length + (2 + name.length + 2) + k) = rest.drop k := by
  have length : (opening ++ name ++ closing).length = 2 + name.length + 2 := by
    rw [List.length_append, List.length_append]
    rfl
  rw [← List.drop_drop, ← List.drop_drop, braces.split, List.drop_left, ← List.append_assoc,
    ← length, List.drop_left]

/-- Behind the closing braces the page is judged by the rest alone. -/
theorem closedBefore_rest (braces : Braces html before name rest) (k : Nat) :
    ClosedBefore html (before.length + (2 + name.length + 2) + k) ↔ ClosedBefore rest k := by
  constructor
  · intro closed q less here
    obtain ⟨r, behind, inside, close⟩ := closed (before.length + (2 + name.length + 2) + q)
      (by omega)
      (by rwa [braces.rest_eq])
    obtain ⟨j, rfl⟩ := Nat.exists_eq_add_of_le
      (show before.length + (2 + name.length + 2) ≤ r by omega)
    rw [braces.rest_eq] at close
    exact ⟨j, by omega, by omega, close⟩
  · intro closed q less here
    have first := braces.first q here
    rcases apart here braces.closes with inside | behind
    · exact ⟨before.length + (2 + name.length), by omega, by omega, braces.closes⟩
    · obtain ⟨j, rfl⟩ := Nat.exists_eq_add_of_le
        (show before.length + (2 + name.length + 2) ≤ q by omega)
      rw [braces.rest_eq] at here
      obtain ⟨r, behind, inside, close⟩ := closed j (by omega) here
      exact ⟨before.length + (2 + name.length + 2) + r, by omega, by omega, by rwa [braces.rest_eq]⟩

end Braces

theorem replacedFrom_cons (db : Answers) (v : TemplateVar) (p : Nat) (segment : Segment)
    (rest : List Segment) :
    ReplacedFrom db v p (segment :: rest) ↔
      (p = 0 ∧ ∃ value query, segment = .slot v.name value ∧
        sqlScalar db query v.sql = some value) ∨
      ∃ k, p = segment.source.length + k ∧ ReplacedFrom db v k rest := by
  constructor
  · rintro ⟨front, value, back, query, split, rfl, answered⟩
    cases front with
    | nil =>
      cases split
      exact .inl ⟨rfl, value, query, rfl, answered⟩
    | cons first front =>
      cases split
      refine .inr ⟨_, ?_, front, value, back, query, rfl, rfl, answered⟩
      rw [List.flatMap_cons, List.length_append]
  · rintro (⟨rfl, value, query, rfl, answered⟩ | ⟨k, rfl, front, value, back, query, rfl, rfl,
      answered⟩)
    · exact ⟨[], value, rest, query, rfl, rfl, answered⟩
    · refine ⟨segment :: front, value, back, query, rfl, ?_, answered⟩
      rw [List.flatMap_cons, List.length_append]

theorem replacedFrom_text (db : Answers) (v : TemplateVar) (before : Bytes) (k : Nat)
    (rest : List Segment) :
    ReplacedFrom db v (before.length + k) (.text before :: rest) ↔ ReplacedFrom db v k rest := by
  rw [replacedFrom_cons]
  simp [Segment.source]

theorem substitute_known (known : v ∈ templateVars) (yields : (sqlScalar db query v.sql).isSome) :
    ∃ value, substitute db query (opening ++ v.name) = .slot v.name value ∧
      sqlScalar db query v.sql = some value := by
  obtain ⟨value, answered⟩ := Option.isSome_iff_exists.mp yields
  refine ⟨value, ?_, answered⟩
  have name : (opening ++ v.name).drop 2 = v.name := rfl
  rw [substitute, name, varNamed_name known, Option.bind_some, answered]

/-- A placeholder is replaced exactly if no earlier `{{` is still open. -/
theorem replacedFrom_iff (known : v ∈ templateVars)
    (yields : ∀ query, (sqlScalar db query v.sql).isSome) (p : Nat)
    (here : placeholder v.name <+: html.drop p) :
    ReplacedFrom db v p (renderFrom db query html) ↔ ClosedBefore html p := by
  fun_induction renderFrom db query html generalizing p with
  | case1 query html absent =>
    exact absurd (placeholder_opens here) (find_id_none absent p)
  | case2 query html before inside opened absent =>
    obtain ⟨k, rfl⟩ := Nat.exists_eq_add_of_le ((find_id_some opened).2 p (placeholder_opens here))
    have closes := placeholder_closes here
    rw [Nat.add_assoc, ← List.drop_drop] at closes
    exact absurd closes (find_id_none absent _)
  | case3 query html before inside opened braced rest closed asked ih =>
    obtain ⟨name, rfl, braces⟩ := braces_of_found opened closed
    obtain ⟨k, rfl⟩ := Nat.exists_eq_add_of_le (braces.first p (placeholder_opens here))
    have source : (substitute db query (opening ++ name)).source.length = 2 + name.length + 2 := by
      rw [source_substitute, List.length_append, List.length_append]
      rfl
    rw [replacedFrom_text, replacedFrom_cons, source]
    rcases Nat.eq_zero_or_pos k with rfl | later
    · cases braces.name_eq (names_plain v known) here
      obtain ⟨value, slot, answered⟩ := substitute_known known (yields query)
      have none : ClosedBefore html (before.length + 0) := fun q less open_ =>
        absurd (braces.first q open_) (by omega)
      exact ⟨fun _ => none, fun _ => .inl ⟨rfl, value, query, slot, answered⟩⟩
    · rcases apart (placeholder_opens here) braces.closes with inside | behind
      · -- The first braces are still open here.
        constructor
        · rintro (⟨none, -⟩ | ⟨j, rfl, -⟩) <;> omega
        · intro closed
          obtain ⟨r, behind, before_, close⟩ := closed before.length (by omega) braces.opens
          have ends := braces.ends r (by omega) close
          omega
      · obtain ⟨j, rfl⟩ := Nat.exists_eq_add_of_le (show 2 + name.length + 2 ≤ k by omega)
        rw [← Nat.add_assoc] at here ⊢
        rw [braces.rest_eq] at here
        rw [braces.closedBefore_rest, ← ih j here]
        constructor
        · rintro (⟨none, -⟩ | ⟨i, same, replaced⟩)
          · omega
          · rwa [Nat.add_left_cancel same]
        · intro replaced
          exact .inr ⟨j, rfl, replaced⟩

/-- Every placeholder of the page whose query yields a value is replaced, exactly if none of them
is behind a `{{` that is still open there. -/
theorem render_complete_iff (db : Answers) (html : Bytes) :
    (∀ v ∈ templateVars, ∀ p, placeholder v.name <+: html.drop p →
      (∀ query, (sqlScalar db query v.sql).isSome) → ReplacedFrom db v p (renderFrom db 0 html)) ↔
    ∀ v ∈ templateVars, ∀ p, placeholder v.name <+: html.drop p →
      (∀ query, (sqlScalar db query v.sql).isSome) → ClosedBefore html p :=
  forall₄_congr fun _ known _ here => forall_congr' fun yields =>
    replacedFrom_iff known yields _ here

/-- A stray brace takes the placeholder with it. -/
theorem render_skips_placeholder : ∃ (db : Answers) (html : Bytes),
    html = '{'.toUInt8 :: placeholder (literal "visits") ∧
      (render (fun _ => some fun _ => 0) db html).contents = html ∧
    ¬ ∀ v ∈ templateVars, ∀ p, placeholder v.name <+: html.drop p →
      (∀ query, (sqlScalar db query v.sql).isSome) →
      ReplacedFrom db v p (renderFrom db 0 html) := by
  refine ⟨fun _ _ => some (literal "7"), '{'.toUInt8 :: placeholder (literal "visits"), rfl, ?_,
    fun all => ?_⟩
  · decide +kernel
  · let visits : TemplateVar := ⟨literal "visits", literal "SELECT count(*) FROM visits", .number⟩
    have known : visits ∈ templateVars := by decide +kernel
    have here : placeholder visits.name <+:
        ('{'.toUInt8 :: placeholder (literal "visits")).drop 1 := List.prefix_rfl
    have replaced := all visits known 1 here fun _ => rfl
    -- The braces at position 0 have nothing before position 1 to close them.
    have closed := (replacedFrom_iff known (fun _ => rfl) 1 here).mp replaced
    obtain ⟨r, behind, inside, -⟩ := closed 0 (by decide) (by decide +kernel)
    omega

end SelfDb.Server
