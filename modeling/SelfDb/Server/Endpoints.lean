import SelfDb.Json.Grammar
import SelfDb.Server.Framing

/-! The bodies of `/api/stats`, `/api/tables` and `/api/press` as JSON. -/
namespace SelfDb.Server
open CString Json

/-! The tables of the file. -/

/-- A name is a C string. -/
structure Table where
  name : Bytes
  rows : Nat
  name_plain : 0 ∉ name

/-- A table of SQLite's own. -/
def isSqlite (name : Bytes) : Bool := (literal "sqlite_").isPrefixOf (name.map tolower)

/-- `name LIKE 'sqlite_%'`: `_` is any character, and case does not matter. -/
def likeSqlite (name : Bytes) : Bool :=
  (literal "sqlite").isPrefixOf (name.map tolower) && 6 < name.length

/-- The tables in the order of their names, and what the queries of `serve_tables` answer
about them. -/
structure Schema (conn : Connection) where
  tables : List Table
  ordered : tables.Pairwise fun a b => a.name < b.name
  listing : ∀ names, conn.listing = some names →
    names = (tables.filter fun t => !likeSqlite t.name).map fun t => some t.name
  counted : ∀ t ∈ tables, ∀ query value, conn.answers query (countSql t.name) = some value →
    value = digitsOf t.rows

/-- The tables that `/api/tables` is about. -/
def Schema.own (schema : Schema conn) : List Table := schema.tables.filter fun t => !isSqlite t.name

def tableValue (t : Table) : Value :=
  .object [(literal "name", .string t.name), (literal "rows", .number (digitsOf t.rows))]

def Schema.value (schema : Schema conn) : Value := .array (schema.own.map tableValue)

/-- Every table is listed and counted, and its line is whole and needs no escapes. -/
structure Schema.Shown (schema : Schema conn) : Prop where
  listed : conn.listing.isSome
  names : ∀ t ∈ schema.own, PlainString t.name ∧ likeSqlite t.name = false
  lines : ∀ p ∈ schema.own.zipIdx,
    (if p.2 = 0 then 0 else 1) + 19 + p.1.name.length + (digitsOf p.1.rows).length ≤ 1023
  counts : ∀ p ∈ schema.own.zipIdx, conn.answers p.2 (countSql p.1.name) = none → p.1.rows = 0

theorem isSqlite_like (own : isSqlite name = true) : likeSqlite name = true := by
  obtain ⟨rest, split⟩ := List.isPrefixOf_iff_prefix.mp own
  have length := congrArg List.length split
  rw [List.length_append, List.length_map] at length
  have seven : (literal "sqlite_").length = 7 := rfl
  rw [likeSqlite, ← split, Bool.and_eq_true, decide_eq_true_eq]
  exact ⟨List.isPrefixOf_iff_prefix.mpr ⟨literal "_" ++ rest, rfl⟩, by omega⟩

/-- The line of a table, without the comma before it. -/
def entry (t : Table) : Bytes :=
  literal "\x7b\"name\":\"" ++ t.name ++ literal "\",\"rows\":" ++ digitsOf t.rows ++ literal "\x7d"

theorem entry_nonempty (t : Table) : entry t ≠ [] := List.cons_ne_nil _ _

theorem canonical_tableValue (t : Table) : (tableValue t).canonical = entry t := by
  simp [tableValue, Value.canonical, commas, quoted, entry, literal]

theorem plain_tableValue_iff (t : Table) : Plain (tableValue t) ↔ PlainString t.name := by
  constructor
  · intro plain
    cases plain with
    | object members keys values =>
      cases values (literal "name", .string t.name) List.mem_cons_self with
      | string plain => exact plain
  · intro plain
    have keys : PlainString (literal "name") ∧ PlainString (literal "rows") :=
      ⟨plainString_printable (by decide), plainString_printable (by decide)⟩
    refine .object _ ?_ ?_
    · simpa using keys
    · simpa using ⟨Plain.string plain, Plain.number (isNumber_digitsOf t.rows)⟩

/-- The line of a table as the loop of `serve_tables` numbers them. -/
def wholeLine (p : Table × Nat) : Bytes := (if p.2 = 0 then [] else literal ",") ++ entry p.1

theorem wholeLines_eq (tables : List Table) :
    tables.zipIdx.flatMap wholeLine = commas (tables.map entry) := by
  have entries : tables.zipIdx.map (fun p => entry p.1) = tables.map entry := by
    conv_rhs => rw [← List.zipIdx_map_fst 0 tables, List.map_map]
    rfl
  rw [← entries, commas_zipIdx]
  rfl

theorem canonical_tables (tables : List Table) : (Value.array (tables.map tableValue)).canonical =
    literal "[" ++ tables.zipIdx.flatMap wholeLine ++ literal "]" := by
  rw [Value.canonical, List.map_map, wholeLines_eq,
    ← List.map_congr_left fun t _ => canonical_tableValue t]
  rfl

/-- What is appended for a table. -/
def shownLine (conn : Connection) (p : Table × Nat) : Bytes :=
  (Piece.printf (tablesLine conn p.2 (cstr p.1.name))).bytes

theorem serveTables_body (memory : ∀ call, heap call ≠ none) (schema : Schema conn)
    (listed : conn.listing = some names) : (serveTables conn heap).body =
      literal "[" ++ (schema.tables.filter fun t => !likeSqlite t.name).zipIdx.flatMap
        (shownLine conn) ++ literal "]" := by
  rw [serveTables, listed]
  change (assemble heap (tablesPieces conn names)).contents = _
  have names_eq (tables : List Table) : (tables.map fun t => some t.name).filterMap (·.map cstr) =
      tables.map fun t => cstr t.name := by
    rw [List.filterMap_map]
    exact congrFun List.filterMap_eq_map tables
  rw [(assemble_contents memory _).2, tablesPieces, schema.listing names listed, names_eq,
    List.mapIdx_eq_zipIdx_map, List.zipIdx_map, List.map_map, List.flatMap_append,
    List.flatMap_cons, List.flatMap_map, List.flatMap_singleton]
  rfl

theorem wholeLine_length (p : Table × Nat) : (wholeLine p).length =
    (if p.2 = 0 then 0 else 1) + 19 + p.1.name.length + (digitsOf p.1.rows).length := by
  have fixed : (literal "\x7b\"name\":\"").length = 9 ∧ (literal "\",\"rows\":").length = 9 ∧
      (literal "\x7d").length = 1 ∧ (literal ",").length = 1 := by decide
  obtain ⟨first, middle, last, comma⟩ := fixed
  have lead : (if p.2 = 0 then [] else literal ",").length = if p.2 = 0 then 0 else 1 := by
    split
    · rfl
    · exact comma
  rw [wholeLine, entry]
  simp only [List.length_append, lead, first, middle, last]
  omega

/-- The number that is shown for a table, which is 0 if there is no answer. -/
def shownRows (conn : Connection) (p : Table × Nat) : Bytes :=
  (sqlScalar conn.answers p.2 (countSql p.1.name)).getD (literal "0")

theorem shownRows_cases (schema : Schema conn) (member : p.1 ∈ schema.tables) :
    conn.answers p.2 (countSql p.1.name) = none ∧ shownRows conn p = literal "0" ∨
      shownRows conn p = digitsOf p.1.rows := by
  rw [shownRows, sqlScalar]
  cases answered : conn.answers p.2 (countSql p.1.name) with
  | none => exact .inl ⟨rfl, rfl⟩
  | some value =>
    rw [schema.counted p.1 member p.2 value answered]
    exact .inr (cstr_plain (digitsOf_plain _))

theorem tablesLine_eq (conn : Connection) (p : Table × Nat) : tablesLine conn p.2 (cstr p.1.name) =
    (if p.2 = 0 then [] else literal ",") ++
    (literal "\x7b\"name\":\"" ++ p.1.name ++ literal "\",\"rows\":" ++
      shownRows conn p ++ literal "\x7d") := by
  rw [cstr_plain p.1.name_plain, tablesLine, shownRows]
  simp only [List.append_assoc]

theorem tablesLine_length_le (schema : Schema conn) (member : p.1 ∈ schema.tables) :
    (tablesLine conn p.2 (cstr p.1.name)).length ≤ (wholeLine p).length := by
  have rows : (shownRows conn p).length ≤ (digitsOf p.1.rows).length := by
    rcases shownRows_cases schema member with ⟨-, zero⟩ | same
    · rw [zero]
      exact List.length_pos_of_ne_nil (digitsOf_nonempty _)
    · rw [same]
  rw [tablesLine_eq, wholeLine, entry]
  simp only [List.length_append]
  omega

theorem shownLine_length_le (schema : Schema conn) (member : p.1 ∈ schema.tables) :
    (shownLine conn p).length ≤ (wholeLine p).length :=
  (Piece.bytes_prefix _).length_le.trans (tablesLine_length_le schema member)

/-- The line is whole exactly if it is not cut and the number is the right one. -/
theorem shownLine_eq_iff (schema : Schema conn) (member : p.1 ∈ schema.tables) :
    shownLine conn p = wholeLine p ↔ (wholeLine p).length ≤ 1023 ∧
      (conn.answers p.2 (countSql p.1.name) = none → p.1.rows = 0) := by
  have line_eq (rows : shownRows conn p = digitsOf p.1.rows) :
      tablesLine conn p.2 (cstr p.1.name) = wholeLine p := by
    rw [tablesLine_eq, rows]
    rfl
  constructor
  · intro same
    have fits : (wholeLine p).length ≤ 1023 := same ▸ Piece.printf_bytes_length_le _
    have whole := Piece.printf_bytes ((tablesLine_length_le schema member).trans fits)
    refine ⟨fits, fun none => ?_⟩
    rw [shownLine, whole, tablesLine_eq, wholeLine, entry, List.append_cancel_left_eq,
      List.append_cancel_right_eq, List.append_cancel_left_eq, shownRows, sqlScalar, none] at same
    rw [← decimal_digitsOf p.1.rows, ← same]
    decide
  · rintro ⟨fits, counted⟩
    have rows : shownRows conn p = digitsOf p.1.rows := by
      rcases shownRows_cases schema member with ⟨none, zero⟩ | same
      · rw [zero, counted none]
        decide +kernel
      · exact same
    rw [shownLine, line_eq rows, Piece.printf_bytes fits]

/-- The listing leaves out no more than SQLite's own tables. -/
theorem filter_own (schema : Schema conn) :
    schema.tables.filter (fun t => !likeSqlite t.name) =
      schema.own.filter fun t => !likeSqlite t.name := by
  rw [Schema.own, List.filter_filter]
  refine List.filter_congr fun t _ => ?_
  cases own : isSqlite t.name with
  | false => simp
  | true => simp [isSqlite_like own]

/-- What is appended is no longer than all whole lines; if it is as long, no table is left
out and no line is shorter. -/
theorem shown_tight (schema : Schema conn) :
    ((schema.own.filter fun t => !likeSqlite t.name).zipIdx.flatMap (shownLine conn)).length ≤
        (schema.own.zipIdx.flatMap wholeLine).length ∧
      ((schema.own.zipIdx.flatMap wholeLine).length ≤
          ((schema.own.filter fun t => !likeSqlite t.name).zipIdx.flatMap (shownLine conn)).length →
        (∀ t ∈ schema.own, likeSqlite t.name = false) ∧
          ∀ p ∈ schema.own.zipIdx, (wholeLine p).length ≤ (shownLine conn p).length) := by
  have inside : ∀ tables ⊆ schema.own, ∀ p ∈ tables.zipIdx,
      (shownLine conn p).length ≤ (wholeLine p).length :=
    fun tables own p member => shownLine_length_le schema
      (List.mem_of_mem_filter (own (List.fst_mem_of_mem_zipIdx member)))
  obtain ⟨linesLess, -⟩ := flatMap_tight _ (inside _ (List.filter_subset_self _))
  obtain ⟨listLess, listTight⟩ := commas_filter schema.own
    (fun t => !likeSqlite t.name) entry_nonempty
  rw [← wholeLines_eq, ← wholeLines_eq] at listLess listTight
  refine ⟨linesLess.trans listLess, fun short => ?_⟩
  have visible := listTight (short.trans linesLess)
  rw [List.filter_eq_self.mpr visible] at short
  refine ⟨fun t member => by simpa using visible t member, ?_⟩
  exact (flatMap_tight _ (inside _ (List.Subset.refl _))).2 short

theorem filter_visible {tables : List Table} (visible : ∀ t ∈ tables, likeSqlite t.name = false) :
    (tables.filter fun t => !likeSqlite t.name) = tables :=
  List.filter_eq_self.mpr fun t member => by rw [visible t member]; rfl

/-- The message about `sqlite_schema` is no JSON. -/
theorem serveTables_unlisted (unlisted : conn.listing = none) (value : Value) :
    ¬ Denotes (serveTables conn heap).body value := by
  rw [serveTables, unlisted]
  exact not_denotes_of_head rfl (by decide) value

/-- `/api/tables` decodes to the tables and their numbers of rows, exactly if all of them
are shown. -/
theorem serveTables_iff (memory : ∀ call, heap call ≠ none) (schema : Schema conn) :
    Denotes (serveTables conn heap).body schema.value ↔ schema.Shown := by
  have inside : ∀ p ∈ schema.own.zipIdx, p.1 ∈ schema.tables := fun p member =>
    List.mem_of_mem_filter (List.fst_mem_of_mem_zipIdx member)
  cases listed : conn.listing with
  | none =>
    refine iff_of_false (serveTables_unlisted listed _) fun shown => ?_
    exact absurd shown.listed (by rw [listed]; exact Bool.false_ne_true)
  | some names =>
    have body := serveTables_body memory schema listed
    rw [filter_own] at body
    obtain ⟨shorter, tight⟩ := shown_tight schema
    have canonical : schema.value.canonical = literal "[" ++ schema.own.zipIdx.flatMap wholeLine ++
        literal "]" :=
      canonical_tables schema.own
    have short : (serveTables conn heap).body.length ≤ schema.value.canonical.length := by
      rw [body, canonical]
      simp only [List.length_append]
      exact Nat.add_le_add_right (Nat.add_le_add_left shorter _) _
    rw [denotes_iff_canonical short, body, canonical, List.append_cancel_right_eq,
      List.append_cancel_left_eq]
    constructor
    · rintro ⟨same, plain⟩
      obtain ⟨visible, lengths⟩ := tight (same ▸ Nat.le_refl _)
      rw [filter_visible visible] at same
      have each := flatMap_parts _ (fun p member =>
        Nat.le_antisymm (shownLine_length_le schema (inside p member)) (lengths p member)) same
      cases plain with
      | array items plain =>
        exact {
          listed := by rw [listed]; rfl
          names := fun t member =>
            ⟨(plain_tableValue_iff t).mp (plain _ (List.mem_map_of_mem member)), visible t member⟩
          lines := fun p member => by
            rw [← wholeLine_length]
            exact ((shownLine_eq_iff schema (inside p member)).mp (each p member)).1
          counts := fun p member =>
            ((shownLine_eq_iff schema (inside p member)).mp (each p member)).2 }
    · intro shown
      rw [filter_visible fun t member => (shown.names t member).2]
      refine ⟨List.flatMap_congr fun p member => (shownLine_eq_iff schema (inside p member)).mpr
        ⟨by rw [wholeLine_length]; exact shown.lines p member, shown.counts p member⟩, .array _ ?_⟩
      exact List.forall_mem_map.mpr fun t member =>
        (plain_tableValue_iff t).mpr (shown.names t member).1

/-! `/api/press` -/

theorem harmless_printable (harmless : Harmless c) : isPrintable c = true := by
  rcases harmless with alnum | rfl | rfl
  · have all : ∀ n < 256, isalnum (UInt8.ofNat n) = true →
      isPrintable (UInt8.ofNat n) = true := by decide +kernel
    have this_ := all c.toNat c.toNat_lt
    rw [UInt8.ofNat_toNat] at this_
    exact this_ alnum
  · decide
  · decide

def pressValue (n : Nat) (button : Bytes) : Value :=
  .object [(literal "presses", .number (digitsOf n)), (literal "button", .string button)]

/-- `/api/press` answers JSON exactly if the press was recorded. -/
theorem servePress_iff (conn : Connection) (stack : Stack) (raw : Bytes) :
    WellFormed (servePress conn stack raw).body ↔ conn.pressed (sanitizeButton raw) = true := by
  rw [servePress_eq]
  split
  · next pressed =>
    refine iff_of_true ?_ pressed
    obtain ⟨n, -, text⟩ := pressText_eq conn (sanitizeButton raw)
    have canonical : (pressValue n (sanitizeButton raw)).canonical =
        pressText conn (sanitizeButton raw) := by
      rw [text]
      simp [pressValue, Value.canonical, commas, quoted, literal]
    have keys : PlainString (literal "presses") ∧ PlainString (literal "button") :=
      ⟨plainString_printable (by decide), plainString_printable (by decide)⟩
    have button : PlainString (sanitizeButton raw) :=
      plainString_printable (List.all_eq_true.mpr fun c member =>
        harmless_printable ((sanitizeButton_spec raw).1 c member))
    refine ⟨pressValue n (sanitizeButton raw), canonical ▸ plain_denotes (.object _ ?_ ?_)⟩
    · simpa using keys
    · simpa using ⟨Plain.number (isNumber_digitsOf n), Plain.string button⟩
  · next failed =>
    refine iff_of_false ?_ failed
    rintro ⟨value, denotes⟩
    exact not_denotes_of_head rfl (by decide) value denotes

/-! `/api/stats` -/

def statValue (conn : Connection) (p : TemplateVar × Nat) : Value :=
  let shown := (sqlScalar conn.answers p.2 p.1.sql).getD []
  match p.1.kind with
  | .number => .number (if shown ≠ [] then shown else literal "0")
  | .text => .string shown

def statsValue (conn : Connection) : Value :=
  .object ((templateVars.zipIdx.map fun p => (p.1.name, statValue conn p)) ++
    [(literal "uptime_seconds", .number (signedDigitsOf conn.uptime.toInt))])

/-- Every line is whole, every number is one, and no text needs escapes. -/
def StatsShown (conn : Connection) : Prop :=
  ∀ p ∈ templateVars.zipIdx, (statsLine conn p.2 p.1).length ≤ 1023 ∧ Plain (statValue conn p)

theorem statsLine_eq (conn : Connection) (p : TemplateVar × Nat) : statsLine conn p.2 p.1 =
    (if p.2 = 0 then [] else literal ",") ++
    (quoted p.1.name ++ literal ":" ++ (statValue conn p).canonical) := by
  rw [statsLine, statValue]
  cases p.1.kind with
  | number => simp [Value.canonical, quoted, literal]
  | text => simp [Value.canonical, quoted, literal]

def uptimeLine (conn : Connection) : Bytes :=
  literal ",\"uptime_seconds\":" ++ signedDigitsOf conn.uptime.toInt ++ literal "\x7d"

theorem canonical_stats (conn : Connection) : (statsValue conn).canonical =
    literal "\x7b" ++ templateVars.zipIdx.flatMap (fun p => statsLine conn p.2 p.1) ++
      uptimeLine conn := by
  have lines : templateVars.zipIdx.flatMap (fun p => statsLine conn p.2 p.1) =
      commas (templateVars.zipIdx.map fun p => quoted p.1.name ++ literal ":" ++
        (statValue conn p).canonical) := by
    rw [commas_zipIdx]
    exact List.flatMap_congr fun p _ => statsLine_eq conn p
  have nonempty (f : TemplateVar × Nat → Text) : templateVars.zipIdx.map f ≠ [] := by
    rw [Ne, List.map_eq_nil_iff, List.zipIdx_eq_nil_iff]
    exact List.cons_ne_nil _ _
  rw [lines, statsValue, Value.canonical, List.map_append, List.map_map, commas_append (nonempty _)]
  simp [Value.canonical, uptimeLine, quoted, literal, Function.comp_def]

theorem uptimeLine_fits (conn : Connection) : (uptimeLine conn).length ≤ 1023 := by
  have low := conn.uptime.le_toInt
  have high := conn.uptime.toInt_lt
  have digits : (digitsOf conn.uptime.toInt.natAbs).length ≤ 19 :=
    digitsOf_length_le (by decide) (by omega)
  have signed : (signedDigitsOf conn.uptime.toInt).length ≤ 20 := by
    rw [signedDigitsOf]
    split
    · exact Nat.succ_le_succ digits
    · omega
  have fixed : (literal ",\"uptime_seconds\":").length = 18 ∧
      (literal "\x7d").length = 1 := by decide
  rw [uptimeLine]
  simp only [List.length_append, fixed]
  omega

theorem serveStats_body (memory : ∀ call, heap call ≠ none) (conn : Connection) :
    (serveStats conn heap).body =
    literal "\x7b" ++ templateVars.zipIdx.flatMap
      (fun p => (Piece.printf (statsLine conn p.2 p.1)).bytes) ++
      uptimeLine conn := by
  have body : (serveStats conn heap).body =
      (assemble heap (statsPieces conn)).contents := by rw [serveStats]
  have first : (Piece.append (literal "\x7b")).bytes = literal "\x7b" := rfl
  have last : (Piece.printf (literal ",\"uptime_seconds\":" ++ signedDigitsOf conn.uptime.toInt ++
      literal "\x7d")).bytes =
      uptimeLine conn := Piece.printf_bytes (uptimeLine_fits conn)
  rw [body, (assemble_contents memory _).2, statsPieces, List.mapIdx_eq_zipIdx_map,
    List.cons_append, List.flatMap_cons, List.flatMap_append, List.flatMap_map,
    List.flatMap_singleton, first, last, List.append_assoc]

theorem plain_stats_iff (conn : Connection) :
    Plain (statsValue conn) ↔ ∀ p ∈ templateVars.zipIdx, Plain (statValue conn p) := by
  constructor
  · intro plain p member
    cases plain with
    | object members keys values =>
      exact values (p.1.name, statValue conn p)
        (List.mem_append_left _ (List.mem_map_of_mem member))
  · intro plain
    have names : ∀ v ∈ templateVars, PlainString v.name := by
      have printable : ∀ v ∈ templateVars, v.name.all isPrintable = true := by decide +kernel
      exact fun v member => plainString_printable (printable v member)
    have last : PlainString (literal "uptime_seconds") := plainString_printable (by decide)
    refine .object _ ?_ ?_
    · rw [List.forall_mem_append, List.forall_mem_map, List.forall_mem_singleton]
      exact ⟨fun p member => names p.1 (List.fst_mem_of_mem_zipIdx member), last⟩
    · rw [List.forall_mem_append, List.forall_mem_map, List.forall_mem_singleton]
      exact ⟨plain, .number (isNumber_signedDigitsOf _)⟩

/-- `/api/stats` decodes to the variables and their values, exactly if all of them are shown. -/
theorem serveStats_iff (memory : ∀ call, heap call ≠ none) (conn : Connection) :
    Denotes (serveStats conn heap).body (statsValue conn) ↔ StatsShown conn := by
  have body := serveStats_body memory conn
  have canonical := canonical_stats conn
  obtain ⟨shorter, tight⟩ := flatMap_tight templateVars.zipIdx fun p _ =>
    (Piece.bytes_prefix (.printf (statsLine conn p.2 p.1))).length_le
  have short : (serveStats conn heap).body.length ≤ (statsValue conn).canonical.length := by
    rw [body, canonical]
    simp only [List.length_append]
    exact Nat.add_le_add_right (Nat.add_le_add_left shorter _) _
  rw [denotes_iff_canonical short, plain_stats_iff, body, canonical, List.append_cancel_right_eq,
    List.append_cancel_left_eq]
  constructor
  · rintro ⟨same, plain⟩ p member
    have line := tight (same ▸ Nat.le_refl _) p member
    exact ⟨line.trans (Piece.printf_bytes_length_le _), plain p member⟩
  · intro shown
    exact ⟨List.flatMap_congr fun p member => Piece.printf_bytes (shown p member).1,
      fun p member => (shown p member).2⟩

/-- What the three endpoints answer: the tables as they are and the statistics as they are,
exactly if they are shown; a press is answered exactly if it was recorded. -/
theorem endpoints_json (memory : ∀ call, heap call ≠ none) (schema : Schema conn) (stack : Stack)
    (raw : Bytes) :
    (Denotes (serveTables conn heap).body schema.value ↔ schema.Shown) ∧
      (WellFormed (servePress conn stack raw).body ↔ conn.pressed (sanitizeButton raw) = true) ∧
      (Denotes (serveStats conn heap).body (statsValue conn) ↔ StatsShown conn) ∧
      (StatsShown conn → WellFormed (serveStats conn heap).body) :=
  ⟨serveTables_iff memory schema, servePress_iff conn stack raw, serveStats_iff memory conn,
    fun shown => ⟨_, (serveStats_iff memory conn).mpr shown⟩⟩

/-- A file with one table of the site's own, which is empty. -/
def oneTable (name : Bytes) : Connection := { oneRow [] [] with listing := some [some name] }

def oneTableSchema (name : Bytes) (plain : 0 ∉ name) (visible : likeSqlite name = false) :
    Schema (oneTable name) where
  tables := [⟨name, 0, plain⟩]
  ordered := List.pairwise_singleton _ _
  listing := fun names listed => by
    cases listed
    simp [visible]
  counted := nofun

/-- A site that answers every query, with two tables of its own and one of SQLite's. -/
def liveSite : Connection where
  version := literal "3.50.4"
  answers _ sql :=
    some (digitsOf (if (literal "SELECT count(*)").isPrefixOf sql then 3 else 4096))
  route _ := .missing
  listing := some [some (literal "presses"), some (literal "routes")]
  pressed _ := true
  uptime := 60
  version_plain := by decide
  counts query rest value answered := by
    cases answered
    split
    · exact ⟨3, by decide, rfl⟩
    · exact ⟨4096, by decide, rfl⟩

def liveSchema : Schema liveSite where
  tables := [⟨literal "presses", 3, by decide⟩, ⟨literal "routes", 3, by decide⟩,
    ⟨literal "sqlite_sequence", 3, by decide⟩]
  ordered := by decide
  listing names listed := by
    cases listed
    decide
  counted t member query value answered := by
    simp only [List.mem_cons, List.not_mem_nil, or_false] at member
    rcases member with rfl | rfl | rfl <;> cases answered <;> decide +kernel

theorem endpoints_json_liveSite :
    let heap : Nat → Answer := fun _ => some fun _ => 0
    let stack : Stack := ⟨fun _ => 0, fun _ => 0⟩
    let raw := literal "left <button>"
    (Denotes (serveTables liveSite heap).body liveSchema.value ↔ liveSchema.Shown) ∧
      (WellFormed (servePress liveSite stack raw).body ↔
        liveSite.pressed (sanitizeButton raw) = true) ∧
      (Denotes (serveStats liveSite heap).body (statsValue liveSite) ↔ StatsShown liveSite) ∧
      (StatsShown liveSite → WellFormed (serveStats liveSite heap).body) :=
  endpoints_json (fun _ => Option.some_ne_none _) _ _ _

/-- A quote in the name of a table ends the string too early. -/
theorem tables_quote_unescaped :
    let conn := oneTable (literal "a\"b")
    let heap : Nat → Answer := fun _ => some fun _ => 0
    (serveTables conn heap).body = literal "[\x7b\"name\":\"a\"b\",\"rows\":0\x7d]" ∧
      ¬ Denotes (serveTables conn heap).body
        (oneTableSchema (literal "a\"b") (by decide) (by decide)).value := by
  refine ⟨by decide +kernel, fun denotes => ?_⟩
  have shown := (serveTables_iff (fun _ => Option.some_ne_none _) _).mp denotes
  have plain := (shown.names ⟨literal "a\"b", 0, by decide⟩
    (List.mem_filter.mpr ⟨List.mem_cons_self, by decide⟩)).1
  exact plainString_no_quote plain (by decide)

end SelfDb.Server
