import SelfDb.Server.Response
import SelfDb.Transition.Accounts
import SelfDb.Transition.Runs

/-! The site in the file: the statements that `handle` of `examples/server/server.c` issues, and
workers that serve connections from one database in any order among each other. -/
namespace SelfDb.Server
open CString Scanning

deriving instance DecidableEq for RouteRow

/-- A row of `visits`; the time is left out. -/
structure Visit where
  ua : Bytes
  path : Bytes
deriving DecidableEq

/-- What is served, and what else a query reads: the owner may change it at any time. -/
structure Content where
  route : Bytes → Option (Option Bytes × Option Bytes)
  tables : List (Option Bytes)
  value : Bytes → Option Bytes

/-- The database; of a press the button is kept. -/
structure Site where
  visits : List Visit
  presses : List Bytes
  content : Content

def countVisits : Bytes := literal "SELECT count(*) FROM visits"

def countPresses : Bytes := literal "SELECT count(*) FROM presses"

/-- What a query yields that does not fail. -/
def Site.value (site : Site) (sql : Bytes) : Option Bytes :=
  if sql = countVisits ∨ sql = countSql (literal "visits") then
    some (digitsOf site.visits.length)
  else if sql = countPresses ∨ sql = countSql (literal "presses") then
    some (digitsOf site.presses.length)
  else site.content.value sql

/-! The statements of a request. -/

inductive Statement where
  | visit (ua path : Bytes)
  | press (button : Bytes)
  /-- A query of `sql_scalar`, and its number in the request. -/
  | scalar (query : Nat) (sql : Bytes)
  /-- The listing of the tables, and the queries that are made while it is open. -/
  | tables
  /-- The row of a path, and the queries of the page. -/
  | route (path : Bytes)
deriving DecidableEq

/-- The path without the query string. -/
def Request.route (req : Request) : Bytes := req.path.takeWhile (· ≠ '?'.toUInt8)

/-- `/api/press` is asked for. -/
def Request.presses (req : Request) : Prop :=
  req.method = literal "POST" ∧ req.route = literal "/api/press"

instance (req : Request) : Decidable req.presses := inferInstanceAs (Decidable (_ ∧ _))

/-- The statements of `serve_press`; `conn` is how they turn out. -/
def pressStatements (conn : Connection) (button : Bytes) : List Statement :=
  .press button :: if conn.pressed button then [.scalar 0 countPresses] else []

/-- The statements behind the one of `record_visit`. -/
def answerStatements (conn : Connection) (req : Request) : List Statement :=
  if req.presses then pressStatements conn (sanitizeButton req.body)
  else if req.method ≠ literal "GET" ∧ req.method ≠ literal "HEAD" then []
  else if req.route = literal "/api/stats" then
    templateVars.mapIdx fun query v => .scalar query v.sql
  else if req.route = literal "/api/tables" then [.tables]
  else [.route (if req.route = literal "/" then literal "/index.html" else req.route)]

/-- The statements of `handle`, in order. -/
def handleStatements (conn : Connection) (req : Request) : List Statement :=
  .visit req.userAgent req.route :: answerStatements conn req

/-- The queries of `render`. -/
def renderQueries (html : Bytes) : List Bytes :=
  match memmem html opening with
  | none => []
  | some (before, _) =>
    match _closed : memmem (html.drop before.length) closing with
    | none => []
    | some (braced, rest) => ((varNamed (braced.drop 2)).map (·.sql)).toList ++ renderQueries rest
termination_by html.length
decreasing_by
  have length := congrArg List.length (find_id_some _closed).1
  simp only [List.length_drop, List.length_append] at length
  have two : closing.length = 2 := rfl
  omega

namespace Site
variable (site : Site) (conn : Connection)

/-- The query fails, or yields what the site holds. -/
def Scalar (query : Nat) (sql : Bytes) : Prop :=
  conn.answers query sql = none ∨ conn.answers query sql = site.value sql

instance (query : Nat) (sql : Bytes) : Decidable (site.Scalar conn query sql) :=
  inferInstanceAs (Decidable (_ ∨ _))

/-- The names up to an error, each counted while the listing is open. -/
def Tables : Prop :=
  ∀ names ∈ conn.listing, names <+: site.content.tables ∧
    ∀ p ∈ (names.filterMap (·.map cstr)).zipIdx, site.Scalar conn p.2 (countSql p.1)

instance : Decidable (site.Tables conn) := inferInstanceAs (Decidable (∀ _ ∈ _, _))

/-- The row, and the values on its page: the statement that yields the row is open while the
page is rendered, so no other process has written between them. A row that fails is missing. -/
def Route (path : Bytes) : Prop :=
  match conn.route path with
  | .unprepared | .missing => True
  | .row mime body => site.content.route path = some (mime, body) ∧
      ((literal "text/html").isPrefixOf
          ((mime.map cstr).getD (literal "application/octet-stream")) →
        ∀ p ∈ (renderQueries (body.getD [])).zipIdx, site.Scalar conn p.2 p.1)

instance (path : Bytes) : Decidable (site.Route conn path) := by
  unfold Route
  split <;> infer_instance

/-- A statement that turns out as `conn` says, if it can; `done` is whether a visit is recorded. -/
def exec (done : Bool) : Statement → Option Site
  | .visit ua path =>
    some (if done then { site with visits := site.visits ++ [⟨ua, path⟩] } else site)
  | .press button =>
    some (if conn.pressed button then { site with presses := site.presses ++ [button] } else site)
  | .scalar query sql => if site.Scalar conn query sql then some site else none
  | .tables => if site.Tables conn then some site else none
  | .route path => if site.Route conn path then some site else none

end Site

/-! The workers. -/

/-- What `serve_connection` meets while it serves one request. -/
structure Circumstances where
  conn : Connection
  heap : Nat → Answer
  stack : Stack

/-- A worker in `handle`. -/
structure Serving where
  req : Request
  met : Circumstances
  pending : List Statement

/-- What was handed to `respond`; a request that `read_request` refuses is none. -/
structure Answered where
  req : Option Request
  response : Response

structure Service where
  site : Site
  /-- A worker that waits for a connection serves none. -/
  workers : Nat → Option Serving
  sent : List Answered

inductive ServiceEvent where
  /-- Worker `k` has accepted a connection and read what arrives on it. -/
  | accept (k : Nat) (chunks : List Chunk) (met : Circumstances)
  | statement (k : Nat) (done : Bool)
  | respond (k : Nat)
  /-- Another process takes the place of worker `k`. -/
  | crash (k : Nat)
  | edit (content : Content)

def Circumstances.answer (met : Circumstances) (req : Request) : Response :=
  Server.answer met.conn met.heap met.stack req

namespace Service
variable (count : Nat) (s : Service)

def setWorker (k : Nat) (w : Option Serving) : Service :=
  { s with workers := Function.update s.workers k w }

def send (req : Option Request) (response : Response) : Service :=
  { s with sent := s.sent ++ [⟨req, response⟩] }

/-- `serve_connection`, up to the first statement. -/
def accept (k : Nat) (chunks : List Chunk) (met : Circumstances) : Service :=
  match readRequest chunks with
  | none => s.send none (respondText 400 "malformed request\n")
  | some req => s.setWorker k (some ⟨req, met, handleStatements met.conn req⟩)

def step : ServiceEvent → Option Service
  | .accept k chunks met =>
    if k < count ∧ (s.workers k).isNone then some (s.accept k chunks met) else none
  | .statement k done =>
    match s.workers k with
    | some ⟨req, met, q :: rest⟩ => (s.site.exec met.conn done q).map fun site =>
        { s with site }.setWorker k (some ⟨req, met, rest⟩)
    | _ => none
  | .respond k =>
    match s.workers k with
    | some ⟨req, met, []⟩ => some ((s.setWorker k none).send (some req) (met.answer req))
    | _ => none
  | .crash k => if (s.workers k).isSome then some (s.setWorker k none) else none
  | .edit content => some { s with site := { s.site with content } }

/-- No worker serves. -/
def Idle : Prop := ∀ k, s.workers k = none

end Service

end SelfDb.Server
