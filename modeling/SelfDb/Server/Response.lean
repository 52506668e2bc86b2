import SelfDb.Server.Render
import SelfDb.Server.Request

/-! From a request to the bytes on the socket: the handlers, `respond` and `send_all` of
`examples/server/server.c`. -/
namespace SelfDb.Server
open CString

/-! `send_all` and `respond` -/

/-- `write` fails, or takes so many bytes and one more. -/
abbrev Peer := Nat → Option Nat

/-- The bytes that are sent, and the number of the next call of `write`. -/
def sendAll (peer : Peer) (call : Nat) (bytes : Bytes) : Bytes × Nat :=
  match bytes with
  | [] => ([], call)
  | first :: rest =>
    match peer call with
    | none => ([], call + 1)
    | some more =>
      let later := sendAll peer (call + 1) (rest.drop more)
      (first :: rest.take more ++ later.1, later.2)
termination_by bytes.length
decreasing_by
  rw [List.length_drop, List.length_cons]
  omega

/-- The bytes of a buffer of that size and of what is behind it in memory, as many as
`snprintf` of the text says that there are. -/
def snprintf (size : Nat) (behind : Nat → UInt8) (text : Bytes) : Bytes :=
  let stored := text.take (size - 1) ++ [0]
  let n := (formattedLength text % 2 ^ 64).toNat
  stored.take n ++ (List.range (n - stored.length)).map behind

def statusText : Nat → Bytes
  | 200 => literal "OK"
  | 400 => literal "Bad Request"
  | 404 => literal "Not Found"
  | 405 => literal "Method Not Allowed"
  | 500 => literal "Internal Server Error"
  | _ => literal "Unknown"

/-- What `respond` is called with; the body is the `len` bytes behind the pointer. -/
structure Response where
  status : Nat
  mime : Bytes
  body : Bytes

def formatHead (version : Bytes) (response : Response) : Bytes :=
  literal "HTTP/1.1 " ++ digitsOf response.status ++ literal " " ++ statusText response.status ++
  literal "\r\nServer: self-httpd (SELF/SQLite " ++ version ++
  literal ")\r\nContent-Type: " ++ response.mime ++
  literal "\r\nContent-Length: " ++ digitsOf response.body.length ++
  literal "\r\nX-Served-From: sqlite-row\r\nConnection: close\r\n\r\n"

/-- What is in memory behind `head` in `respond`, and behind `json` in `serve_press`. -/
structure Stack where
  head : Nat → UInt8
  json : Nat → UInt8

def respond (peer : Peer) (stack : Stack) (version : Bytes) (response : Response) : Bytes :=
  let head := sendAll peer 0 (snprintf 512 stack.head (formatHead version response))
  head.1 ++ (sendAll peer head.2 response.body).1

def respondText (status : Nat) (message : String) : Response :=
  ⟨status, literal "text/plain; charset=utf-8", literal message⟩

def jsonMime : Bytes := literal "application/json"

/-! The handlers. -/

/-- `SELECT mime, body FROM routes WHERE path = ?` -/
inductive RouteRow where
  | unprepared
  | missing
  | row (mime body : Option Bytes)

/-- What SQLite answers while a request is served. -/
structure Connection where
  version : Bytes
  answers : Answers
  route : Bytes → RouteRow
  /-- The names of the listing; `none` if it cannot be prepared. -/
  listing : Option (List (Option Bytes))
  /-- The insert into `presses` was prepared and done. -/
  pressed : Bytes → Bool
  /-- `time(NULL) - g_started_at` -/
  uptime : Int64
  version_plain : 0 ∉ version
  /-- `count(*)` is a number of rows. -/
  counts : ∀ query rest value,
    answers query (literal "SELECT count(*) FROM " ++ rest) = some value →
      ∃ n < 2 ^ 63, value = digitsOf n

/-- One line of `/api/stats`. -/
def statsLine (conn : Connection) (v : Nat) (var : TemplateVar) : Bytes :=
  let shown := (sqlScalar conn.answers v var.sql).getD []
  let key := (if v = 0 then [] else literal ",") ++ literal "\"" ++ var.name
  match var.kind with
  | .number => key ++ literal "\":" ++ (if shown ≠ [] then shown else literal "0")
  | .text => key ++ literal "\":\"" ++ shown ++ literal "\""

def statsPieces (conn : Connection) : List Piece :=
  .append (literal "\x7b") :: (templateVars.mapIdx fun v var => .printf (statsLine conn v var)) ++
    [.printf (literal ",\"uptime_seconds\":" ++ signedDigitsOf conn.uptime.toInt ++ literal "\x7d")]

def serveStats (conn : Connection) (heap : Nat → Answer) : Response :=
  ⟨200, jsonMime, (assemble heap (statsPieces conn)).contents⟩

/-- `SELECT count(*) FROM "%w"` -/
def countSql (name : Bytes) : Bytes :=
  literal "SELECT count(*) FROM \"" ++ name.flatMap
    (fun b => if b = '"'.toUInt8 then [b, b] else [b]) ++ literal "\""

/-- One line of `/api/tables`. -/
def tablesLine (conn : Connection) (query : Nat) (name : Bytes) : Bytes :=
  (if query = 0 then [] else literal ",") ++ literal "\x7b\"name\":\"" ++ name ++
    literal "\",\"rows\":" ++
    (sqlScalar conn.answers query (countSql name)).getD (literal "0") ++ literal "\x7d"

def tablesPieces (conn : Connection) (names : List (Option Bytes)) : List Piece :=
  .append (literal "[") ::
    ((names.filterMap (·.map cstr)).mapIdx fun query name =>
      .printf (tablesLine conn query name)) ++
    [.append (literal "]")]

def serveTables (conn : Connection) (heap : Nat → Answer) : Response :=
  match conn.listing with
  | none => respondText 500 "cannot read sqlite_schema"
  | some names => ⟨200, jsonMime, (assemble heap (tablesPieces conn names)).contents⟩

def maxButtonBytes : Nat := 32

/-- The loop of `sanitize_button`. -/
def sanitizeFrom (out : Bytes) : Bytes → Bytes
  | [] => out
  | c :: raw =>
    if out.length < maxButtonBytes - 1 then
      if isalnum c ∨ c = '-'.toUInt8 ∨ c = '_'.toUInt8 then sanitizeFrom (out ++ [c]) raw
      else sanitizeFrom out raw
    else out

def sanitizeButton (raw : Bytes) : Bytes :=
  let out := sanitizeFrom [] raw
  if out = [] then literal "press" else out

def pressText (conn : Connection) (button : Bytes) : Bytes :=
  literal "\x7b\"presses\":" ++
    (sqlScalar conn.answers 0 (literal "SELECT count(*) FROM presses")).getD (literal "0") ++
    literal ",\"button\":\"" ++ button ++ literal "\"\x7d"

def servePress (conn : Connection) (stack : Stack) (body : Bytes) : Response :=
  let button := sanitizeButton body
  if conn.pressed button then ⟨200, jsonMime, snprintf 128 stack.json (pressText conn button)⟩
  else respondText 500 "cannot record the press"

def serveRoute (conn : Connection) (heap : Nat → Answer) (path : Bytes) : Response :=
  match conn.route path with
  | .unprepared => respondText 500 "no routes table: this executable has no website in it"
  | .missing => respondText 404 "no such row in routes\n"
  | .row mime body =>
    let mime := (mime.map cstr).getD (literal "application/octet-stream")
    let body := body.getD []
    if literal "text/html" <+: mime then ⟨200, mime, (render heap conn.answers body).contents⟩
    else ⟨200, mime, body⟩

/-- The one call of `respond` that `handle` makes. -/
def answer (conn : Connection) (heap : Nat → Answer) (stack : Stack) (req : Request) : Response :=
  let path := req.path.takeWhile (· ≠ '?'.toUInt8)
  if req.method = literal "POST" then
    if path = literal "/api/press" then servePress conn stack req.body
      else respondText 404 "no such endpoint\n"
  else if req.method ≠ literal "GET" ∧ req.method ≠ literal "HEAD"
    then respondText 405 "GET, HEAD or POST only\n"
  else if path = literal "/api/stats" then serveStats conn heap
  else if path = literal "/api/tables" then serveTables conn heap
  else serveRoute conn heap (if path = literal "/" then literal "/index.html" else path)

/-- `handle`: the bytes that are sent. -/
def handle (peer : Peer) (conn : Connection) (heap : Nat → Answer) (stack : Stack) (req : Request) :
    Bytes :=
  respond peer stack conn.version (answer conn heap stack req)

end SelfDb.Server
