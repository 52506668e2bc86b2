import SelfDb.Server.Response

/-! What is on the socket after `handle`, against a head and a body. -/
namespace SelfDb.Server
open CString

theorem sendAll_sent (accepts : ∀ call, peer call ≠ none) (call : Nat) (bytes : Bytes) :
    (sendAll peer call bytes).1 = bytes := by
  fun_induction sendAll peer call bytes with
  | case1 call => rfl
  | case2 call first rest refused => exact absurd refused (accepts call)
  | case3 call first rest more taken later ih =>
    change first :: rest.take more ++ later.1 = _
    rw [ih, List.cons_append, List.take_append_drop]

/-! A buffer that is read for as long as the text is. -/

theorem formattedLength_fits (fits : text.length < 2 ^ 31) :
    (formattedLength text % 2 ^ 64).toNat = text.length := by
  rw [formattedLength, if_pos fits]
  omega

theorem le_formattedLength (text : Bytes) (small : size ≤ 2 ^ 31) (long : size ≤ text.length) :
    size ≤ (formattedLength text % 2 ^ 64).toNat := by
  rw [formattedLength]
  split <;> omega

theorem snprintf_fits (behind : Nat → UInt8) (small : size ≤ 2 ^ 31) (fits : text.length < size) :
    snprintf size behind text = text := by
  simp only [snprintf]
  rw [formattedLength_fits (by omega), List.take_of_length_le (by omega : text.length ≤ size - 1),
    List.take_left, List.length_append, List.length_singleton,
    Nat.sub_eq_zero_of_le (Nat.le_succ _)]
  exact List.append_nil text

/-- The NUL that ends a text which is cut is among the bytes that are read. -/
theorem snprintf_cut (behind : Nat → UInt8) (positive : 0 < size) (small : size ≤ 2 ^ 31)
    (long : size ≤ text.length) :
    (snprintf size behind text)[size - 1]? = some 0 := by
  have enough := le_formattedLength text small long
  have front : (text.take (size - 1)).length = size - 1 := by
    rw [List.length_take]
    omega
  have stored : (text.take (size - 1) ++ [0]).length = size := by
    rw [List.length_append, front, List.length_singleton]
    omega
  simp only [snprintf]
  rw [List.take_of_length_le (by rw [stored]; exact enough),
    List.getElem?_append_left (by rw [stored]; omega), List.getElem?_append_right (by rw [front]),
    front, Nat.sub_self]
  rfl

/-! The head. -/

/-- The texts of the head and the fixed ones between them are shorter than the buffer. -/
def HeadFits (version : Bytes) (response : Response) : Prop :=
  129 + version.length + (digitsOf response.status).length + (statusText response.status).length +
    response.mime.length + (digitsOf response.body.length).length < 512

theorem formatHead_length (version : Bytes) (response : Response) :
    (formatHead version response).length =
    129 + version.length + (digitsOf response.status).length + (statusText response.status).length +
      response.mime.length + (digitsOf response.body.length).length := by
  have fixed : (literal "HTTP/1.1 ").length = 9 ∧ (literal " ").length = 1 ∧
      (literal "\r\nServer: self-httpd (SELF/SQLite ").length = 34 ∧
        (literal ")\r\nContent-Type: ").length = 17 ∧
      (literal "\r\nContent-Length: ").length = 18 ∧
      (literal "\r\nX-Served-From: sqlite-row\r\nConnection: close\r\n\r\n").length =
        50 := by decide +kernel
  obtain ⟨first, blank, server, type, length, last⟩ := fixed
  rw [formatHead]
  simp only [List.length_append, first, blank, server, type, length, last]
  omega

theorem digitsOf_plain (n : Nat) : 0 ∉ digitsOf n :=
  fun member => absurd (digitsOf_isdigit n 0 member) (by decide)

theorem statusText_plain (status : Nat) : 0 ∉ statusText status := by
  rw [statusText.eq_def]
  split <;> decide

theorem formatHead_plain (version_plain : 0 ∉ version) (mime_plain : 0 ∉ response.mime) :
    0 ∉ formatHead version response := by
  have fixed : 0 ∉ literal "HTTP/1.1 " ∧ 0 ∉ literal " " ∧
      0 ∉ literal "\r\nServer: self-httpd (SELF/SQLite " ∧
      0 ∉ literal ")\r\nContent-Type: " ∧ 0 ∉ literal "\r\nContent-Length: " ∧
      0 ∉ literal "\r\nX-Served-From: sqlite-row\r\nConnection: close\r\n\r\n" := by decide +kernel
  obtain ⟨first, blank, server, type, length, last⟩ := fixed
  rw [formatHead]
  simp only [List.mem_append, not_or]
  exact ⟨⟨⟨⟨⟨⟨⟨⟨⟨⟨first, digitsOf_plain _⟩, blank⟩, statusText_plain _⟩, server⟩, version_plain⟩,
    type⟩, mime_plain⟩, length⟩, digitsOf_plain _⟩, last⟩

/-- The whole head is sent, and what follows it is the body, exactly if the head fits. -/
theorem respond_iff (accepts : ∀ call, peer call ≠ none) (stack : Stack)
    (version_plain : 0 ∉ version) (mime_plain : 0 ∉ response.mime) (rest : Bytes) :
    respond peer stack version response = formatHead version response ++ rest ↔
      HeadFits version response ∧ response.body = rest := by
  simp only [respond, sendAll_sent accepts, HeadFits, ← formatHead_length]
  by_cases fits : (formatHead version response).length < 512
  · rw [snprintf_fits stack.head (by decide) fits, List.append_cancel_left_eq]
    simp only [fits, true_and]
  · simp only [fits, false_and, iff_false]
    intro same
    have cut := snprintf_cut stack.head (by decide) (by decide) (Nat.le_of_not_lt fits)
    have sent : _ = (formatHead version response ++ rest)[511]? := congrArg (·[511]?) same
    rw [List.getElem?_append_left (List.getElem?_eq_some_iff.mp cut).1, cut,
      List.getElem?_append_left (by omega)] at sent
    exact formatHead_plain version_plain mime_plain (List.mem_of_getElem? sent.symm)

/-! The press. -/

/-- A character that the loop of `sanitize_button` keeps. -/
def Harmless (c : UInt8) : Prop := isalnum c ∨ c = '-'.toUInt8 ∨ c = '_'.toUInt8

theorem sanitizeFrom_spec (harmless : ∀ c ∈ out, Harmless c) (fits : out.length < maxButtonBytes)
    (raw : Bytes) :
    (∀ c ∈ sanitizeFrom out raw, Harmless c) ∧ (sanitizeFrom out raw).length < maxButtonBytes := by
  fun_induction sanitizeFrom out raw with
  | case1 out => exact ⟨harmless, fits⟩
  | case2 out c raw room kept ih =>
    refine ih (fun d member => ?_) ?_
    · rcases List.mem_append.mp member with earlier | last
      · exact harmless d earlier
      · rw [List.mem_singleton] at last
        exact last ▸ kept
    · rw [List.length_append, List.length_singleton]
      omega
  | case3 out c raw room dropped ih => exact ih harmless fits
  | case4 out c raw full => exact ⟨harmless, fits⟩

theorem sanitizeButton_spec (raw : Bytes) :
    (∀ c ∈ sanitizeButton raw, Harmless c) ∧ (sanitizeButton raw).length < maxButtonBytes := by
  simp only [sanitizeButton]
  split
  · have all : (literal "press").all isalnum = true := by decide
    exact ⟨fun c member => .inl (List.all_eq_true.mp all c member), by decide⟩
  · exact sanitizeFrom_spec (by simp) (by decide) raw

/-- A number of rows as text, `0` where there is none. -/
theorem sqlScalar_count (conn : Connection) (query : Nat) (rest : Bytes) :
    ∃ n < 2 ^ 63, (sqlScalar conn.answers query (literal "SELECT count(*) FROM " ++ rest)).getD
      (literal "0") =
      digitsOf n := by
  cases answered : conn.answers query (literal "SELECT count(*) FROM " ++ rest) with
  | none =>
    rw [sqlScalar, answered]
    exact ⟨0, by decide, by decide +kernel⟩
  | some value =>
    obtain ⟨n, small, rfl⟩ := conn.counts query rest value answered
    rw [sqlScalar, answered, Option.map_some, cstr_plain (digitsOf_plain n)]
    exact ⟨n, small, rfl⟩

/-- The text of a press, with the number that it names. -/
theorem pressText_eq (conn : Connection) (button : Bytes) : ∃ n < 2 ^ 63, pressText conn button =
    literal "\x7b\"presses\":" ++ digitsOf n ++ literal ",\"button\":\"" ++ button ++
      literal "\"\x7d" := by
  obtain ⟨n, small, same⟩ := sqlScalar_count conn 0 (literal "presses")
  refine ⟨n, small, ?_⟩
  rw [pressText, ← same]
  rfl

theorem pressText_fits (conn : Connection) (raw : Bytes) :
    (pressText conn (sanitizeButton raw)).length < 128 := by
  obtain ⟨n, small, same⟩ := pressText_eq conn (sanitizeButton raw)
  have digits : (digitsOf n).length ≤ 19 := digitsOf_length_le (by decide) (by omega)
  have button := (sanitizeButton_spec raw).2
  have fixed : (literal "\x7b\"presses\":").length = 11 ∧ (literal ",\"button\":\"").length = 11 ∧
      (literal "\"\x7d").length = 2 := by decide +kernel
  obtain ⟨first, middle, last⟩ := fixed
  rw [same]
  simp only [List.length_append, first, middle, last]
  rw [maxButtonBytes] at button
  omega

/-- The body of a press is the text that was formatted. -/
theorem servePress_eq (conn : Connection) (stack : Stack) (raw : Bytes) :
    servePress conn stack raw =
    if conn.pressed (sanitizeButton raw) then ⟨200, jsonMime, pressText conn (sanitizeButton raw)⟩
    else respondText 500 "cannot record the press" := by
  rw [servePress, snprintf_fits stack.json (by decide) (pressText_fits conn raw)]

/-! `handle` -/

theorem answer_stack (conn : Connection) (heap : Nat → Answer) (stack stack' : Stack)
    (req : Request) :
    answer conn heap stack req = answer conn heap stack' req := by
  simp only [answer, servePress_eq]

theorem serveRoute_mime_plain (conn : Connection) (heap : Nat → Answer) (path : Bytes) :
    0 ∉ (serveRoute conn heap path).mime := by
  rw [serveRoute]
  split
  · decide +kernel
  · decide +kernel
  · next mime body found =>
    have plain : 0 ∉ (mime.map cstr).getD (literal "application/octet-stream") := by
      cases mime with
      | none => decide +kernel
      | some mime => exact not_mem_cstr mime
    dsimp only
    split <;> exact plain

theorem answer_mime_plain (conn : Connection) (heap : Nat → Answer) (stack : Stack)
    (req : Request) :
    0 ∉ (answer conn heap stack req).mime := by
  have text : 0 ∉ literal "text/plain; charset=utf-8" := by decide +kernel
  have json : 0 ∉ jsonMime := by decide +kernel
  simp only [answer]
  split
  · split
    · rw [servePress]
      split
      · exact json
      · exact text
    · exact text
  · split
    · exact text
    · split
      · exact json
      · split
        · rw [serveTables]
          split
          · exact text
          · exact json
        · exact serveRoute_mime_plain conn heap _

/-- A GET in the place of a HEAD. -/
def Request.asGet (req : Request) : Request :=
  if req.method = literal "HEAD" then { req with method := literal "GET", method_fits := by decide }
    else req

/-- HEAD is answered as GET is. -/
theorem answer_asGet (conn : Connection) (heap : Nat → Answer) (stack : Stack) (req : Request) :
    answer conn heap stack req.asGet = answer conn heap stack req := by
  rw [Request.asGet]
  split
  · next head =>
    simp only [answer, head]
    rfl
  · rfl

/-- The bytes are the head of the response to GET or POST and its body, which HEAD leaves out;
nothing of it is what happens to be in memory. -/
def Framed (conn : Connection) (heap : Nat → Answer) (req : Request) (sent : Bytes) : Prop :=
  ∃ response, (∀ stack, answer conn heap stack req.asGet = response) ∧
    sent = formatHead conn.version response ++ if req.method = literal "HEAD" then []
      else response.body

theorem framed_iff_sent (conn : Connection) (heap : Nat → Answer) (stack : Stack) (req : Request)
    (peer : Peer) :
    Framed conn heap req (handle peer conn heap stack req) ↔
      respond peer stack conn.version (answer conn heap stack req) =
        formatHead conn.version (answer conn heap stack req) ++
          if req.method = literal "HEAD" then [] else (answer conn heap stack req).body := by
  constructor
  · rintro ⟨response, same, sent⟩
    rwa [← same stack, answer_asGet] at sent
  · intro sent
    exact ⟨_, fun other => (answer_asGet conn heap other req).trans
      (answer_stack conn heap other stack req), sent⟩

/-- A response is framed exactly if its head fits the buffer, and there is no body if HEAD
asks for it. -/
theorem handle_framed_iff (accepts : ∀ call, peer call ≠ none) (conn : Connection)
    (heap : Nat → Answer)
    (stack : Stack) (req : Request) : Framed conn heap req (handle peer conn heap stack req) ↔
      HeadFits conn.version (answer conn heap stack req.asGet) ∧
        (req.method = literal "HEAD" → (answer conn heap stack req.asGet).body = []) := by
  rw [framed_iff_sent, answer_asGet, respond_iff accepts stack conn.version_plain
    (answer_mime_plain conn heap stack req)]
  refine and_congr_right fun _ => ?_
  split
  · next head => simp only [head, forall_const]
  · next other => simp only [other, false_imp_iff]

/-- A site with one row in `routes`. -/
def oneRow (mime body : Bytes) : Connection where
  version := literal "3.45.1"
  answers := fun _ _ => none
  route := fun path => if path = literal "/a" then .row (some mime) (some body) else .missing
  listing := some []
  pressed := fun _ => false
  uptime := 0
  version_plain := by decide
  counts := nofun

def getA : Request where
  method := literal "GET"
  path := literal "/a"
  userAgent := []
  body := []
  method_fits := by decide
  path_fits := by decide
  userAgent_fits := by decide
  body_fits := by decide

theorem handle_framed_row : Framed (oneRow (literal "text/css") (literal "a\x7b\x7d"))
    (fun _ => none) getA
    (handle (fun _ => some 0) (oneRow (literal "text/css") (literal "a\x7b\x7d")) (fun _ => none)
      ⟨fun _ => 0, fun _ => 0⟩ getA) :=
  (handle_framed_iff (fun _ => Option.some_ne_none _) _ _ _ _).mpr
    ⟨by rw [HeadFits]; decide +kernel, by decide +kernel⟩

/-- A mime of 400 characters makes the head longer than its buffer; HEAD is sent a body. -/
theorem handle_misframes :
    let long := oneRow (List.replicate 400 'a'.toUInt8) []
    let short := oneRow (literal "text/css") (literal "a\x7b\x7d")
    let headA : Request := { getA with method := literal "HEAD", method_fits := by decide }
    let stack : Stack := ⟨fun _ => 7, fun _ => 7⟩
    ¬ Framed long (fun _ => none) getA (handle (fun _ => some 0) long (fun _ => none) stack getA) ∧
      ¬ Framed short (fun _ => none) headA (handle (fun _ => some 0) short
        (fun _ => none) stack headA) := by
  intro long short headA stack
  constructor
  · rw [framed_iff_sent, respond_iff (fun _ => Option.some_ne_none _) _ (Connection.version_plain _)
      (answer_mime_plain _ _ _ _), HeadFits]
    decide +kernel
  · rw [framed_iff_sent, respond_iff (fun _ => Option.some_ne_none _) _ (Connection.version_plain _)
      (answer_mime_plain _ _ _ _)]
    rintro ⟨-, empty⟩
    revert empty
    decide +kernel

end SelfDb.Server
