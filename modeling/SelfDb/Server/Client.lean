import SelfDb.Scanning.Lines
import SelfDb.Server.RequestLine

/-! The requests that `read_request` can return, and how a client writes each of them. -/
namespace SelfDb.Server
open CString Scanning

/-- The fields are what a head can hold: tokens, and the rest of a line. -/
structure Request.Plain (req : Request) : Prop where
  method : IsToken req.method
  path : IsToken req.path
  method_plain : 0 ∉ req.method
  path_plain : 0 ∉ req.path
  agent_plain : 0 ∉ req.userAgent
  agent_line : OneLine 13 10 req.userAgent
  agent_start : req.userAgent.head? ≠ some ' '.toUInt8

namespace Request
variable (req : Request)

def line : Bytes := req.method ++ ' '.toUInt8 :: req.path ++ literal " HTTP/1.1"

/-- The value of Content-Length and the blank line. -/
def lengthLines : Bytes := ' '.toUInt8 :: digitsOf req.body.length ++ blankLine

def headers : Bytes :=
  literal "User-Agent: " ++ req.userAgent ++ crlf ++ literal "Content-Length:" ++ req.lengthLines

def head : Bytes := req.line ++ crlf ++ req.headers

/-- The request as a client writes it. -/
def print : Bytes := req.head ++ req.body

end Request

/-! The two headers are found where they are written, whatever follows the head. -/

theorem lineEnd_tolower : LineEnd tolower 13 10 := by
  have other : ∀ b, tolower b = 13 ∨ tolower b = 10 → tolower b = b := by
    intro b small
    rw [tolower]
    split
    · next upper =>
      rw [tolower, if_pos upper] at small
      have low := UInt8.le_iff_toNat_le.mp upper.1
      have high := UInt8.le_iff_toNat_le.mp upper.2
      simp only [← UInt8.toNat_inj, UInt8.toNat_add, UInt8.toNat_ofNat, Nat.reducePow,
        Nat.reduceMod] at small low high
      omega
    · rfl
  exact ⟨by decide, fun b same => (other b (.inl same)).symm.trans same,
    fun b same => (other b (.inr same)).symm.trans same⟩

theorem lineEnd_id : LineEnd (id : UInt8 → UInt8) 13 10 :=
  ⟨by decide, fun _ same => same, fun _ same => same⟩

theorem strstr_line (oneLine : OneLine 13 10 line) (rest : Bytes) :
    strstr (line ++ (crlf ++ rest)) crlf = some (line, rest) :=
  find_line_here lineEnd_id oneLine (List.map_id []) rest

namespace Request
variable {req : Request}

theorem line_oneLine (plain : req.Plain) : OneLine 13 10 req.line := by
  have visible (token : Bytes) (isToken : IsToken token) : 10 ∉ token := fun inside =>
    absurd (isToken.visible 10 inside) (by decide)
  have blank : (10 : UInt8) ≠ ' '.toUInt8 := by decide
  have version : 10 ∉ literal " HTTP/1.1" := by decide
  refine oneLine_of_not_mem ?_
  simp only [line, List.mem_append, List.mem_cons, not_or]
  exact ⟨⟨visible _ plain.method, blank, visible _ plain.path⟩, version⟩

theorem agent_oneLine (plain : req.Plain) :
    OneLine 13 10 (literal "User-Agent: " ++ req.userAgent) :=
  plain.agent_line.append (by decide)

/-- The text of the head, for the searches. -/
theorem head_append (req : Request) (more : Bytes) : req.head ++ more = req.line ++ 13 :: 10 ::
    (literal "User-Agent: " ++ req.userAgent ++ 13 :: 10 ::
      (literal "Content-Length:" ++ (req.lengthLines ++ more))) := by
  have ends : crlf = [13, 10] := rfl
  simp [head, headers, ends]

theorem strcasestr_userAgent (plain : req.Plain) (more : Bytes) :
    strcasestr (req.head ++ more) (literal "\r\nUser-Agent:") = some (req.line,
      ' '.toUInt8 :: req.userAgent ++ (crlf ++
        (literal "Content-Length:" ++ (req.lengthLines ++ more)))) := by
  rw [head_append]
  exact find_line_here lineEnd_tolower (line_oneLine plain) rfl _

theorem strcasestr_contentLength (plain : req.Plain) (more : Bytes) :
    strcasestr (req.head ++ more) (literal "\r\nContent-Length:") =
      some (req.line ++ 13 :: 10 :: (literal "User-Agent: " ++ req.userAgent),
        req.lengthLines ++ more) := by
  rw [head_append]
  refine find_line_later lineEnd_tolower (line_oneLine plain) (fun same => ?_)
    (find_line_here lineEnd_tolower (agent_oneLine plain) rfl _)
  exact absurd (List.cons_prefix_cons.mp same).1 (by decide)

theorem digitsOf_oneLine (n : Nat) :
    OneLine 13 10 (literal "Content-Length: " ++ digitsOf n) := by
  refine oneLine_of_not_mem fun member => ?_
  rcases List.mem_append.mp member with name | digit
  · exact absurd name (by decide)
  · exact absurd (digitsOf_isdigit n 10 digit) (by decide)

/-- The blank line is the one behind the length. -/
theorem strstr_head (plain : req.Plain) (more : Bytes) :
    ∃ before, before ++ blankLine = req.head ∧
      strstr (req.head ++ more) blankLine = some (before, more) := by
  have ends : crlf = [13, 10] := rfl
  have blank : blankLine = [13, 10, 13, 10] := rfl
  have text : req.head ++ more = req.line ++ 13 :: 10 ::
      (literal "User-Agent: " ++ req.userAgent ++ 13 :: 10 ::
        (literal "Content-Length: " ++ digitsOf req.body.length ++ 13 :: 10 ::
          ([13, 10] ++ more))) := by
    have name : literal "Content-Length: " = literal "Content-Length:" ++ [' '.toUInt8] := rfl
    simp [head, headers, lengthLines, ends, blank, name]
  have last := find_line_here lineEnd_id (digitsOf_oneLine req.body.length)
    (List.map_id [13, 10]) more
  have middle := find_line_later lineEnd_id (agent_oneLine plain)
    (fun same => absurd (List.cons_prefix_cons.mp same).1 (by decide)) last
  have found := find_line_later lineEnd_id (line_oneLine plain)
    (fun same => absurd (List.cons_prefix_cons.mp same).1 (by decide)) middle
  refine ⟨_, ?_, (congrArg (strstr · blankLine) text).trans found⟩
  have name : literal "Content-Length: " = literal "Content-Length:" ++ [' '.toUInt8] := rfl
  simp [head, headers, lengthLines, ends, blank, name]

theorem userAgentOf_head (plain : req.Plain) (more : Bytes) :
    userAgentOf (req.head ++ more) = req.userAgent := by
  have start : (' '.toUInt8 :: req.userAgent ++ (crlf ++ (literal "Content-Length:" ++
      (req.lengthLines ++ more)))).dropWhile (· = ' '.toUInt8) = req.userAgent ++ (crlf ++
        (literal "Content-Length:" ++ (req.lengthLines ++ more))) := by
    rw [List.cons_append, List.dropWhile_cons_of_pos (by decide)]
    cases agent : req.userAgent with
    | nil => rfl
    | cons first rest =>
      refine List.dropWhile_cons_of_neg fun blank => plain.agent_start ?_
      rw [agent, List.head?_cons, of_decide_eq_true blank]
  rw [userAgentOf, strcasestr_userAgent plain]
  simp only [start, strstr_line plain.agent_line]
  exact List.take_of_length_le (Nat.le_of_lt_succ req.userAgent_fits)

theorem contentLength_head (plain : req.Plain) (more : Bytes) :
    contentLength (req.head ++ more) = req.body.length := by
  have fits := req.body_fits
  have small : (req.body.length : Int) ≤ 2 ^ 63 - 1 := by
    rw [maxBodyBytes] at fits
    omega
  have text : req.lengthLines ++ more = [' '.toUInt8] ++ (digitsOf req.body.length ++
      (blankLine ++ more)) := by
    simp [lengthLines]
  have stops : ∀ b ∈ (blankLine ++ more).head?, isdigit b = false := by
    intro b first
    cases first
    rfl
  rw [contentLength, strcasestr_contentLength plain]
  simp only [text]
  rw [strtol_digitsOf (List.forall_mem_singleton.mpr rfl) _ stops, min_eq_right small]

theorem line_form (plain : req.Plain) : RequestForm req.line req.method req.path where
  split := ⟨literal "HTTP/1.1", rfl, isToken_of_all (by decide) (by decide)⟩
  method := plain.method
  path := plain.path

theorem head_length_le (req : Request) : req.head.length ≤ maxHeaderBytes := by
  have method := req.method_fits
  have path := req.path_fits
  have agent := req.userAgent_fits
  have body := req.body_fits
  rw [maxPathBytes] at path
  rw [maxUaBytes] at agent
  rw [maxBodyBytes] at body
  have digits : (digitsOf req.body.length).length ≤ 4 :=
    digitsOf_length_le (by decide) (Nat.lt_of_le_of_lt body (by decide))
  have fixed : (literal " HTTP/1.1").length = 9 ∧ (literal "User-Agent: ").length = 12 ∧
      (literal "Content-Length:").length = 15 ∧ crlf.length = 2 ∧ blankLine.length = 4 := by decide
  simp only [head, line, headers, lengthLines, List.length_append, List.length_cons, fixed,
    maxHeaderBytes]
  omega

theorem head_plain (plain : req.Plain) : 0 ∉ req.head := by
  have digits : 0 ∉ digitsOf req.body.length := fun member =>
    absurd (digitsOf_isdigit _ 0 member) (by decide)
  have fixed : 0 ∉ literal " HTTP/1.1" ∧ 0 ∉ literal "User-Agent: " ∧
      0 ∉ literal "Content-Length:" ∧ 0 ∉ crlf ∧ 0 ∉ blankLine ∧ 0 ≠ ' '.toUInt8 := by decide
  simp only [head, line, headers, lengthLines, List.mem_append, List.mem_cons, not_or]
  simp only [fixed, plain.method_plain, plain.path_plain, plain.agent_plain, digits,
    not_false_iff, and_self]

/-- What is read up to the blank line, however much of the body comes with it. -/
theorem requestFrom_head (plain : req.Plain) (read : Bytes) :
    requestFrom (req.head ++ read) req.body = some req := by
  have length := contentLength_head plain read
  obtain ⟨line, scanned, method, path⟩ := scanRequestLine_form (line_form plain)
    (Nat.le_of_lt_succ req.method_fits) (Nat.le_of_lt_succ req.path_fits)
    (crlf ++ (req.headers ++ read))
  have text : req.head ++ read = req.line ++ (crlf ++ (req.headers ++ read)) := by
    rw [head, List.append_assoc, List.append_assoc]
  rw [← text] at scanned
  obtain ⟨found, same, rfl, agent, body⟩ := requestFrom_some scanned
    (by rw [length]; exact req.body_fits)
    (by rw [length]; exact Nat.le_refl req.body.length)
  rw [userAgentOf_head plain] at agent
  rw [length, Int.toNat_natCast, List.take_length] at body
  rw [same]
  obtain ⟨⟨_, _, _, _⟩, _, _, _, _⟩ := found
  obtain ⟨⟨_, _, _, _⟩, _, _, _, _⟩ := req
  cases method
  cases path
  cases agent
  cases body
  rfl

end Request

/-! What is read. -/

/-- A token of a text is in the text. -/
theorem token_of_scanString (scanned : scanString width text = some (token, rest)) :
    IsToken token ∧ token ⊆ text ∧ rest ⊆ text := by
  obtain ⟨⟨blanks, rfl, -⟩, nonempty, visible, -, -⟩ := (scanString_eq_some_iff _ _ _ _).mp scanned
  refine ⟨⟨nonempty, visible⟩, fun b member => ?_, fun b member => ?_⟩
  · exact List.mem_append_right _ (List.mem_append_left _ member)
  · exact List.mem_append_right _ (List.mem_append_right _ member)

theorem strstr_oneLine (found : strstr text crlf = some (line, rest)) : OneLine 13 10 line := by
  rintro ⟨before, after, rfl⟩
  have bound := (find_id_some found).2 before.length (by
    rw [strstr_split found, List.append_assoc, List.append_assoc, List.drop_left]
    exact List.prefix_append crlf _)
  simp at bound

/-- The value of User-Agent is the rest of a line. -/
theorem userAgentOf_spec (text : Bytes) :
    userAgentOf text ⊆ text ∧ OneLine 13 10 (userAgentOf text) ∧
      (userAgentOf text).head? ≠ some ' '.toUInt8 := by
  have nothing : ([] : Bytes) ⊆ text ∧ OneLine 13 10 ([] : Bytes) ∧
      ([] : Bytes).head? ≠ some ' '.toUInt8 :=
    ⟨List.nil_subset _, oneLine_of_not_mem List.not_mem_nil, nofun⟩
  rw [userAgentOf]
  split
  · exact nothing
  · next before ua header =>
    split
    · exact nothing
    · next value rest found =>
      obtain ⟨⟨here, split, -⟩, -⟩ := (find_eq_some_iff _ _ _ _ _).mp header
      have taken := List.take_prefix (maxUaBytes - 1) value
      have behind := strstr_split found
      have source : ua.dropWhile (· = ' '.toUInt8) <:+ ua := List.dropWhile_suffix _
      refine ⟨fun b member => ?_, OneLine.left (strstr_oneLine found) taken, fun blank => ?_⟩
      · rw [split]
        refine List.mem_append_right _ (List.mem_append_right _ (source.subset ?_))
        rw [behind]
        exact List.mem_append_left _ (taken.subset member)
      · have first := List.head?_dropWhile_not (· = ' '.toUInt8) ua
        obtain ⟨more, whole⟩ := taken
        rw [behind, ← whole] at first
        cases agent : value.take (maxUaBytes - 1) with
        | nil => cases (congrArg List.head? agent).symm.trans blank
        | cons c cs =>
          rw [agent] at first blank
          cases blank
          simp at first

theorem plain_of_readRequest (request : readRequest chunks = some req) : req.Plain := by
  obtain ⟨head, later, before, after, -, -, found⟩ := (readRequest_iff chunks req).mp request
  obtain ⟨scanned, agent, -⟩ := requestFrom_inv found
  obtain ⟨rest, behind, first, second⟩ := (scanRequestLine_eq_some_iff _ _).mp scanned
  obtain ⟨method, methodText, restText⟩ := token_of_scanString first
  obtain ⟨path, pathText, -⟩ := token_of_scanString second
  obtain ⟨agentText, line, start⟩ := userAgentOf_spec (cstr head)
  have plain : 0 ∉ cstr head := not_mem_cstr head
  rw [← agent] at agentText line start
  exact ⟨method, path, fun null => plain (methodText null),
    fun null => plain (restText (pathText null)), fun null => plain (agentText null), line, start⟩

/-- A request that a client writes is read as it was meant, however its bytes arrive. -/
theorem readRequest_print (plain : req.Plain) (chunks : List Chunk)
    (written : received chunks = req.print) : readRequest chunks = some req := by
  have heads : headBytes (received chunks) =
      req.head ++ cstr (req.body.take (maxHeaderBytes - req.head.length)) := by
    rw [written, Request.print, headBytes, List.take_append,
      List.take_of_length_le req.head_length_le, cstr_append _ _ (Request.head_plain plain)]
  obtain ⟨before, whole, found⟩ := Request.strstr_head plain
    (cstr (req.body.take (maxHeaderBytes - req.head.length)))
  rw [← heads] at found
  obtain ⟨_, _, read, _, -, -, -, ran⟩ := readRequest_some chunks found
  have behind : (received chunks).drop (before.length + 4) = req.body := by
    have four : blankLine.length = 4 := rfl
    rw [written, Request.print, ← whole, ← four, ← List.length_append, List.drop_left]
  rw [ran, whole, behind, Request.requestFrom_head plain]

/-- The requests that `read_request` returns are those that a client can write, and each of
them is read back from what the client writes, however its bytes arrive. -/
theorem readRequest_range (req : Request) :
    ((∃ chunks, readRequest chunks = some req) ↔ req.Plain) ∧
      (req.Plain ↔ ∀ chunks, received chunks = req.print → readRequest chunks = some req) := by
  have nonempty : req.print ≠ [] := by simp [Request.print, Request.head, Request.line]
  have whole : received [⟨req.print, nonempty⟩] = req.print := List.append_nil _
  refine ⟨⟨?_, fun plain => ⟨_, readRequest_print plain _ whole⟩⟩, readRequest_print,
    fun same => plain_of_readRequest (same _ whole)⟩
  rintro ⟨chunks, request⟩
  exact plain_of_readRequest request

end SelfDb.Server
