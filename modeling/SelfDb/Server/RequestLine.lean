import SelfDb.Server.Segmentation

/-! The request line that `read_request` accepts, against METHOD SP PATH SP VERSION. -/
namespace SelfDb.Server
open CString Scanning

structure IsToken (token : Bytes) : Prop where
  nonempty : token ≠ []
  visible : ∀ b ∈ token, isspace b = false

theorem isToken_of_all (nonempty : token ≠ []) (all : token.all (!isspace ·) = true) :
    IsToken token :=
  ⟨nonempty, fun b member => by simpa using List.all_eq_true.mp all b member⟩

/-- The line is METHOD SP PATH SP VERSION. -/
structure RequestForm (line method path : Bytes) : Prop where
  split : ∃ version, line = method ++ ' '.toUInt8 :: path ++ ' '.toUInt8 :: version ∧
    IsToken version
  method : IsToken method
  path : IsToken path

def firstLine (stream : Bytes) : Bytes := ((strstr stream crlf).map Prod.fst).getD stream

/-- There is a blank line, two tokens in what is read up to it, a length that is
allowed, and as many bytes behind the blank line. -/
def Accepted (chunks : List Chunk) : Prop :=
  ∃ head later before after, readHead [] chunks = some (head, later) ∧
    strstr (cstr head) blankLine = some (before, after) ∧ (scanRequestLine (cstr head)).isSome ∧
    (contentLength (cstr head)).toNat ≤ maxBodyBytes ∧
    (contentLength (cstr head)).toNat ≤ ((received chunks).drop (before.length + 4)).length

/-- The head that was read, and what the request is made of. -/
theorem readRequest_iff (chunks : List Chunk) (req : Request) :
    readRequest chunks = some req ↔ ∃ head later before after, readHead [] chunks = some
      (head, later) ∧
      strstr (cstr head) blankLine = some (before, after) ∧
      requestFrom (cstr head) ((received chunks).drop (before.length + 4)) = some req := by
  cases found : strstr (headBytes (received chunks)) blankLine with
  | none =>
    rw [readRequest_none chunks found]
    have unread := (readHead_spec chunks (by decide)
      (show strstr (cstr []) blankLine = none by decide)).1 found
    rw [unread]
    simp
  | some parts =>
    obtain ⟨head, later, read, rest, ran, here, -, same⟩ := readRequest_some chunks found
    rw [List.append_assoc, ← strstr_split here] at same
    rw [same, ran]
    constructor
    · intro request
      exact ⟨head, later, parts.1, read, rfl, here, request⟩
    · rintro ⟨head', later', before', after', ran', here', request⟩
      cases ran'
      cases here.symm.trans here'
      exact request

theorem accepted_iff (chunks : List Chunk) : Accepted chunks ↔
    ∃ req, readRequest chunks = some req := by
  constructor
  · rintro ⟨head, later, before, after, ran, found, scanned, fits, more⟩
    obtain ⟨line, scanned⟩ := Option.isSome_iff_exists.mp scanned
    obtain ⟨req, request, -⟩ := requestFrom_some scanned fits more
    exact ⟨req, (readRequest_iff chunks req).mpr ⟨head, later, before, after, ran, found, request⟩⟩
  · rintro ⟨req, request⟩
    obtain ⟨head, later, before, after, ran, found, request⟩ :=
      (readRequest_iff chunks req).mp request
    obtain ⟨scanned, -, fits, more, -⟩ := requestFrom_inv request
    exact ⟨head, later, before, after, ran, found, by rw [scanned]; rfl, fits, more⟩

/-- The first line is in what is read, and ends there. -/
theorem firstLine_cstr {stream head : Bytes} (front : head <+: stream)
    (found : strstr (cstr head) blankLine = some (before, after)) :
    ∃ rest, cstr head = firstLine stream ++ (crlf ++ rest) := by
  have text : cstr head = before ++ (crlf ++ (crlf ++ after)) := by
    rw [strstr_split found]
    rfl
  obtain ⟨line, rest, first, -⟩ := find_of_occurs (occurs_id_iff.mpr text)
  obtain ⟨more, longer⟩ := (List.takeWhile_prefix _).trans front
  have whole : strstr stream crlf = some (line, rest ++ more) := longer ▸ find_append first more
  refine ⟨rest, ?_⟩
  rw [firstLine, whole]
  exact strstr_split first

theorem scanString_token {token rest : Bytes} (isToken : IsToken token)
    (fits : token.length ≤ width) (blanks : Bytes) (blank : ∀ b ∈ blanks, isspace b = true) :
    scanString width (blanks ++ (token ++ ' '.toUInt8 :: rest)) = some
      (token, ' '.toUInt8 :: rest) := by
  refine (scanString_eq_some_iff _ _ _ _).mpr
    ⟨⟨blanks, rfl, blank⟩, isToken.nonempty, isToken.visible, fits, fun _ b first => ?_⟩
  cases first
  decide

/-- A line of the form is scanned as it is meant, if its tokens fit. -/
theorem scanRequestLine_form (form : RequestForm line method path) (methodFits : method.length ≤ 7)
    (pathFits : path.length ≤ 511) (rest : Bytes) :
    ∃ found, scanRequestLine (line ++ rest) = some found ∧ found.method = method ∧
      found.path = path := by
  obtain ⟨version, rfl, -⟩ := form.split
  have first : scanString 7
      ([] ++ (method ++ ' '.toUInt8 :: (path ++ ' '.toUInt8 :: (version ++ rest)))) =
      some (method, ' '.toUInt8 :: (path ++ ' '.toUInt8 :: (version ++ rest))) :=
    scanString_token form.method methodFits [] (by simp)
  have second : scanString 511 ([' '.toUInt8] ++ (path ++ ' '.toUInt8 :: (version ++ rest))) =
      some (path, ' '.toUInt8 :: (version ++ rest)) :=
    scanString_token form.path pathFits [' '.toUInt8] (List.forall_mem_singleton.mpr (by decide))
  refine ⟨⟨method, path, Nat.lt_succ_of_le methodFits, Nat.lt_succ_of_le pathFits⟩,
    (scanRequestLine_eq_some_iff _ _).mpr ⟨_, _, ?_, second⟩, rfl, rfl⟩
  refine (congrArg (scanString 7) ?_).trans first
  simp

/-- The method and the path are the two tokens of the first line, exactly if an accepted
request has such a line and the tokens fit. -/
theorem readRequest_line_iff (chunks : List Chunk) :
    (∀ req, readRequest chunks = some req →
      RequestForm (firstLine (received chunks)) req.method req.path) ↔
      (Accepted chunks → ∃ method path, RequestForm (firstLine (received chunks)) method path ∧
        method.length ≤ 7 ∧ path.length ≤ 511) := by
  rw [accepted_iff]
  constructor
  · rintro exact_ ⟨req, request⟩
    exact ⟨req.method, req.path, exact_ req request, Nat.le_of_lt_succ req.method_fits,
      Nat.le_of_lt_succ req.path_fits⟩
  · intro formed req request
    obtain ⟨method, path, form, methodFits, pathFits⟩ := formed ⟨req, request⟩
    obtain ⟨head, later, before, after, ran, found, from_⟩ :=
      (readRequest_iff chunks req).mp request
    have whole := readHead_received ran
    rw [List.nil_append] at whole
    have front : head <+: received chunks := whole ▸ List.prefix_append _ _
    obtain ⟨rest, text⟩ := firstLine_cstr front found
    obtain ⟨line, scanned, rfl, rfl⟩ := scanRequestLine_form form methodFits pathFits (crlf ++ rest)
    rw [text] at from_
    have same := (requestFrom_inv from_).1
    rw [scanned] at same
    cases Option.some.inj same
    exact form

/-- A method of nine characters is cut in two. -/
theorem readRequest_splits_method : ∃ chunks,
    received chunks = literal "PROPPATCH /p HTTP/1.1\r\n\r\n" ∧
    (readRequest chunks).map (fun req => (req.method, req.path)) = some
    (literal "PROPPAT", literal "CH") ∧
    RequestForm (firstLine (received chunks)) (literal "PROPPATCH") (literal "/p") ∧
    ¬ ∀ req, readRequest chunks = some req →
      RequestForm (firstLine (received chunks)) req.method req.path := by
  have line : firstLine (literal "PROPPATCH /p HTTP/1.1\r\n\r\n") =
      literal "PROPPATCH /p HTTP/1.1" := by decide +kernel
  refine ⟨[⟨literal "PROPPATCH /p HTTP/1.1\r\n\r\n", by decide⟩], by decide, by decide +kernel, ?_,
    fun exact_ => ?_⟩
  · change RequestForm (firstLine (literal "PROPPATCH /p HTTP/1.1\r\n\r\n")) _ _
    rw [line]
    exact ⟨⟨literal "HTTP/1.1", by decide, isToken_of_all (by decide) (by decide)⟩,
      isToken_of_all (by decide) (by decide), isToken_of_all (by decide) (by decide)⟩
  · have ran : (readRequest [⟨literal "PROPPATCH /p HTTP/1.1\r\n\r\n", by decide⟩]).map
      (fun req => req.method) =
        some (literal "PROPPAT") := by decide +kernel
    obtain ⟨req, request, method⟩ := Option.map_eq_some_iff.mp ran
    obtain ⟨version, split, -⟩ := (exact_ req request).split
    have front := congrArg (List.take 8) split
    rw [method] at front
    have cut : literal "PROPPATC" = literal "PROPPAT " :=
    (congrArg (List.take 8) line).symm.trans front
    exact absurd cut (by decide)

end SelfDb.Server
