import SelfDb.Server.Request

/-! How a request depends on the way its bytes arrive. -/
namespace SelfDb.Server
open CString Scanning

/-- The request whose head is read as `text` and whose blank line `stream` follows. -/
def requestFrom (text stream : Bytes) : Option Request :=
  (scanRequestLine text).bind fun line =>
    let length := (contentLength text).toNat
    if fits : length ≤ maxBodyBytes then
      if length ≤ stream.length then some { line with
        userAgent := userAgentOf text
        body := stream.take length
        userAgent_fits := userAgentOf_fits text
        body_fits := (List.length_take_le _ _).trans fits }
      else none
    else none

/-- The bytes in which the blank line is looked for. -/
def headBytes (stream : Bytes) : Bytes := cstr (stream.take maxHeaderBytes)

/-- The request that a stream is: its head ends at the first blank line. -/
def requestOf (stream : Bytes) : Option Request :=
  (strstr (headBytes stream) blankLine).bind fun parts =>
    requestFrom (parts.1 ++ blankLine) (stream.drop (parts.1.length + 4))

/-- The bytes behind the first blank line that `head` may hold change nothing. -/
structure BodyInert (text after : Bytes) (stream : Bytes) : Prop where
  line : scanRequestLine text = none → scanRequestLine (text ++ after) = none
  headers : (scanRequestLine text).isSome → (contentLength text).toNat ≤ maxBodyBytes →
    (contentLength text).toNat ≤ stream.length →
    userAgentOf (text ++ after) = userAgentOf text ∧
      (contentLength (text ++ after)).toNat = (contentLength text).toNat

def Inert (stream : Bytes) : Prop :=
  ∀ before after, strstr (headBytes stream) blankLine = some (before, after) →
    BodyInert (before ++ blankLine) after (stream.drop (before.length + 4))

/-! Reading. -/

theorem received_cons (chunk : Chunk) (later : List Chunk) :
    received (chunk :: later) = chunk.val ++ received later :=
  List.flatMap_cons

theorem received_leave (left : Bytes) (later : List Chunk) :
    received (leave left later) = left ++ received later := by
  rw [leave]
  split
  · exact received_cons _ later
  · next empty =>
    rw [not_not] at empty
    rw [empty, List.nil_append]

theorem readBody_eq (length : Nat) (body : Bytes) (chunks : List Chunk)
    (fits : body.length ≤ length) :
    readBody length body chunks =
      if length ≤ (body ++ received chunks).length then some ((body ++ received chunks).take length)
        else none := by
  induction chunks generalizing body with
  | nil =>
    rw [readBody, received, List.flatMap_nil, List.append_nil]
    by_cases short : body.length < length
    · rw [if_pos short, if_neg (by omega)]
    · rw [if_neg short, if_pos (by omega), List.take_of_length_le fits]
  | cons chunk later ih =>
    rw [readBody, received_cons]
    by_cases short : body.length < length
    · have taken : (body ++ chunk.val.take (length - body.length)).length ≤ length := by
        rw [List.length_append, List.length_take]
        omega
      rw [if_pos short, ih _ taken]
      by_cases whole : chunk.val.length ≤ length - body.length
      · rw [List.take_of_length_le whole, List.append_assoc]
      · have full : (body ++ chunk.val.take (length - body.length)).length = length := by
          rw [List.length_append, List.length_take]
          omega
        have front : (body ++ (chunk.val ++ received later)).take length =
            body ++ chunk.val.take (length - body.length) := by
          rw [List.take_append, List.take_of_length_le fits,
            List.take_append_of_le_length (by omega)]
        rw [front, if_pos (by rw [List.length_append]; omega),
          if_pos (by simp only [List.length_append]; omega), List.take_append_of_le_length full.ge,
          List.take_of_length_le full.le]
    · rw [if_neg short, if_pos (by rw [List.length_append]; omega),
        List.take_append_of_le_length (by omega), List.take_of_length_le fits]

theorem strstr_split (found : strstr text pat = some (before, after)) :
    text = before ++ (pat ++ after) :=
  occurs_id_iff.mp ((find_eq_some_iff _ _ _ _ _).mp found).1

/-- More bytes in the buffer do not change where the first occurrence is. -/
theorem strstr_cstr_append (found : strstr (cstr front) pat = some (before, after)) (back : Bytes) :
    ∃ more, strstr (cstr (front ++ back)) pat = some (before, after ++ more) := by
  obtain ⟨more, longer⟩ := cstr_prefix front back
  exact ⟨more, by rw [← longer]; exact find_append found more⟩

/-- A `read` takes a part of a chunk and leaves the rest. -/
theorem received_chunk (head : Bytes) (chunk : Chunk) (later : List Chunk) (room : Nat) :
    head ++ received (chunk :: later) =
      head ++ chunk.val.take room ++ received (leave (chunk.val.drop room) later) := by
  rw [received_leave, received_cons, List.append_assoc, ← List.append_assoc (chunk.val.take _),
    List.take_append_drop]

/-- No byte is lost or read twice. -/
theorem readHead_received {head : Bytes} {chunks : List Chunk}
    (ran : readHead head chunks = some (whole, later)) :
    head ++ received chunks = whole ++ received later := by
  induction chunks generalizing head with
  | nil => cases ran
  | cons chunk rest ih =>
    rw [readHead] at ran
    split at ran
    · cases ran
      exact received_chunk _ _ _ _
    · split at ran
      · next left =>
        rw [List.length_append, List.length_take] at left
        rw [List.take_of_length_le (by omega)] at ran
        rw [received_cons, ← List.append_assoc]
        exact ih ran
      · cases ran

/-- The loop stops at a part of the stream, in which the first blank line is the one of the
whole. -/
theorem readHead_spec {head : Bytes} (chunks : List Chunk) (room : head.length < maxHeaderBytes)
    (unfinished : strstr (cstr head) blankLine = none) :
    (strstr (headBytes (head ++ received chunks)) blankLine = none → readHead head chunks = none) ∧
    ∀ before after, strstr (headBytes (head ++ received chunks)) blankLine = some (before, after) →
      ∃ whole later read rest, readHead head chunks = some (whole, later) ∧ after = read ++ rest ∧
        strstr (cstr whole) blankLine = some (before, read) := by
  induction chunks generalizing head with
  | nil =>
    refine ⟨fun _ => rfl, fun before after found => ?_⟩
    rw [received, List.flatMap_nil, List.append_nil, headBytes, List.take_of_length_le room.le,
      unfinished] at found
    cases found
  | cons chunk later ih =>
    have split := received_chunk head chunk later (maxHeaderBytes - head.length)
    have length : (head ++ chunk.val.take (maxHeaderBytes - head.length)).length ≤
        maxHeaderBytes := by
      rw [List.length_append, List.length_take]
      omega
    rw [readHead]
    cases here : strstr (cstr (head ++ chunk.val.take (maxHeaderBytes - head.length)))
      blankLine with
    | some parts =>
      obtain ⟨more, found⟩ := strstr_cstr_append here
        ((received (leave (chunk.val.drop (maxHeaderBytes - head.length)) later)).take
          (maxHeaderBytes - (head ++ chunk.val.take (maxHeaderBytes - head.length)).length))
      have whole : strstr (headBytes (head ++ received (chunk :: later))) blankLine =
          some (parts.1, parts.2 ++ more) := by
        rw [split, headBytes, List.take_append, List.take_of_length_le length]
        exact found
      rw [whole]
      refine ⟨nofun, fun before after same => ?_⟩
      cases same
      exact ⟨_, _, parts.2, more, rfl, rfl, here⟩
    | none =>
      by_cases left : (head ++ chunk.val.take (maxHeaderBytes - head.length)).length <
        maxHeaderBytes
      · have taken : chunk.val.take (maxHeaderBytes - head.length) = chunk.val := by
          rw [List.length_append, List.length_take] at left
          exact List.take_of_length_le (by omega)
        rw [taken] at here left
        have further := ih left here
        rw [List.append_assoc, ← received_cons] at further
        rw [taken, Option.isSome_none, if_neg Bool.false_ne_true, if_pos left]
        exact further
      · have full : headBytes (head ++ received (chunk :: later)) =
            cstr (head ++ chunk.val.take (maxHeaderBytes - head.length)) := by
          rw [split, headBytes, List.take_append_of_le_length (Nat.le_of_not_lt left),
            List.take_of_length_le length]
        rw [full, here, Option.isSome_none, if_neg Bool.false_ne_true, if_neg left]
        exact ⟨fun _ => rfl, nofun⟩

theorem le_length_take_append (n : Nat) (front back : Bytes) :
    n ≤ (front.take n ++ back).length ↔ n ≤ (front ++ back).length := by
  rw [List.length_append, List.length_append, List.length_take]
  omega

theorem take_take_append (n : Nat) (front back : Bytes) :
    (front.take n ++ back).take n = (front ++ back).take n := by
  rw [List.take_append, List.take_append, List.take_take, Nat.min_self, List.length_take]
  by_cases short : n ≤ front.length
  · rw [Nat.sub_eq_zero_of_le short, Nat.min_eq_left short, Nat.sub_self]
  · rw [Nat.min_eq_right (by omega)]

/-- The body comes from behind the blank line, wherever the head ended. -/
theorem readRequest_of_head (ran : readHead [] chunks = some (head, later))
    (found : strstr (cstr head) blankLine = some (before, after)) :
    readRequest chunks = requestFrom (cstr head) ((received chunks).drop (before.length + 4)) := by
  have whole : received chunks = head ++ received later := readHead_received ran
  have inside : before.length + 4 ≤ head.length := by
    have length := congrArg List.length (strstr_split found)
    have shorter : (cstr head).length ≤ head.length := (List.takeWhile_prefix _).length_le
    rw [List.length_append, List.length_append, show blankLine.length = 4 from rfl] at length
    omega
  have stream : (received chunks).drop (before.length + 4) =
      head.drop (before.length + 4) ++ received later := by
    rw [whole, List.drop_append_of_le_length inside]
  rw [stream, readRequest, ran]
  simp only [found, requestFrom]
  cases line : scanRequestLine (cstr head) with
  | none => rfl
  | some line =>
    simp only [Option.bind_some]
    split
    · next nonpositive =>
      have zero : (contentLength (cstr head)).toNat = 0 := Int.toNat_of_nonpos nonpositive
      simp [zero]
    · next positive =>
      split
      · next large =>
        rw [dif_neg (by omega)]
      · next fits =>
        rw [dif_pos (by omega)]
        have enough := le_length_take_append (contentLength (cstr head)).toNat
          (head.drop (before.length + 4))
          (received later)
        split
        · next short =>
          rw [readBody_eq _ _ _ (List.length_take_le _ _)] at short
          split at short
          · cases short
          · next less => rw [if_neg fun more => less (enough.mpr more)]
        · next body filled =>
          rw [readBody_eq _ _ _ (List.length_take_le _ _)] at filled
          split at filled
          · next more =>
            cases filled
            rw [if_pos (enough.mp more)]
            simp only [take_take_append]
          · cases filled

theorem headBytes_prefix (stream : Bytes) : headBytes stream <+: stream :=
  (List.takeWhile_prefix _).trans (List.take_prefix _ _)

theorem headBytes_length (stream : Bytes) : (headBytes stream).length ≤ maxHeaderBytes :=
  (List.takeWhile_prefix _).length_le.trans (List.length_take_le _ _)

theorem readRequest_none (chunks : List Chunk)
    (absent : strstr (headBytes (received chunks)) blankLine = none) :
    readRequest chunks = none := by
  have start : strstr (cstr []) blankLine = none := by decide
  rw [readRequest, (readHead_spec chunks (by decide) start).1 absent]

/-- The head that is read holds the blank line, and bytes behind it as they happen to arrive. -/
theorem readRequest_some (chunks : List Chunk)
    (found : strstr (headBytes (received chunks)) blankLine = some (before, after)) :
    ∃ head later read rest, readHead [] chunks = some (head, later) ∧
      strstr (cstr head) blankLine = some (before, read) ∧ after = read ++ rest ∧
      readRequest chunks = requestFrom (before ++ blankLine ++ read)
        ((received chunks).drop (before.length + 4)) := by
  have start : strstr (cstr []) blankLine = none := by decide
  obtain ⟨head, later, read, rest, ran, split, here⟩ :=
    (readHead_spec chunks (by decide) start).2 before after found
  have text : cstr head = before ++ blankLine ++ read := by
    rw [strstr_split here, List.append_assoc]
  exact ⟨head, later, read, rest, ran, here, split, text ▸ readRequest_of_head ran here⟩

/-- Any number of the bytes behind the blank line can arrive with it. -/
theorem exists_readRequest {stream read : Bytes}
    (found : strstr (headBytes stream) blankLine = some (before, read ++ rest)) :
    ∃ chunks, received chunks = stream ∧
      readRequest chunks = requestFrom (before ++ blankLine ++ read)
        (stream.drop (before.length + 4)) := by
  obtain ⟨tail, whole⟩ := headBytes_prefix stream
  have split := strstr_split found
  rw [← List.append_assoc, ← List.append_assoc] at split
  generalize first_eq : before ++ blankLine ++ read = first at split
  have nonempty : first ≠ [] := by
    rw [← first_eq, List.append_assoc]
    simp [blankLine, literal]
  have fits : first.length ≤ maxHeaderBytes := by
    have length := headBytes_length stream
    rw [split, List.length_append] at length
    omega
  have plain : cstr first = first := by
    refine cstr_plain fun null => not_mem_cstr (stream.take maxHeaderBytes) ?_
    rw [show cstr (stream.take maxHeaderBytes) = first ++ rest from split]
    exact List.mem_append_left _ null
  have here : strstr (cstr first) blankLine = some (before, read) := by
    have inside : before.length + blankLine.length ≤ first.length := by
      rw [← first_eq, List.length_append, List.length_append]
      omega
    rw [split] at found
    obtain ⟨kept, same, here⟩ := find_of_append found inside
    rw [plain, List.append_cancel_right same]
    exact here
  have joined : stream = first ++ received (leave (rest ++ tail) []) := by
    rw [received_leave, received, List.flatMap_nil, List.append_nil, ← List.append_assoc, ← split,
      whole]
  have ran : readHead [] (⟨first, nonempty⟩ :: leave (rest ++ tail) []) =
      some (first, leave (rest ++ tail) []) := by
    rw [readHead]
    simp only [List.nil_append, List.length_nil, Nat.sub_zero, List.take_of_length_le fits,
      List.drop_eq_nil_of_le fits, here, Option.isSome_some, if_true]
    rfl
  have bytes : received (⟨first, nonempty⟩ :: leave (rest ++ tail) []) = stream := by
    rw [received_cons, joined]
  refine ⟨_, bytes, ?_⟩
  rw [readRequest_of_head ran here, plain, bytes]

/-! The searches, when more bytes are in the buffer. -/

theorem scanRequestLine_eq_some_iff (text : Bytes) (line : RequestLine) :
    scanRequestLine text = some line ↔
      ∃ rest after, scanString 7 text = some (line.method, rest) ∧
        scanString 511 rest = some (line.path, after) := by
  rw [scanRequestLine]
  split
  · next first => simp [first]
  · next method rest first =>
    split
    · next second => simp [first, second]
    · next path after second =>
      constructor
      · intro same
        cases same
        exact ⟨rest, after, first, second⟩
      · rintro ⟨rest', after', same, scanned⟩
        obtain ⟨rfl, rfl⟩ := Prod.mk.inj (Option.some.inj (first.symm.trans same))
        obtain ⟨rfl, -⟩ := Prod.mk.inj (Option.some.inj (second.symm.trans scanned))
        rfl

theorem scanRequestLine_eq_none_iff (text : Bytes) :
    scanRequestLine text = none ↔
      ∀ method rest, scanString 7 text = some (method, rest) → scanString 511 rest = none := by
  rw [scanRequestLine]
  split
  · next first => simp [first]
  · next method rest first =>
    split
    · next second => simp [first, second]
    · next path after second =>
      refine iff_of_false (Option.some_ne_none _) fun absent => ?_
      rw [absent method rest first] at second
      cases second

/-- A value that is complete stays; one that is not is empty. -/
theorem userAgentOf_append (text more : Bytes) :
    userAgentOf text = [] ∨ userAgentOf (text ++ more) = userAgentOf text := by
  rw [userAgentOf, userAgentOf]
  cases found : strcasestr text (literal "\r\nUser-Agent:") with
  | none => exact .inl rfl
  | some parts =>
    have longer : strcasestr (text ++ more) (literal "\r\nUser-Agent:") =
        some (parts.1, parts.2 ++ more) :=
      find_append found more
    rw [longer]
    cases ended : strstr (parts.2.dropWhile (· = ' '.toUInt8)) crlf with
    | none => exact .inl (by simp only [ended])
    | some value =>
      have nonempty : (parts.2.dropWhile (· = ' '.toUInt8)).isEmpty = false := by
        cases start : parts.2.dropWhile (· = ' '.toUInt8) with
        | nil =>
          rw [start, show strstr [] crlf = none by decide] at ended
          cases ended
        | cons b rest => rfl
      have further := find_append ended more
      have kept : (parts.2 ++ more).dropWhile (· = ' '.toUInt8) =
          parts.2.dropWhile (· = ' '.toUInt8) ++ more := by
        rw [List.dropWhile_append, nonempty]
        rfl
      refine .inr ?_
      simp only [ended, kept]
      rw [strstr, further]

theorem contentLength_append_le (text more : Bytes) :
    (contentLength text).toNat ≤ (contentLength (text ++ more)).toNat := by
  rw [contentLength, contentLength]
  cases found : strcasestr text (literal "\r\nContent-Length:") with
  | none => exact Nat.zero_le _
  | some parts =>
    have longer : strcasestr (text ++ more) (literal "\r\nContent-Length:") =
        some (parts.1, parts.2 ++ more) :=
      find_append found more
    rw [longer]
    exact strtol_append_le _ _

/-- The request line is complete when a blank follows it. -/
theorem scanRequestLine_append {text : Bytes} (scanned : scanRequestLine (text ++ [b]) = some line)
    (blank : isspace b = true) (more : Bytes) :
    scanRequestLine (text ++ [b] ++ more) = some line := by
  obtain ⟨rest, after, first, second⟩ := (scanRequestLine_eq_some_iff _ _).mp scanned
  have path := (scanString_eq_some_iff _ _ _ _).mp second
  have method := (scanString_eq_some_iff _ _ _ _).mp first
  obtain ⟨blanks, split, -⟩ := method.split
  obtain ⟨blanks', rfl, -⟩ := path.split
  have between : blanks' ++ (line.path ++ after) ≠ [] := by simp [path.nonempty]
  have behind : after ≠ [] := by
    rintro rfl
    have last := congrArg List.getLast? split
    rw [List.getLast?_concat, List.append_nil, ← List.append_assoc, ← List.append_assoc,
      List.getLast?_append_of_ne_nil _ path.nonempty] at last
    have member := List.mem_of_getLast? last.symm
    rw [path.visible b member] at blank
    cases blank
  refine (scanRequestLine_eq_some_iff _ _).mpr
    ⟨_, _, scanString_append first between more, scanString_append second behind more⟩

theorem scanRequestLine_append_ne_none (scanned : scanRequestLine text = some line) (more : Bytes) :
    scanRequestLine (text ++ more) ≠ none := by
  obtain ⟨rest, after, first, second⟩ := (scanRequestLine_eq_some_iff _ _).mp scanned
  have path := (scanString_eq_some_iff _ _ _ _).mp second
  obtain ⟨blanks, rfl, -⟩ := path.split
  have between : blanks ++ (line.path ++ after) ≠ [] := by simp [path.nonempty]
  have longer := scanString_append first between more
  obtain ⟨b, tail, visible⟩ := List.exists_cons_of_ne_nil path.nonempty
  intro none
  have again := (scanRequestLine_eq_none_iff _).mp none _ _ longer
  have blank := (scanString_eq_none_iff (by decide) _).mp again b (by simp [visible])
  rw [path.visible b (by simp [visible])] at blank
  cases blank

/-- Without a second token there are few visible characters. -/
theorem countP_visible_le (none : scanRequestLine text = none) :
    text.countP (fun b => !isspace b) ≤ 7 := by
  rw [scanRequestLine_eq_none_iff] at none
  have blank {bytes : Bytes} (spaces : ∀ b ∈ bytes, isspace b = true) : bytes.countP
      (fun b => !isspace b) = 0 :=
    List.countP_eq_zero.mpr fun b member => by rw [spaces b member]; exact Bool.false_ne_true
  cases first : scanString 7 text with
  | none => rw [blank ((scanString_eq_none_iff (by decide) _).mp first)]; exact Nat.zero_le _
  | some parts =>
    have rest := blank ((scanString_eq_none_iff (by decide) _).mp (none parts.1 parts.2 first))
    have method := (scanString_eq_some_iff _ _ _ _).mp first
    obtain ⟨blanks, rfl, spaces⟩ := method.split
    rw [List.countP_append, List.countP_append, blank spaces, rest, Nat.zero_add, Nat.add_zero]
    exact List.countP_le_length.trans method.fits

theorem isspace_tolower (b : UInt8) : isspace (tolower b) = isspace b := by
  rw [tolower]
  split
  · next upper =>
    have low := UInt8.le_iff_toNat_le.mp upper.1
    have high := UInt8.le_iff_toNat_le.mp upper.2
    change 65 ≤ b.toNat at low
    change b.toNat ≤ 90 at high
    have sum : (b + 32).toNat = b.toNat + 32 := by
      rw [UInt8.toNat_add]
      exact Nat.mod_eq_of_lt (by change b.toNat + 32 < 256; omega)
    rw [Bool.eq_iff_iff]
    simp only [isspace, ← UInt8.toNat_inj, UInt8.le_iff_toNat_le, sum, Bool.or_eq_true,
      Bool.and_eq_true, decide_eq_true_eq, UInt8.toNat_ofNat, Nat.reducePow, Nat.reduceMod]
    omega
  · rfl

/-- One more character does not complete the name of the header. -/
theorem contentLength_eq_zero (none : scanRequestLine text = none) (b : UInt8) :
    contentLength (text ++ [b]) = 0 := by
  rw [contentLength]
  cases found : strcasestr (text ++ [b]) (literal "\r\nContent-Length:") with
  | none => rfl
  | some parts =>
    obtain ⟨⟨here, split, same⟩, -⟩ := (find_eq_some_iff _ _ _ _ _).mp found
    have few := countP_visible_le none
    have visible : here.countP (fun b => !isspace b) = 15 := by
      have count : (here.map tolower).countP (fun b => !isspace b) = 15 := by rw [same]; decide
      rw [List.countP_map] at count
      simpa only [Function.comp_def, isspace_tolower] using count
    have whole := congrArg (List.countP fun b => !isspace b) split
    rw [List.countP_append, List.countP_append, List.countP_append, visible,
      List.countP_singleton] at whole
    split at whole <;> omega

/-- The first byte with which there is a request line. -/
theorem exists_scanRequestLine (absent : scanRequestLine text = none)
    (present : scanRequestLine (text ++ after) ≠ none) :
    ∃ read b rest, after = read ++ b :: rest ∧ scanRequestLine (text ++ read) = none ∧
      scanRequestLine (text ++ read ++ [b]) ≠ none := by
  induction after generalizing text with
  | nil => exact absurd absent (by rwa [List.append_nil] at present)
  | cons b after ih =>
    by_cases here : scanRequestLine (text ++ [b]) = none
    · obtain ⟨read, c, rest, rfl, none, some⟩ := ih here (by rwa [List.append_assoc])
      rw [List.append_assoc text [b] read] at none some
      exact ⟨b :: read, c, rest, rfl, none, some⟩
    · exact ⟨[], b, after, rfl, by rwa [List.append_nil], by rwa [List.append_nil]⟩

/-! The request. -/

theorem requestFrom_none (absent : scanRequestLine text = none) (stream : Bytes) :
    requestFrom text stream = none := by
  rw [requestFrom, absent]
  rfl

/-- A request that is too long, or cut off. -/
theorem requestFrom_refused {text stream : Bytes}
    (refused : ¬ ((contentLength text).toNat ≤ maxBodyBytes ∧
      (contentLength text).toNat ≤ stream.length)) :
    requestFrom text stream = none := by
  rw [requestFrom]
  cases scanRequestLine text with
  | none => rfl
  | some line =>
    simp only [Option.bind_some]
    split
    · next fits =>
      rw [if_neg fun more => refused ⟨fits, more⟩]
    · rfl

theorem requestFrom_some {text stream : Bytes} (scanned : scanRequestLine text = some line)
    (fits : (contentLength text).toNat ≤ maxBodyBytes)
    (more : (contentLength text).toNat ≤ stream.length) :
    ∃ req, requestFrom text stream = some req ∧ req.toRequestLine = line ∧
      req.userAgent = userAgentOf text ∧
      req.body = stream.take (contentLength text).toNat := by
  rw [requestFrom, scanned]
  simp only [Option.bind_some, dif_pos fits, if_pos more]
  exact ⟨_, rfl, rfl, rfl, rfl⟩

theorem requestFrom_inv {text stream : Bytes} (found : requestFrom text stream = some req) :
    scanRequestLine text = some req.toRequestLine ∧ req.userAgent = userAgentOf text ∧
      (contentLength text).toNat ≤ maxBodyBytes ∧ (contentLength text).toNat ≤ stream.length ∧
      req.body = stream.take (contentLength text).toNat := by
  cases scanned : scanRequestLine text with
  | none =>
    rw [requestFrom_none scanned] at found
    cases found
  | some line =>
    by_cases accepted : (contentLength text).toNat ≤ maxBodyBytes ∧
      (contentLength text).toNat ≤ stream.length
    · obtain ⟨req', same, rfl, agent, body⟩ := requestFrom_some scanned accepted.1 accepted.2
      cases same.symm.trans found
      exact ⟨rfl, agent, accepted.1, accepted.2, body⟩
    · rw [requestFrom_refused accepted] at found
      cases found

theorem requestFrom_congr {text other : Bytes} (line : scanRequestLine other = scanRequestLine text)
    (agent : userAgentOf other = userAgentOf text)
    (length : (contentLength other).toNat = (contentLength text).toNat) (stream : Bytes) :
    requestFrom other stream = requestFrom text stream := by
  simp only [requestFrom, line, agent, length]

/-- Some of the bytes behind the blank line change nothing if all of them do not. -/
theorem BodyInert.requestFrom_eq {before read rest : Bytes}
    (inert : BodyInert (before ++ blankLine) (read ++ rest) stream) :
    requestFrom (before ++ blankLine ++ read) stream = requestFrom
      (before ++ blankLine) stream := by
  have last : before ++ blankLine = before ++ literal "\r\n\r" ++ [10] := by
    rw [List.append_assoc]
    rfl
  have agentText := userAgentOf_append (before ++ blankLine) read
  have agentRead := userAgentOf_append (before ++ blankLine ++ read) rest
  have lengthText := contentLength_append_le (before ++ blankLine) read
  have lengthRead := contentLength_append_le (before ++ blankLine ++ read) rest
  have line := inert.line
  have headers := inert.headers
  rw [← List.append_assoc] at line headers
  cases scanned : scanRequestLine (before ++ blankLine) with
  | none =>
    cases further : scanRequestLine (before ++ blankLine ++ read) with
    | none => rw [requestFrom_none scanned, requestFrom_none further]
    | some _ => exact absurd (line scanned) (scanRequestLine_append_ne_none further rest)
  | some found =>
    have same : scanRequestLine (before ++ blankLine ++ read) = some found := by
      rw [last] at scanned ⊢
      exact scanRequestLine_append scanned (by decide) read
    by_cases accepted : (contentLength (before ++ blankLine)).toNat ≤ maxBodyBytes ∧
        (contentLength (before ++ blankLine)).toNat ≤ stream.length
    · obtain ⟨agent, length⟩ := headers (by rw [scanned]; rfl) accepted.1 accepted.2
      refine requestFrom_congr (same.trans scanned.symm) ?_ (by omega) stream
      rcases agentText with none | kept
      · rcases agentRead with none' | kept'
        · rw [none, none']
        · rw [← kept', agent]
      · exact kept
    · rw [requestFrom_refused accepted, requestFrom_refused fun others => accepted (by omega)]

/-- The bytes that are read with the head make no difference. -/
theorem requestFrom_of_segmented {stream read rest : Bytes}
    (segmented : ∀ chunks, received chunks = stream → readRequest chunks = requestOf stream)
    (found : strstr (headBytes stream) blankLine = some (before, read ++ rest)) :
    requestFrom (before ++ blankLine ++ read) (stream.drop (before.length + 4)) =
      requestFrom (before ++ blankLine) (stream.drop (before.length + 4)) := by
  obtain ⟨chunks, bytes, ran⟩ := exists_readRequest found
  rw [← ran, segmented chunks bytes, requestOf, found]
  rfl

theorem inert_of_segmented
    (segmented : ∀ chunks, received chunks = stream → readRequest chunks = requestOf stream) :
    Inert stream := by
  intro before after found
  constructor
  · intro absent
    by_contra present
    obtain ⟨read, b, rest, rfl, none, some⟩ := exists_scanRequestLine absent present
    have zero := contentLength_eq_zero none b
    obtain ⟨line, scanned⟩ := Option.ne_none_iff_exists'.mp some
    have fits : (contentLength (before ++ blankLine ++ read ++ [b])).toNat ≤ maxBodyBytes := by
      rw [zero]
      exact Nat.zero_le _
    have more : (contentLength (before ++ blankLine ++ read ++ [b])).toNat ≤
        (stream.drop (before.length + 4)).length := by
      rw [zero]
      exact Nat.zero_le _
    obtain ⟨req, ran, -⟩ := requestFrom_some scanned fits more
    rw [List.append_cons] at found
    have same := requestFrom_of_segmented segmented found
    rw [← List.append_assoc, ran, requestFrom_none absent] at same
    cases same
  · intro present fits more
    obtain ⟨line, scanned⟩ := Option.isSome_iff_exists.mp present
    obtain ⟨req, ran, -, agent, body⟩ := requestFrom_some scanned fits more
    rw [← List.append_nil after] at found
    have same := requestFrom_of_segmented segmented found
    rw [ran] at same
    obtain ⟨-, agent', -, more', body'⟩ := requestFrom_inv same
    refine ⟨agent'.symm.trans agent, ?_⟩
    have length := congrArg List.length (body'.symm.trans body)
    rwa [List.length_take_of_le more', List.length_take_of_le more] at length

/-- Every way to cut a stream gives the request that it is, exactly if no byte behind the
blank line can be taken for a part of the head. -/
theorem readRequest_segmentation_iff (stream : Bytes) :
    (∀ chunks, received chunks = stream → readRequest chunks = requestOf stream) ↔
    Inert stream := by
  refine ⟨inert_of_segmented, ?_⟩
  rintro inert chunks rfl
  cases found : strstr (headBytes (received chunks)) blankLine with
  | none =>
    rw [readRequest_none chunks found, requestOf, found]
    rfl
  | some parts =>
    obtain ⟨head, later, read, rest, -, -, split, ran⟩ := readRequest_some chunks found
    have whole := inert parts.1 parts.2 found
    rw [split] at whole
    rw [ran, whole.requestFrom_eq, requestOf, found]
    rfl

/-- A body whose bytes are taken for a header if they arrive with the head. -/
theorem readRequest_segmentation_differs : ∃ chunks chunks',
    received chunks = literal "POST / V\r\nContent-Length:14\r\n\r\nUser-Agent:x\r\n" ∧
    received chunks' = received chunks ∧
    (readRequest chunks).map Request.userAgent = some [] ∧
    (readRequest chunks').map Request.userAgent = some (literal "x") := by
  refine ⟨[⟨literal "POST / V\r\nContent-Length:14\r\n\r\n", by decide⟩,
      ⟨literal "User-Agent:x\r\n", by decide⟩],
    [⟨literal "POST / V\r\nContent-Length:14\r\n\r\nUser-Agent:x\r\n", by decide⟩], ?_, ?_, ?_, ?_⟩
  · decide
  · decide
  · decide +kernel
  · decide +kernel

end SelfDb.Server
