import SelfDb.Elf
import SelfDb.Scanning.CString

/-! `read_request` of `examples/server/server.c`. -/
namespace SelfDb.Server
open CString

def maxHeaderBytes : Nat := 16384

def maxBodyBytes : Nat := 4096

def maxPathBytes : Nat := 512

def maxUaBytes : Nat := 256

/-- The request line, as two C strings. -/
structure RequestLine where
  method : Bytes
  path : Bytes
  method_fits : method.length < 8
  path_fits : path.length < maxPathBytes

/-- `struct request`; the body is the first `body_len` bytes of the field. -/
structure Request extends RequestLine where
  userAgent : Bytes
  body : Bytes
  userAgent_fits : userAgent.length < maxUaBytes
  body_fits : body.length ≤ maxBodyBytes

/-! The socket. -/

/-- Bytes that arrive together. -/
abbrev Chunk := { bytes : Bytes // bytes ≠ [] }

def received (chunks : List Chunk) : Bytes := chunks.flatMap Subtype.val

/-- What a `read` leaves for the next one. -/
def leave (left : Bytes) (later : List Chunk) : List Chunk :=
  if nonempty : left ≠ [] then ⟨left, nonempty⟩ :: later else later

def crlf : Bytes := literal "\r\n"

def blankLine : Bytes := literal "\r\n\r\n"

/-- The loop that fills `head`, up to the `read` that brings a blank line. -/
def readHead (head : Bytes) : List Chunk → Option (Bytes × List Chunk)
  | [] => none
  | chunk :: later =>
    let room := maxHeaderBytes - head.length
    let head := head ++ chunk.val.take room
    if (strstr (cstr head) blankLine).isSome then some (head, leave (chunk.val.drop room) later)
    -- Here the chunk was read whole.
    else if head.length < maxHeaderBytes then readHead head later
    else none

/-- The loop that fills `req->body`. -/
def readBody (length : Nat) (body : Bytes) : List Chunk → Option Bytes
  | [] => if body.length < length then none else some body
  | chunk :: later =>
    if body.length < length then readBody length
      (body ++ chunk.val.take (length - body.length)) later
    else some body

/-! The head. -/

/-- `sscanf(head, "%7s %511s", ...) == 2` -/
def scanRequestLine (text : Bytes) : Option RequestLine :=
  match first : scanString 7 text with
  | none => none
  | some (method, rest) =>
    match second : scanString 511 rest with
    | none => none
    | some (path, _) => some {
        method
        path
        method_fits := Nat.lt_succ_of_le ((scanString_eq_some_iff _ _ _ _).mp first).fits
        path_fits := Nat.lt_succ_of_le ((scanString_eq_some_iff _ _ _ _).mp second).fits }

/-- User-Agent, if the client sent one. -/
def userAgentOf (text : Bytes) : Bytes :=
  match strcasestr text (literal "\r\nUser-Agent:") with
  | none => []
  | some (_, ua) =>
    match strstr (ua.dropWhile (· = ' '.toUInt8)) crlf with
    | none => []
    | some (value, _) => value.take (maxUaBytes - 1)

def contentLength (text : Bytes) : Int :=
  match strcasestr text (literal "\r\nContent-Length:") with
  | none => 0
  | some (_, cl) => strtol cl

theorem userAgentOf_fits (text : Bytes) : (userAgentOf text).length < maxUaBytes := by
  rw [userAgentOf]
  split
  · decide
  · split
    · decide
    · exact Nat.lt_of_le_of_lt (List.length_take_le _ _) (by decide)

theorem readBody_length {body : Bytes} {chunks : List Chunk}
    (read : readBody length body chunks = some result)
    (fits : body.length ≤ length) : result.length = length := by
  induction chunks generalizing body with
  | nil =>
    rw [readBody] at read
    split at read
    · cases read
    · cases read
      omega
  | cons chunk later ih =>
    rw [readBody] at read
    split at read
    · refine ih read ?_
      rw [List.length_append, List.length_take]
      omega
    · cases read
      omega

/-- `read_request`; `none` is -1. -/
def readRequest (chunks : List Chunk) : Option Request :=
  match readHead [] chunks with
  | none => none
  | some (head, later) =>
    let text := cstr head
    match strstr text blankLine, scanRequestLine text with
    | some (before, _), some line =>
      let bare : Request := { line with
        userAgent := userAgentOf text
        body := []
        userAgent_fits := userAgentOf_fits text
        body_fits := Nat.zero_le _ }
      if contentLength text ≤ 0 then some bare
      else if fits : contentLength text > maxBodyBytes then none
      else
        let length := (contentLength text).toNat
        let already := (head.drop (before.length + 4)).take length
        match read : readBody length already later with
        | none => none
        | some body => some { bare with
            body
            body_fits := by
              rw [readBody_length read (List.length_take_le _ _)]
              omega }
    | _, _ => none

end SelfDb.Server
