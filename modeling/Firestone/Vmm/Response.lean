import Firestone.Lib.Decimal
import Firestone.Lib.Reads
import Firestone.Lib.Utf8
import Firestone.Paths

/-!
# Responses of the VMM

The client reads one response from the API socket of the VMM: a head of at most 16 KiB that ends in an empty line, and as many
bytes of a body as the head says. Both are read in a loop, for the response arrives in pieces.

* `readResponse` — the client; `Endpoint` has the status and the limit that it expects.
* `Accepted` — a stream starts with a response that the endpoint takes.
* `outcomeOf` — what a stream comes to when nothing is read beyond the response.
* `outcome_readResponse` — what the client makes of a stream: bytes after the response count only when they arrived with the
  head.
* `readResponse_exact` — when the pieces make no difference.

The deadline passes only while a read waits: it is one of the ways in which a stream ends.
-/

namespace Firestone.Vmm

open Firestone.Lib

/-! ## Endpoints -/

def maxResponseHeaderBytes : Nat := 16 * 1024
def maxPingBodyBytes : Nat := 64 * 1024
def maxInfoBodyBytes : Nat := 1024 * 1024
def maxCountersBodyBytes : Nat := 64 * 1024
def maxErrorBodyBytes : Nat := 64 * 1024
def ioChunkBytes : Nat := 8 * 1024

inductive Endpoint
  | vmmPing | vmCreate | vmBoot | vmInfo | vmCounters | vmPowerButton | vmShutdown | vmmShutdown | vmResize | vmPause
  | vmResume | vmSnapshot | vmRestore
  deriving DecidableEq, Repr

def Endpoint.expectedStatus : Endpoint → Nat
  | .vmmPing | .vmInfo | .vmCounters | .vmmShutdown => 200
  | .vmCreate | .vmBoot | .vmPowerButton | .vmShutdown | .vmResize | .vmPause | .vmResume | .vmSnapshot | .vmRestore => 204

def Endpoint.successBodyLimit : Endpoint → Nat
  | .vmmPing => maxPingBodyBytes
  | .vmInfo => maxInfoBodyBytes
  | .vmCounters => maxCountersBodyBytes
  | .vmCreate | .vmBoot | .vmPowerButton | .vmShutdown | .vmmShutdown | .vmResize | .vmPause | .vmResume | .vmSnapshot
  | .vmRestore => 0

/-! ## Failures -/

/-- What a read fails with: the deadline, or an error of the system and its text. -/
inductive ReadError
  | deadline | io (source : String)
  deriving DecidableEq, Repr

inductive ClientFailure
  | deadline (phase : String)
  | io (phase source : String)
  | protocol (detail : String)
  | httpResponse (status : Nat) (bodyPreview : String) (detail : Option String) (timedOut : Bool)
  deriving DecidableEq, Repr

def ReadError.failure (phase : String) : ReadError → ClientFailure
  | .deadline => .deadline phase
  | .io source => .io phase source

/-- `ascii::escape_default`. -/
def escapeDefault (byte : UInt8) : List Char :=
  if byte = 0x09 then ['\\', 't'] else if byte = 0x0d then ['\\', 'r'] else if byte = 0x0a then ['\\', 'n']
  else if byte = 0x27 ∨ byte = 0x22 ∨ byte = 0x5c then ['\\', Char.ofNat byte.toNat]
  else if 0x20 ≤ byte ∧ byte ≤ 0x7e then [Char.ofNat byte.toNat]
  else '\\' :: 'x' :: hexByte byte

section Preview

-- `char::escape_debug`, which needs tables of all characters
variable (escapeDebug : Char → List Char)

def escapedBodyPreview (body : Bytes) : String :=
  let bounded := body.take maxErrorBodyBytes
  let preview := match fromUtf8 bounded with
    | some text => text.toList.flatMap escapeDebug
    | none => bounded.flatMap escapeDefault
  String.ofList preview ++ if bounded.length < body.length then "...[truncated]" else ""

def httpResponseFailure (status : Nat) (body : Bytes) (detail : Option String) : ClientFailure :=
  .httpResponse status (escapedBodyPreview escapeDebug body) detail false

def httpResponseTimeout (status : Nat) (body : Bytes) (detail : String) : ClientFailure :=
  .httpResponse status (escapedBodyPreview escapeDebug body) (some detail) true

end Preview

def combineResponseDetail (first : Option String) (detail : String) : String :=
  match first with
  | some first => first ++ "; " ++ detail
  | none => detail

/-! ## The head -/

structure ParsedHead where
  status : Nat
  contentLength : Option Nat
  deriving DecidableEq, Repr

/-- The lines of a head, which end in a carriage return and a line feed. -/
def splitCrlf : List Char → List (List Char)
  | '\r' :: '\n' :: rest => [] :: splitCrlf rest
  | c :: rest =>
    match splitCrlf rest with
    | [] => [[c]]
    | line :: lines => (c :: line) :: lines
  | [] => [[]]

def isAsciiDigits (text : String) : Bool := (bytes text).all isDecimalDigit

def parseStatusLine (line : String) : Except ClientFailure Nat :=
  let malformed := ClientFailure.protocol ("malformed HTTP/1.1 status line " ++ debugQuote line)
  match splitOnce ' ' line with
  | none => .error malformed
  | some (version, fields) =>
    if version ≠ "HTTP/1.1" then .error malformed
    else match splitOnce ' ' fields with
      | none => .error malformed
      | some (code, _) =>
        if code.utf8ByteSize ≠ 3 ∨ isAsciiDigits code = false then .error malformed
        else match parseDecimal (2 ^ 16) (bytes code) with
          | none => .error (.protocol ("malformed HTTP/1.1 status code " ++ debugQuote code))
          | some status =>
            if 100 ≤ status ∧ status ≤ 599 then .ok status
            else .error (.protocol ("HTTP status code " ++ toString status ++ " is out of range"))

def isHeaderNameByte (byte : UInt8) : Bool :=
  isDecimalDigit byte || (0x41 ≤ byte && byte ≤ 0x5a) || (0x61 ≤ byte && byte ≤ 0x7a) ||
    [0x21, 0x23, 0x24, 0x25, 0x26, 0x27, 0x2a, 0x2b, 0x2d, 0x2e, 0x5e, 0x5f, 0x60, 0x7c, 0x7e].contains byte

def isBlank (c : Char) : Bool := c = ' ' || c = '\t'

/-- `trim_matches([' ', '\t'])`. -/
def trimBlanks (text : String) : String :=
  String.ofList ((text.toList.dropWhile isBlank).reverse.dropWhile isBlank).reverse

def isValueControl (byte : UInt8) : Bool := (byte < 0x20 || byte = 0x7f) && byte ≠ 0x09

/-- One header line, with the length that was declared before it. -/
def parseHeaderLine (contentLength : Option Nat) (line : String) : Except ClientFailure (Option Nat) :=
  if line = "" then .error (.protocol "response contains an empty line before the header terminator")
  else if line.toList.head?.any isBlank then .error (.protocol "folded response header lines are not supported")
  else match splitOnce ':' line with
    | none => .error (.protocol ("malformed response header line " ++ debugQuote line))
    | some (name, rawValue) =>
      let value := trimBlanks rawValue
      if name = "" ∨ (bytes name).all isHeaderNameByte = false then
        .error (.protocol ("malformed response header name " ++ debugQuote name))
      else if (bytes value).any isValueControl then
        .error (.protocol ("malformed response header value for " ++ debugQuote name))
      else if eqIgnoreAsciiCase name "transfer-encoding" then
        .error (.protocol "Transfer-Encoding responses are not supported")
      else if eqIgnoreAsciiCase name "content-length" then
        if value = "" ∨ isAsciiDigits value = false then
          .error (.protocol ("malformed Content-Length value " ++ debugQuote value))
        else match parseDecimal (2 ^ 64) (bytes value) with
          | none => .error (.protocol ("Content-Length value " ++ debugQuote value ++ " is out of range"))
          | some parsed =>
            match contentLength with
            | some previous =>
              let qualifier := if previous = parsed then "duplicate" else "conflicting"
              .error (.protocol (qualifier ++ " Content-Length headers (" ++ toString previous ++ " and " ++
                toString parsed ++ ")"))
            | none => .ok (some parsed)
      else .ok contentLength

def parseResponseHead (data : Bytes) : Except ClientFailure ParsedHead :=
  match fromUtf8 data with
  | none => .error (.protocol "response status or headers are not valid UTF-8")
  | some text =>
    match (splitCrlf text.toList).map String.ofList with
    | [] => .error (.protocol "response status line is missing")
    | statusLine :: lines => do
      let status ← parseStatusLine statusLine
      let contentLength ← lines.foldlM parseHeaderLine none
      return ⟨status, contentLength⟩

/-! ## The response -/

structure HttpResponse where
  bytes : Bytes
  bodyStart : Nat
  deriving DecidableEq, Repr

def HttpResponse.body (response : HttpResponse) : Bytes := response.bytes.drop response.bodyStart

/-- The empty line, with the end of the line before it. -/
def headerTerminator : Bytes := [0x0d, 0x0a, 0x0d, 0x0a]

def findHeaderTerminator (data : Bytes) : Option Nat := firstAt headerTerminator data

/-- Where the body starts, or that the head is too long; nothing as long as neither shows. -/
def headerSettled (data : Bytes) : Option (Option Nat) :=
  match findHeaderTerminator data with
  | some offset => if maxResponseHeaderBytes < offset + 4 then some none else some (some (offset + 4))
  | none => if maxResponseHeaderBytes < data.length then some none else none

def headerRoom (data : Bytes) : Nat := min (maxResponseHeaderBytes + 1 - data.length) ioChunkBytes

def bodySettled (bodyStart readLength : Nat) (data : Bytes) : Option Unit :=
  if data.length - bodyStart < readLength then none else some ()

def bodyRoom (bodyStart readLength : Nat) (data : Bytes) : Nat := min (readLength - (data.length - bodyStart)) ioChunkBytes

section Client

variable (escapeDebug : Char → List Char) (endpoint : Endpoint)

/-- The length of the body that a head declares, with the bytes that were read after it. -/
def declaredLength (head : ParsedHead) (buffered : Bytes) : Except ClientFailure Nat :=
  let failure detail := httpResponseFailure escapeDebug head.status buffered (some detail)
  if head.status = 204 then
    if head.contentLength.isSome then .error (failure "HTTP 204 response must not include Content-Length")
    else if buffered.length ≠ 0 then .error (failure "HTTP 204 response includes unexpected body bytes")
    else .ok 0
  else match head.contentLength with
    | some length => .ok length
    | none => .error (failure ("HTTP " ++ toString head.status ++ " response is missing Content-Length"))

def bodyLimit (head : ParsedHead) : Nat :=
  if head.status = endpoint.expectedStatus then endpoint.successBodyLimit else maxErrorBodyBytes

/-- The rest of the work, when the head and perhaps a part of the body are in the buffer. -/
def readBody (head : ParsedHead) (data : Bytes) (bodyStart : Nat) (source : Source ReadError) :
    Except ClientFailure HttpResponse :=
  match declaredLength escapeDebug head (data.drop bodyStart) with
  | .error failure => .error failure
  | .ok bodyLength =>
    let limit := bodyLimit endpoint head
    let tooLarge := "HTTP " ++ toString head.status ++ " response body length " ++ toString bodyLength ++ " exceeds the " ++
      toString limit ++ "-byte limit"
    let oversizedDetail := if limit < bodyLength then some (tooLarge ++ "; body preview truncated") else none
    if limit < bodyLength ∧ head.status = endpoint.expectedStatus then
      .error (httpResponseFailure escapeDebug head.status (data.drop bodyStart) (some tooLarge))
    else if bodyLength < data.length - bodyStart then
      .error (httpResponseFailure escapeDebug head.status (data.drop bodyStart) (some ("HTTP " ++ toString head.status ++
        " response includes " ++ toString (data.length - bodyStart - bodyLength) ++
        " extra body bytes beyond Content-Length")))
    else
      let readLength := min bodyLength limit
      match fill (bodySettled bodyStart readLength) (bodyRoom bodyStart readLength) data source with
      | .failed data .deadline =>
        .error (httpResponseTimeout escapeDebug head.status (data.drop bodyStart) (combineResponseDetail oversizedDetail
          "response body timed out while reading response body"))
      | .failed data (.io error) =>
        .error (httpResponseFailure escapeDebug head.status (data.drop bodyStart) (some (combineResponseDetail
          oversizedDetail ("cannot continue reading response body: " ++ error))))
      | .closed data =>
        .error (httpResponseFailure escapeDebug head.status (data.drop bodyStart) (some (combineResponseDetail
          oversizedDetail ("HTTP " ++ toString head.status ++ " response body ended before Content-Length " ++
            toString bodyLength))))
      | .filled _ data _ =>
        match oversizedDetail with
        | some detail => .error (httpResponseFailure escapeDebug head.status (data.drop bodyStart) (some detail))
        | none =>
          if head.status = endpoint.expectedStatus then .ok ⟨data, bodyStart⟩
          else .error (httpResponseFailure escapeDebug head.status (data.drop bodyStart) none)

def readResponse (source : Source ReadError) : Except ClientFailure HttpResponse :=
  match fill headerSettled headerRoom [] source with
  | .closed _ => .error (.protocol "response ended before the header terminator")
  | .failed _ error => .error (error.failure "reading response headers")
  | .filled none _ _ => .error (.protocol ("response headers exceed " ++ toString maxResponseHeaderBytes ++ " bytes"))
  | .filled (some bodyStart) data source =>
    match parseResponseHead (data.take (bodyStart - 4)) with
    | .error failure => .error failure
    | .ok head => readBody escapeDebug endpoint head data bodyStart source

end Client

/-! ## What a stream comes to -/

inductive FailureKind
  | deadline | io | protocol | httpResponse (status : Nat) (timedOut : Bool)
  deriving DecidableEq, Repr

inductive Outcome
  | response (body : Bytes)
  | failure (kind : FailureKind)
  deriving DecidableEq, Repr

def ClientFailure.kind : ClientFailure → FailureKind
  | .deadline _ => .deadline
  | .io _ _ => .io
  | .protocol _ => .protocol
  | .httpResponse status _ _ timedOut => .httpResponse status timedOut

def ReadError.kind : ReadError → FailureKind
  | .deadline => .deadline
  | .io _ => .io

def outcome : Except ClientFailure HttpResponse → Outcome
  | .ok response => .response response.body
  | .error failure => .failure failure.kind

/-- The end of the head, if the head is not too long. -/
def headerEnd (stream : Bytes) : Option Nat :=
  (findHeaderTerminator stream).bind fun offset => if maxResponseHeaderBytes < offset + 4 then none else some (offset + 4)

/-- The length of the body, if the head declares one as it should. -/
def ParsedHead.declared (head : ParsedHead) : Option Nat :=
  if head.status = 204 then (if head.contentLength.isSome then none else some 0) else head.contentLength

/-- What the bytes after a head come to. -/
def bodyOutcome (endpoint : Endpoint) (head : ParsedHead) (rest : Bytes) (ending : Ending ReadError) : Outcome :=
  match head.declared with
  | none => .failure (.httpResponse head.status false)
  | some length =>
    if bodyLimit endpoint head < length ∧ head.status = endpoint.expectedStatus then
      .failure (.httpResponse head.status false)
    else if rest.length < min length (bodyLimit endpoint head) then
      match ending with
      | .failed .deadline => .failure (.httpResponse head.status true)
      | _ => .failure (.httpResponse head.status false)
    else if head.status = endpoint.expectedStatus then .response (rest.take length)
    else .failure (.httpResponse head.status false)

/-- What a stream comes to when no byte after the response is looked at. -/
def outcomeOf (endpoint : Endpoint) (stream : Bytes) (ending : Ending ReadError) : Outcome :=
  match headerEnd stream with
  | none =>
    if maxResponseHeaderBytes < stream.length then .failure .protocol
    else match ending with
      | .closed => .failure .protocol
      | .failed error => .failure error.kind
  | some bodyStart =>
    match parseResponseHead (stream.take (bodyStart - 4)) with
    | .error failure => .failure failure.kind
    | .ok head => bodyOutcome endpoint head (stream.drop bodyStart) ending

/-- The stream starts with a response that the endpoint takes. -/
structure Accepted (endpoint : Endpoint) (stream : Bytes) (bodyStart length : Nat) : Prop where
  terminator : findHeaderTerminator stream = some (bodyStart - 4)
  four_le : 4 ≤ bodyStart
  header_le : bodyStart ≤ maxResponseHeaderBytes
  head : ∃ head, parseResponseHead (stream.take (bodyStart - 4)) = .ok head ∧ head.status = endpoint.expectedStatus ∧
    head.declared = some length
  length_le : length ≤ endpoint.successBodyLimit
  complete : bodyStart + length ≤ stream.length

/-- Bytes follow a response that the endpoint takes, and the read that completes the head can reach them. -/
def Surplus (endpoint : Endpoint) (stream : Bytes) : Prop :=
  ∃ bodyStart length, Accepted endpoint stream bodyStart length ∧ bodyStart + length < stream.length ∧
    bodyStart + length < min (maxResponseHeaderBytes + 1) (bodyStart - 1 + ioChunkBytes)

theorem headerEnd_eq_some {stream : Bytes} {bodyStart : Nat} : headerEnd stream = some bodyStart ↔
    findHeaderTerminator stream = some (bodyStart - 4) ∧ 4 ≤ bodyStart ∧ bodyStart ≤ maxResponseHeaderBytes := by
  rw [headerEnd, Option.bind_eq_some_iff]
  constructor
  · rintro ⟨offset, hfind, hend⟩
    split at hend
    · cases hend
    · cases hend
      refine ⟨hfind, by omega, by omega⟩
  · rintro ⟨hfind, hfour, hle⟩
    refine ⟨_, hfind, ?_⟩
    rw [if_neg (by omega), Nat.sub_add_cancel hfour]

theorem outcomeOf_eq_response {endpoint : Endpoint} {stream body : Bytes} {ending : Ending ReadError} :
    outcomeOf endpoint stream ending = .response body ↔
      ∃ bodyStart length, Accepted endpoint stream bodyStart length ∧ body = (stream.drop bodyStart).take length := by
  constructor
  · intro h
    unfold outcomeOf at h
    split at h
    · split_ifs at h
      split at h <;> cases h
    · rename_i bodyStart hend
      obtain ⟨hfind, hfour, hle⟩ := headerEnd_eq_some.mp hend
      split at h
      · cases h
      · rename_i head hhead
        unfold bodyOutcome at h
        split at h
        · cases h
        · rename_i length hdeclared
          split_ifs at h with hlarge hshort hexpected
          · split at h <;> cases h
          · cases h
            have hlimit : bodyLimit endpoint head = endpoint.successBodyLimit := if_pos hexpected
            have hbody : length ≤ endpoint.successBodyLimit := by
              rw [hlimit] at hlarge
              exact Nat.le_of_not_lt fun hlt => hlarge ⟨hlt, hexpected⟩
            have hcomplete : length ≤ stream.length - bodyStart := by
              rw [hlimit, List.length_drop] at hshort
              omega
            have hstart : bodyStart ≤ stream.length := by
              have hfirst := firstAt_le hfind
              simp only [headerTerminator, List.length_cons, List.length_nil] at hfirst
              omega
            exact ⟨bodyStart, length, ⟨hfind, hfour, hle, ⟨head, hhead, hexpected, hdeclared⟩, hbody, by omega⟩, rfl⟩
  · rintro ⟨bodyStart, length, h, rfl⟩
    obtain ⟨head, hhead, hexpected, hdeclared⟩ := h.head
    have hlimit : bodyLimit endpoint head = endpoint.successBodyLimit := if_pos hexpected
    have hbody := h.length_le
    have hcomplete := h.complete
    rw [outcomeOf.eq_def, headerEnd_eq_some.mpr ⟨h.terminator, h.four_le, h.header_le⟩]
    simp only [hhead, bodyOutcome, hdeclared, hlimit]
    rw [if_neg (by omega), if_neg (by rw [List.length_drop]; omega), if_pos hexpected]

/-! ## The head arrives -/

theorem headerSettled_eq_none {data : Bytes} :
    headerSettled data = none ↔ findHeaderTerminator data = none ∧ data.length ≤ maxResponseHeaderBytes := by
  unfold headerSettled
  split
  · rename_i offset hfind
    split_ifs <;> simp [hfind]
  · rename_i hfind
    split_ifs with hlong
    · simp [hfind, hlong]
    · simp [hfind, Nat.le_of_not_lt hlong]

theorem headerRoom_pos (data : Bytes) (h : headerSettled data = none) : 0 < headerRoom data := by
  have hle := (headerSettled_eq_none.mp h).2
  unfold headerRoom ioChunkBytes
  omega

/-- A beginning of the stream shows the end of the head when it reaches it. -/
theorem find_beginning {data stream : Bytes} (h : data <+: stream) {offset : Nat} :
    findHeaderTerminator data = some offset ↔ findHeaderTerminator stream = some offset ∧ offset + 4 ≤ data.length :=
  firstAt_iff_of_prefix h

/-- The head is read, with what came along with its last bytes. -/
theorem fill_header {source : Source ReadError} (hwf : source.Wf) {bodyStart : Nat}
    (h : headerEnd source.rest = some bodyStart) : ∃ data next,
    fill headerSettled headerRoom [] source = .filled (some bodyStart) data next ∧ data ++ next.rest = source.rest ∧
    next.ending = source.ending ∧ next.Wf ∧ bodyStart ≤ data.length ∧
    data.length ≤ min (maxResponseHeaderBytes + 1) (bodyStart - 1 + ioChunkBytes) := by
  obtain ⟨hfind, hfour, hle⟩ := headerEnd_eq_some.mp h
  have hreached := fill_reached headerRoom_pos [] source hwf
  generalize fill headerSettled headerRoom [] source = result at hreached ⊢
  cases hreached with
  | @filled value final next hvalue hall hending hwf' hlast =>
    rw [List.nil_append] at hall
    have hprefix : final <+: source.rest := ⟨_, hall⟩
    have hreach : bodyStart ≤ final.length := by
      by_contra hshort
      have hnone : findHeaderTerminator final = none := by
        rw [Option.eq_none_iff_forall_ne_some]
        intro offset hoffset
        obtain ⟨hsame, hlen⟩ := (find_beginning hprefix).mp hoffset
        rw [hfind, Option.some.injEq] at hsame
        omega
      rw [headerSettled_eq_none.mpr ⟨hnone, by omega⟩] at hvalue
      cases hvalue
    have hshown : findHeaderTerminator final = some (bodyStart - 4) := (find_beginning hprefix).mpr ⟨hfind, by omega⟩
    have hsettled : value = some bodyStart := by
      rw [headerSettled, hshown] at hvalue
      simp only at hvalue
      rw [if_neg (by omega), Nat.sub_add_cancel hfour] at hvalue
      cases hvalue
      rfl
    subst hsettled
    refine ⟨final, next, rfl, hall, hending, hwf', hreach, ?_⟩
    rcases hlast with rfl | ⟨previous, hprevious, -, hpart, hlen⟩
    · rw [List.length_nil] at hreach
      omega
    · obtain ⟨hno, hsmall⟩ := headerSettled_eq_none.mp hprevious
      have hbefore : previous.length < bodyStart := by
        by_contra hlong
        have hshown := (find_beginning (hpart.trans hprefix)).mpr ⟨hfind, by omega⟩
        rw [hno] at hshown
        cases hshown
      unfold headerRoom at hlen
      omega
  | closed hnone hfinal =>
    rw [hfinal, List.nil_append, headerSettled_eq_none, hfind] at hnone
    cases hnone.1
  | failed hnone hfinal =>
    rw [hfinal, List.nil_append, headerSettled_eq_none, hfind] at hnone
    cases hnone.1

section Client

variable {escapeDebug : Char → List Char} {endpoint : Endpoint}

/-- Without a head that is short enough there is no response, in pieces of any size. -/
theorem outcome_noHeader {source : Source ReadError} (hwf : source.Wf) (h : headerEnd source.rest = none) :
    outcome (readResponse escapeDebug endpoint source) = outcomeOf endpoint source.rest source.ending := by
  have hfar : ∀ offset, findHeaderTerminator source.rest = some offset → maxResponseHeaderBytes < offset + 4 := by
    intro offset hfind
    by_contra hnear
    have hend : headerEnd source.rest = some (offset + 4) := headerEnd_eq_some.mpr ⟨hfind, by omega, by omega⟩
    rw [h] at hend
    cases hend
  have hreached := fill_reached headerRoom_pos [] source hwf
  rw [readResponse, outcomeOf.eq_def, h]
  generalize fill headerSettled headerRoom [] source = result at hreached ⊢
  cases hreached with
  | @filled value final next hvalue hall hending hwf' hlast =>
    rw [List.nil_append] at hall
    have hprefix : final <+: source.rest := ⟨_, hall⟩
    have hlen := hprefix.length_le
    unfold headerSettled at hvalue
    split at hvalue
    · rename_i offset hoffset
      obtain ⟨hfind, hreach⟩ := (find_beginning hprefix).mp hoffset
      have hlong := hfar offset hfind
      rw [if_pos hlong] at hvalue
      cases hvalue
      rw [if_pos (by omega)]
      rfl
    · split_ifs at hvalue with hlong
      cases hvalue
      rw [if_pos (by omega)]
      rfl
  | closed hnone hfinal hending =>
    rw [hfinal, List.nil_append] at hnone
    have hsmall := (headerSettled_eq_none.mp hnone).2
    rw [if_neg (by omega), hending]
    rfl
  | @failed final error hnone hfinal hending =>
    rw [hfinal, List.nil_append] at hnone
    have hsmall := (headerSettled_eq_none.mp hnone).2
    rw [if_neg (by omega), hending]
    cases error <;> rfl

/-! ## The body arrives -/

/-- A head that declares no length as it should is refused, and so is one that declares none when bytes follow. -/
theorem declaredLength_cases (escapeDebug : Char → List Char) (head : ParsedHead) (buffered : Bytes) :
    (∃ failure, declaredLength escapeDebug head buffered = .error failure ∧ failure.kind = .httpResponse head.status false ∧
      (head.declared = none ∨ head.declared = some 0 ∧ 0 < buffered.length)) ∨
    ∃ length, declaredLength escapeDebug head buffered = .ok length ∧ head.declared = some length := by
  unfold declaredLength ParsedHead.declared
  split_ifs with hstatus hsome hbuffered
  · exact .inl ⟨_, rfl, rfl, .inl rfl⟩
  · exact .inl ⟨_, rfl, rfl, .inr ⟨rfl, Nat.pos_of_ne_zero hbuffered⟩⟩
  · exact .inr ⟨0, rfl, rfl⟩
  · cases head.contentLength with
    | none => exact .inl ⟨_, rfl, rfl, .inl rfl⟩
    | some length => exact .inr ⟨length, rfl, rfl⟩

/-- Bytes that came along with the head and do not belong to the body are noticed. -/
theorem outcome_surplus {head : ParsedHead} {data : Bytes} {bodyStart length : Nat} {source : Source ReadError}
    (hdeclared : head.declared = some length) (hsurplus : length < data.length - bodyStart) :
    outcome (readBody escapeDebug endpoint head data bodyStart source) = .failure (.httpResponse head.status false) := by
  unfold readBody
  rcases declaredLength_cases escapeDebug head (data.drop bodyStart) with
    ⟨failure, hfailure, hkind, -⟩ | ⟨n, hlength, hsame⟩
  · rw [hfailure, ← hkind]
    rfl
  · rw [hdeclared, Option.some.injEq] at hsame
    subst hsame
    simp only [hlength]
    split
    · rfl
    · rfl

theorem bodySettled_eq_none {bodyStart readLength : Nat} {data : Bytes} :
    bodySettled bodyStart readLength data = none ↔ data.length - bodyStart < readLength := by
  unfold bodySettled
  split_ifs with h <;> simp [h]

theorem bodyRoom_pos (bodyStart readLength : Nat) (data : Bytes) (h : bodySettled bodyStart readLength data = none) :
    0 < bodyRoom bodyStart readLength data := by
  rw [bodySettled_eq_none] at h
  unfold bodyRoom ioChunkBytes
  omega

section Body

variable {bodyStart readLength : Nat} {data final : Bytes} {source next : Source ReadError}

/-- A body that was read is there in full. -/
theorem body_le (h : Reached (bodySettled bodyStart readLength) (bodyRoom bodyStart readLength) data source
    (.filled () final next)) : readLength ≤ ((data ++ source.rest).drop bodyStart).length := by
  cases h with
  | filled hvalue hall hending hwf hlast =>
    have hlong : ¬ final.length - bodyStart < readLength := by
      rw [← bodySettled_eq_none, hvalue]
      exact Option.some_ne_none _
    rw [← hall, List.length_drop, List.length_append]
    omega

/-- The body is read up to its length, and not further. -/
theorem body_eq (hstart : bodyStart ≤ data.length) (hlimit : data.length - bodyStart ≤ readLength)
    (h : Reached (bodySettled bodyStart readLength) (bodyRoom bodyStart readLength) data source (.filled () final next)) :
    final.drop bodyStart = ((data ++ source.rest).drop bodyStart).take readLength := by
  cases h with
  | filled hvalue hall hending hwf hlast =>
    have hlong : ¬ final.length - bodyStart < readLength := by
      rw [← bodySettled_eq_none, hvalue]
      exact Option.some_ne_none _
    have hlength : final.length - bodyStart ≤ readLength := by
      rcases hlast with rfl | ⟨previous, hprevious, hdata, -, hlen⟩
      · exact hlimit
      · rw [bodySettled_eq_none] at hprevious
        have hle := hdata.length_le
        unfold bodyRoom at hlen
        omega
    have hreach : bodyStart ≤ final.length := by
      rcases hlast with rfl | ⟨previous, -, hdata, hfinal, -⟩
      · exact hstart
      · exact hstart.trans (hdata.length_le.trans hfinal.length_le)
    have hdrop : (final.drop bodyStart).length = readLength := by
      rw [List.length_drop]
      omega
    rw [← hall, List.drop_append_of_le_length hreach, ← hdrop, List.take_left]

/-- Where the stream ends before the body does, it is too short. -/
theorem body_short (hall : final = data ++ source.rest) (hnone : bodySettled bodyStart readLength final = none) :
    ((data ++ source.rest).drop bodyStart).length < readLength := by
  rw [bodySettled_eq_none, hall] at hnone
  rwa [List.length_drop]

end Body

/-- Without such bytes a body comes to what the stream says. -/
theorem outcome_readBody {head : ParsedHead} {data : Bytes} {bodyStart : Nat} {source : Source ReadError} (hwf : source.Wf)
    (hstart : bodyStart ≤ data.length) (hexact : ∀ length, head.declared = some length → data.length - bodyStart ≤ length) :
    outcome (readBody escapeDebug endpoint head data bodyStart source) =
      bodyOutcome endpoint head ((data ++ source.rest).drop bodyStart) source.ending := by
  unfold readBody bodyOutcome
  rcases declaredLength_cases escapeDebug head (data.drop bodyStart) with
    ⟨failure, hfailure, hkind, hnone | ⟨hzero, hpos⟩⟩ | ⟨n, hlength, hdeclared⟩
  · rw [hfailure, hnone]
    exact congrArg Outcome.failure hkind
  · have h := hexact 0 hzero
    rw [List.length_drop] at hpos
    omega
  · have hle := hexact n hdeclared
    have hreached := fill_reached (bodyRoom_pos bodyStart (min n (bodyLimit endpoint head))) data source hwf
    simp only [hlength, hdeclared]
    by_cases hlarge : bodyLimit endpoint head < n ∧ head.status = endpoint.expectedStatus
    · rw [if_pos hlarge, if_pos hlarge]
      rfl
    rw [if_neg hlarge, if_neg hlarge, if_neg (Nat.not_lt.mpr hle)]
    generalize fill (bodySettled bodyStart (min n (bodyLimit endpoint head))) (bodyRoom bodyStart (min n (bodyLimit endpoint head)))
      data source = result at hreached ⊢
    cases hresult : result with
    | filled value final next =>
      rw [hresult] at hreached
      rw [if_neg (Nat.not_lt.mpr (body_le hreached))]
      by_cases hexpected : head.status = endpoint.expectedStatus
      · have hsmall : n ≤ bodyLimit endpoint head := Nat.le_of_not_lt fun hlt => hlarge ⟨hlt, hexpected⟩
        rw [Nat.min_eq_left hsmall] at hreached
        simp only [if_neg (Nat.not_lt.mpr hsmall), if_pos hexpected]
        exact congrArg Outcome.response (body_eq hstart hle hreached)
      · rw [if_neg hexpected]
        split_ifs <;> rfl
    | closed final =>
      rw [hresult] at hreached
      cases hreached with
      | closed hnone hfinal hending =>
        rw [if_pos (body_short hfinal hnone), hending]
        rfl
    | failed final error =>
      rw [hresult] at hreached
      cases hreached with
      | failed hnone hfinal hending =>
        rw [if_pos (body_short hfinal hnone), hending]
        cases error <;> rfl

/-! ## The response arrives -/

/-- A head that parses is followed by a body. -/
theorem readResponse_head {source next : Source ReadError} {data : Bytes} {bodyStart : Nat} {head : ParsedHead}
    (hfill : fill headerSettled headerRoom [] source = .filled (some bodyStart) data next)
    (hhead : parseResponseHead (data.take (bodyStart - 4)) = .ok head) :
    readResponse escapeDebug endpoint source = readBody escapeDebug endpoint head data bodyStart next := by
  rw [readResponse, hfill]
  simp only [hhead]

theorem outcomeOf_head {stream : Bytes} {ending : Ending ReadError} {bodyStart : Nat} {head : ParsedHead}
    (hend : headerEnd stream = some bodyStart) (hhead : parseResponseHead (stream.take (bodyStart - 4)) = .ok head) :
    outcomeOf endpoint stream ending = bodyOutcome endpoint head (stream.drop bodyStart) ending := by
  rw [outcomeOf.eq_def, hend]
  simp only [hhead]

/-- Bytes after the response make a difference when they came along with the head, and no other bytes do. -/
theorem outcome_readResponse {source : Source ReadError} (hwf : source.Wf) :
    outcome (readResponse escapeDebug endpoint source) = outcomeOf endpoint source.rest source.ending ∨
      Surplus endpoint source.rest ∧
        outcome (readResponse escapeDebug endpoint source) = .failure (.httpResponse endpoint.expectedStatus false) := by
  cases hend : headerEnd source.rest with
  | none => exact .inl (outcome_noHeader hwf hend)
  | some bodyStart =>
    obtain ⟨hfind, hfour, hshort⟩ := headerEnd_eq_some.mp hend
    obtain ⟨data, next, hfill, hall, hending, hnext, hstart, hlength⟩ := fill_header hwf hend
    have htake : data.take (bodyStart - 4) = source.rest.take (bodyStart - 4) := by
      rw [← hall, List.take_append_of_le_length (by omega)]
    cases hhead : parseResponseHead (source.rest.take (bodyStart - 4)) with
    | error failure =>
      left
      rw [readResponse, hfill, outcomeOf.eq_def, hend]
      simp only [htake, hhead]
      rfl
    | ok head =>
      rw [readResponse_head hfill (htake ▸ hhead), outcomeOf_head hend hhead]
      by_cases hexact : ∀ length, head.declared = some length → data.length - bodyStart ≤ length
      · refine .inl ?_
        have hbody : outcome (readBody escapeDebug endpoint head data bodyStart next) = _ :=
          outcome_readBody hnext hstart hexact
        rwa [hall, hending] at hbody
      · simp only [not_forall, Nat.not_le] at hexact
        obtain ⟨length, hdeclared, hsurplus⟩ := hexact
        have hrest : data.length ≤ source.rest.length := by
          rw [← hall, List.length_append]
          exact Nat.le_add_right _ _
        by_cases haccepted : head.status = endpoint.expectedStatus ∧ length ≤ endpoint.successBodyLimit
        · obtain ⟨hexpected, hlimit⟩ := haccepted
          refine .inr ⟨⟨bodyStart, length, ?_, by omega, by omega⟩, hexpected ▸ outcome_surplus hdeclared hsurplus⟩
          exact ⟨hfind, hfour, hshort, ⟨head, hhead, hexpected, hdeclared⟩, hlimit, by omega⟩
        · refine .inl ((outcome_surplus hdeclared hsurplus).trans ?_)
          simp only [bodyOutcome, hdeclared]
          by_cases hexpected : head.status = endpoint.expectedStatus
          · have hlimit : bodyLimit endpoint head = endpoint.successBodyLimit := if_pos hexpected
            have hlarge : endpoint.successBodyLimit < length := Nat.lt_of_not_le fun hle => haccepted ⟨hexpected, hle⟩
            rw [hlimit, if_pos ⟨hlarge, hexpected⟩]
          · rw [if_neg fun h => hexpected h.2, if_neg, if_neg hexpected]
            rw [List.length_drop]
            omega

/-- What the client returns is the response that the stream starts with, in any case. -/
theorem readResponse_accepted {source : Source ReadError} {response : HttpResponse} (hwf : source.Wf)
    (h : readResponse escapeDebug endpoint source = .ok response) : ∃ bodyStart length,
    Accepted endpoint source.rest bodyStart length ∧ response.body = (source.rest.drop bodyStart).take length := by
  have hcases : outcome (readResponse escapeDebug endpoint source) = _ ∨ _ := outcome_readResponse hwf
  rcases hcases with hspec | ⟨-, hfailure⟩
  · rw [h] at hspec
    exact outcomeOf_eq_response.mp hspec.symm
  · rw [h] at hfailure
    cases hfailure

end Client

/-! ## Splittings -/

/-- A way in which a stream arrives. -/
structure Splitting (stream : Bytes) (pieces : List Bytes) : Prop where
  ne_nil : ∀ piece ∈ pieces, piece ≠ []
  flatten : pieces.flatten = stream

/-- In two pieces. -/
theorem Splitting.two {stream : Bytes} {n : Nat} (hpos : 0 < n) (hlt : n < stream.length) :
    Splitting stream [stream.take n, stream.drop n] := by
  refine ⟨fun piece hpiece => ?_, ?_⟩
  · rw [← List.length_pos_iff]
    simp only [List.mem_cons, List.not_mem_nil, or_false] at hpiece
    rcases hpiece with rfl | rfl
    · rw [List.length_take]
      omega
    · rw [List.length_drop]
      omega
  · rw [List.flatten_cons, List.flatten_cons, List.flatten_nil, List.append_nil, List.take_append_drop]

section Client

variable (escapeDebug : Char → List Char) (endpoint : Endpoint) (stream : Bytes) (ending : Ending ReadError)

/-- The client reads exactly one response: the pieces make no difference, and what it returns is the response that the stream
starts with. -/
structure ReadsExactly : Prop where
  same : ∀ first second, Splitting stream first → Splitting stream second →
    outcome (readResponse escapeDebug endpoint ⟨first, ending⟩) = outcome (readResponse escapeDebug endpoint ⟨second, ending⟩)
  response : ∀ pieces response, Splitting stream pieces → readResponse escapeDebug endpoint ⟨pieces, ending⟩ = .ok response →
    ∃ bodyStart length, Accepted endpoint stream bodyStart length ∧ response.body = (stream.drop bodyStart).take length

variable {escapeDebug endpoint stream ending}

/-- Up to a place within the head nothing is settled, and a piece that ends there is read to its end. -/
theorem fill_headPiece {bodyStart n : Nat} {pieces : List Bytes} (hend : headerEnd stream = some bodyStart) (hpos : 0 < n)
    (hn : n ≤ bodyStart) (hlong : bodyStart ≤ stream.length) :
    fill headerSettled headerRoom [] ⟨stream.take n :: pieces, ending⟩ =
      fill headerSettled headerRoom (stream.take n) ⟨pieces, ending⟩ := by
  obtain ⟨hfind, hfour, hshort⟩ := headerEnd_eq_some.mp hend
  have hne : stream.take n ≠ [] := by
    rw [← List.length_pos_iff, List.length_take]
    omega
  rw [fill_piece headerRoom_pos _ [] _ le_rfl hne, List.nil_append]
  intro k hk
  rw [List.length_take] at hk
  rw [List.nil_append, List.take_take, headerSettled_eq_none, List.length_take]
  refine ⟨?_, by omega⟩
  rw [Option.eq_none_iff_forall_ne_some]
  intro offset hoffset
  obtain ⟨hsame, hreach⟩ := (find_beginning (List.take_prefix _ _)).mp hoffset
  rw [hfind, Option.some.injEq] at hsame
  rw [List.length_take] at hreach
  omega

/-- A beginning of the stream that has the head settles it. -/
theorem headerSettled_take {bodyStart n : Nat} (hend : headerEnd stream = some bodyStart) (hn : bodyStart ≤ n)
    (hlong : bodyStart ≤ stream.length) : headerSettled (stream.take n) = some (some bodyStart) := by
  obtain ⟨hfind, hfour, hshort⟩ := headerEnd_eq_some.mp hend
  have hshown : findHeaderTerminator (stream.take n) = some (bodyStart - 4) := by
    refine (find_beginning (List.take_prefix _ _)).mpr ⟨hfind, ?_⟩
    rw [List.length_take]
    omega
  rw [headerSettled, hshown]
  simp only
  rw [if_neg (by omega), Nat.sub_add_cancel hfour]

/-- With a piece that ends where the head does, the response is accepted. -/
theorem outcome_apart {bodyStart length : Nat} (h : Accepted endpoint stream bodyStart length) (pieces : List Bytes)
    (hpieces : Splitting (stream.drop bodyStart) pieces) :
    outcome (readResponse escapeDebug endpoint ⟨stream.take bodyStart :: pieces, ending⟩) =
      .response ((stream.drop bodyStart).take length) := by
  have hfour := h.four_le
  have hcomplete := h.complete
  have hend : headerEnd stream = some bodyStart := headerEnd_eq_some.mpr ⟨h.terminator, hfour, h.header_le⟩
  have hlen : (stream.take bodyStart).length = bodyStart := List.length_take_of_le (by omega)
  obtain ⟨head, hhead, hexpected, hdeclared⟩ := h.head
  have htake : (stream.take bodyStart).take (bodyStart - 4) = stream.take (bodyStart - 4) := by
    rw [List.take_take, Nat.min_eq_left (Nat.sub_le _ _)]
  have hspec : outcomeOf endpoint stream ending = .response ((stream.drop bodyStart).take length) :=
    outcomeOf_eq_response.mpr ⟨bodyStart, length, h, rfl⟩
  have hfill : fill headerSettled headerRoom [] ⟨stream.take bodyStart :: pieces, ending⟩ =
      .filled (some bodyStart) (stream.take bodyStart) ⟨pieces, ending⟩ := by
    rw [fill_headPiece hend (by omega) le_rfl (by omega), fill_settled (headerSettled_take hend le_rfl (by omega))]
  have hwf : (⟨pieces, ending⟩ : Source ReadError).Wf := hpieces.ne_nil
  rw [← hspec, outcomeOf_head hend hhead, readResponse_head hfill (htake ▸ hhead),
    outcome_readBody hwf hlen.ge (fun n _ => by omega), Source.rest, hpieces.flatten, List.take_append_drop]

/-- With a piece that ends before the last byte of the head, the bytes after the response are refused. -/
theorem outcome_together (escapeDebug : Char → List Char) (ending : Ending ReadError) (h : Surplus endpoint stream) : ∃ n, 0 < n ∧ n < stream.length ∧
    outcome (readResponse escapeDebug endpoint ⟨[stream.take n, stream.drop n], ending⟩) =
      .failure (.httpResponse endpoint.expectedStatus false) := by
  obtain ⟨bodyStart, length, haccepted, hmore, hnear⟩ := h
  have hfour := haccepted.four_le
  have hshort := haccepted.header_le
  have hend : headerEnd stream = some bodyStart := headerEnd_eq_some.mpr ⟨haccepted.terminator, hfour, hshort⟩
  obtain ⟨head, hhead, hexpected, hdeclared⟩ := haccepted.head
  have hlen : (stream.take (bodyStart - 1)).length = bodyStart - 1 := List.length_take_of_le (by omega)
  have hroom : headerRoom (stream.take (bodyStart - 1)) =
      min (maxResponseHeaderBytes + 1 - (bodyStart - 1)) ioChunkBytes := by rw [headerRoom, hlen]
  have hnone : headerSettled (stream.take (bodyStart - 1)) = none := by
    rw [headerSettled_eq_none, hlen, Option.eq_none_iff_forall_ne_some]
    refine ⟨fun offset hoffset => ?_, by omega⟩
    obtain ⟨hsame, hreach⟩ := (find_beginning (List.take_prefix _ _)).mp hoffset
    rw [haccepted.terminator, Option.some.injEq] at hsame
    omega
  obtain ⟨chunk, next, hread, hchunk, hjoin⟩ : ∃ chunk next, Source.read ⟨[stream.drop (bodyStart - 1)], ending⟩
      (headerRoom (stream.take (bodyStart - 1))) = .ok (chunk, next) ∧ chunk ≠ [] ∧ stream.take (bodyStart - 1) ++ chunk =
        stream.take (bodyStart - 1 + min (maxResponseHeaderBytes + 1 - (bodyStart - 1)) ioChunkBytes) := by
    rw [hroom]
    refine ⟨_, _, rfl, ?_, List.take_add.symm⟩
    rw [← List.length_pos_iff, List.length_take, List.length_drop]
    unfold ioChunkBytes
    omega
  have hfill : fill headerSettled headerRoom [] ⟨[stream.take (bodyStart - 1), stream.drop (bodyStart - 1)], ending⟩ =
      .filled (some bodyStart)
        (stream.take (bodyStart - 1 + min (maxResponseHeaderBytes + 1 - (bodyStart - 1)) ioChunkBytes)) next := by
    rw [fill_headPiece hend (by omega) (Nat.sub_le _ _) (by omega), fill_step hnone hread hchunk, hjoin,
      fill_settled (headerSettled_take hend (by unfold ioChunkBytes; omega) (by omega))]
  have htake : (stream.take (bodyStart - 1 + min (maxResponseHeaderBytes + 1 - (bodyStart - 1)) ioChunkBytes)).take
      (bodyStart - 4) = stream.take (bodyStart - 4) := by
    rw [List.take_take, Nat.min_eq_left (by omega)]
  refine ⟨bodyStart - 1, by omega, by omega, ?_⟩
  rw [readResponse_head hfill (htake ▸ hhead), outcome_surplus hdeclared, hexpected]
  rw [List.length_take]
  omega

/-- Bytes that follow a response closely are refused in some pieces and left in others. -/
theorem not_exactly (hsurplus : Surplus endpoint stream) : ¬ ReadsExactly escapeDebug endpoint stream ending := by
  intro hexactly
  obtain ⟨n, hpos, hlt, hrefused⟩ := outcome_together escapeDebug ending hsurplus
  obtain ⟨bodyStart, length, haccepted, hmore, -⟩ := hsurplus
  have hfour := haccepted.four_le
  have htwo : Splitting stream [stream.take bodyStart, stream.drop bodyStart] := Splitting.two (by omega) (by omega)
  have hrest : Splitting (stream.drop bodyStart) [stream.drop bodyStart] :=
    ⟨fun piece hpiece => htwo.ne_nil piece (List.mem_cons_of_mem _ hpiece), List.append_nil _⟩
  have hsame := hexactly.same _ _ (Splitting.two hpos hlt) htwo
  rw [hrefused, outcome_apart haccepted _ hrest] at hsame
  cases hsame

/-- The client reads exactly one response, whatever the pieces, unless bytes follow it closely. -/
theorem readResponse_exact (escapeDebug : Char → List Char) (endpoint : Endpoint) (stream : Bytes)
    (ending : Ending ReadError) : ReadsExactly escapeDebug endpoint stream ending ↔ ¬ Surplus endpoint stream := by
  constructor
  · exact fun hexactly hsurplus => not_exactly hsurplus hexactly
  · intro hno
    have hspec : ∀ pieces, Splitting stream pieces →
        outcome (readResponse escapeDebug endpoint ⟨pieces, ending⟩) = outcomeOf endpoint stream ending := by
      rintro pieces ⟨hne, rfl⟩
      have hwf : (⟨pieces, ending⟩ : Source ReadError).Wf := hne
      exact (outcome_readResponse hwf).resolve_right fun h => hno h.1
    refine ⟨fun first second hfirst hsecond => (hspec first hfirst).trans (hspec second hsecond).symm, ?_⟩
    rintro pieces response ⟨hne, rfl⟩ hresponse
    have hwf : (⟨pieces, ending⟩ : Source ReadError).Wf := hne
    exact readResponse_accepted hwf hresponse

end Client

/-- A response to a boot and a byte more. -/
def bootAndMore : Bytes := bytes "HTTP/1.1 204 No Content" ++ headerTerminator ++ [0x58]

theorem bootAndMore_surplus : Surplus .vmBoot bootAndMore := by
  refine ⟨27, 0, ⟨by decide, by decide, by decide, ⟨⟨204, none⟩, ?_, rfl, rfl⟩, by decide, by decide⟩, by decide, by decide⟩
  have htake : bootAndMore.take (27 - 4) = bytes "HTTP/1.1 204 No Content" := by decide
  rw [htake, parseResponseHead, fromUtf8_bytes]
  rfl

theorem readResponse_bootAndMore : ¬ ReadsExactly (fun c => [c]) .vmBoot bootAndMore .closed :=
  not_exactly bootAndMore_surplus

end Firestone.Vmm
