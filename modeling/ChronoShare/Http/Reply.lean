import ChronoShare.Http.Grammar
import ChronoShare.Support.SelfDelimiting

/-!
# Replies

A reply is written as a status line, headers and a content.  Its header
`Content-Length` tells where it ends, so that a reply can be told apart from
whatever follows it.
-/

namespace ChronoShare

namespace Http

inductive Status where
  | ok
  | created
  | accepted
  | noContent
  | multipleChoices
  | movedPermanently
  | movedTemporarily
  | notModified
  | badRequest
  | unauthorized
  | forbidden
  | notFound
  | internalServerError
  | notImplemented
  | badGateway
  | serviceUnavailable
  deriving DecidableEq, Repr

def Status.code : Status → Nat
  | .ok => 200
  | .created => 201
  | .accepted => 202
  | .noContent => 204
  | .multipleChoices => 300
  | .movedPermanently => 301
  | .movedTemporarily => 302
  | .notModified => 304
  | .badRequest => 400
  | .unauthorized => 401
  | .forbidden => 403
  | .notFound => 404
  | .internalServerError => 500
  | .notImplemented => 501
  | .badGateway => 502
  | .serviceUnavailable => 503

/-- `status_strings`, without the end of the line. -/
def Status.line : Status → Bytes
  | .ok => ascii "HTTP/1.0 200 OK"
  | .created => ascii "HTTP/1.0 201 Created"
  | .accepted => ascii "HTTP/1.0 202 Accepted"
  | .noContent => ascii "HTTP/1.0 204 No Content"
  | .multipleChoices => ascii "HTTP/1.0 300 Multiple Choices"
  | .movedPermanently => ascii "HTTP/1.0 301 Moved Permanently"
  | .movedTemporarily => ascii "HTTP/1.0 302 Moved Temporarily"
  | .notModified => ascii "HTTP/1.0 304 Not Modified"
  | .badRequest => ascii "HTTP/1.0 400 Bad Request"
  | .unauthorized => ascii "HTTP/1.0 401 Unauthorized"
  | .forbidden => ascii "HTTP/1.0 403 Forbidden"
  | .notFound => ascii "HTTP/1.0 404 Not Found"
  | .internalServerError => ascii "HTTP/1.0 500 Internal Server Error"
  | .notImplemented => ascii "HTTP/1.0 501 Not Implemented"
  | .badGateway => ascii "HTTP/1.0 502 Bad Gateway"
  | .serviceUnavailable => ascii "HTTP/1.0 503 Service Unavailable"

/-- `status_strings::to_buffer`. -/
def Status.toBuffer (status : Status) : Bytes :=
  status.line ++ crlf

structure Reply where
  status : Status
  headers : List Header
  content : Bytes
  deriving DecidableEq, Repr

def Header.toBuffers (header : Header) : List Bytes :=
  [header.name, ascii ": ", header.value, crlf]

def Reply.toBuffers (reply : Reply) : List Bytes :=
  reply.status.toBuffer :: reply.headers.flatMap Header.toBuffers ++
    [crlf, reply.content]

/-- The bytes that `async_write` sends. -/
def Reply.text (reply : Reply) : Bytes :=
  reply.toBuffers.flatten

def page (title heading : String) : Bytes :=
  ascii "<html><head><title>" ++ ascii title ++
    ascii "</title></head><body><h1>" ++ ascii heading ++
    ascii "</h1></body></html>"

/-- `stock_replies::to_string`. -/
def Status.stockContent : Status → Bytes
  | .ok => []
  | .created => page "Created" "201 Created"
  | .accepted => page "Accepted" "202 Accepted"
  | .noContent => page "No Content" "204 Content"
  | .multipleChoices => page "Multiple Choices" "300 Multiple Choices"
  | .movedPermanently => page "Moved Permanently" "301 Moved Permanently"
  | .movedTemporarily => page "Moved Temporarily" "302 Moved Temporarily"
  | .notModified => page "Not Modified" "304 Not Modified"
  | .badRequest => page "Bad Request" "400 Bad Request"
  | .unauthorized => page "Unauthorized" "401 Unauthorized"
  | .forbidden => page "Forbidden" "403 Forbidden"
  | .notFound => page "Not Found" "404 Not Found"
  | .internalServerError =>
      page "Internal Server Error" "500 Internal Server Error"
  | .notImplemented => page "Not Implemented" "501 Not Implemented"
  | .badGateway => page "Bad Gateway" "502 Bad Gateway"
  | .serviceUnavailable => page "Service Unavailable" "503 Service Unavailable"

/-- `lexical_cast` of a size. -/
def decimal (size : Nat) : Bytes :=
  (Nat.toDigits 10 size).map byte

/-- The headers of every reply: the length of the content and its type. -/
def contentHeaders (content type : Bytes) : List Header :=
  [⟨ascii "Content-Length", decimal content.length⟩,
    ⟨ascii "Content-Type", type⟩]

def stockReply (status : Status) : Reply where
  status
  headers := contentHeaders status.stockContent (ascii "text/html")
  content := status.stockContent

/-- A reply whose length a client can tell. -/
structure Reply.Framed (reply : Reply) : Prop where
  names : ∀ header ∈ reply.headers, Token header.name
  values : ∀ header ∈ reply.headers, Plain header.value
  length : reply.headers.head? =
    some ⟨ascii "Content-Length", decimal reply.content.length⟩

variable {reply : Reply} {header : Header} {headers : List Header}
  {content type rest left right : Bytes}

open Incremental RequestParser

theorem digit_bounds {size : Nat} {digit : Char}
    (member : digit ∈ Nat.toDigits 10 size) :
    48 ≤ digit.toNat ∧ digit.toNat ≤ 57 :=
  Char.isDigit_iff_toNat.mp
    (Nat.isDigit_of_mem_toDigits (by decide) (by decide) member)

def number (digits : Bytes) : Nat :=
  Nat.ofDigitChars 10 (digits.map fun digit => Char.ofNat digit.toNat) 0

theorem toNat_byte {digit : Char} (small : digit.toNat ≤ 57) :
    (byte digit).toNat = digit.toNat := by
  rw [byte, UInt8.toNat_ofNat']
  omega

theorem number_decimal (size : Nat) : number (decimal size) = size := by
  have back : ∀ digit ∈ Nat.toDigits 10 size,
      Char.ofNat (byte digit).toNat = digit := by
    intro digit member
    rw [toNat_byte (digit_bounds member).2, Char.ofNat_toNat]
  have digits : (decimal size).map (fun digit => Char.ofNat digit.toNat) =
      Nat.toDigits 10 size := by
    rw [decimal, List.map_map]
    exact (List.map_congr_left back).trans (List.map_id _)
  rw [number, digits, Nat.ofDigitChars_toDigits (by decide) (by decide)]

theorem plain_decimal (size : Nat) : Plain (decimal size) := by
  intro input member
  obtain ⟨digit, among, rfl⟩ := List.mem_map.mp member
  obtain ⟨lower, upper⟩ := digit_bounds among
  have value := toNat_byte upper
  simp only [isCtl, Bool.or_eq_false_iff, decide_eq_false_iff_not,
    UInt8.le_iff_toNat_le, ← UInt8.toNat_inj, value]
  constructor
  · simp
    omega
  · simp
    omega

theorem plain_line (status : Status) : Plain status.line := by
  cases status
  all_goals decide

theorem number_line (status : Status) :
    number ((status.line.drop 9).take 3) = status.code := by
  cases status
  all_goals rfl

theorem code_injective : Function.Injective Status.code := by
  intro left right same
  cases left
  all_goals cases right
  all_goals first | rfl | exact absurd same (by decide)

theorem line_injective : Function.Injective Status.line := by
  intro left right same
  apply code_injective
  rw [← number_line, ← number_line, same]

theorem line_selfDelimiting :
    SelfDelimitingOn Plain fun line => line ++ crlf := by
  intro left right leftRest rightRest leftPlain rightPlain same
  induction left generalizing right with
  | nil =>
      cases right with
      | nil => exact ⟨rfl, by simpa using same⟩
      | cons first right =>
          have cr : byte '\r' = first := by
            simpa [crlf] using congrArg List.head? same
          exact absurd cr.symm (ne_cr_of_plain (rightPlain first (by simp)))
  | cons first left induction =>
      cases right with
      | nil =>
          have cr : first = byte '\r' := by
            simpa [crlf] using congrArg List.head? same
          exact absurd cr (ne_cr_of_plain (leftPlain first (by simp)))
      | cons second right =>
          obtain ⟨leftHere, leftLater⟩ := List.forall_mem_cons.mp leftPlain
          obtain ⟨rightHere, rightLater⟩ := List.forall_mem_cons.mp rightPlain
          simp only [List.cons_append, List.cons.injEq] at same
          obtain ⟨rfl, rests⟩ := induction right leftLater rightLater same.2
          exact ⟨by rw [same.1], rests⟩

-- The parser of requests reads the headers of a reply.
theorem text_eq (reply : Reply) :
    reply.text = reply.status.line ++ crlf ++
      ((reply.headers.flatMap Header.toBuffers).flatten ++
        (crlf ++ reply.content)) := by
  simp [Reply.text, Reply.toBuffers, Status.toBuffer]

theorem headerLines_of_headers
    (names : ∀ header ∈ headers, Token header.name)
    (values : ∀ header ∈ headers, Plain header.value) :
    HeaderLines (headers.flatMap Header.toBuffers).flatten headers := by
  induction headers using List.reverseRecOn with
  | nil => exact .nil
  | append_singleton headers header induction =>
      rw [List.forall_mem_append] at names values
      have lines := HeaderLines.header (induction names.1 values.1)
        (names.2 header (by simp)) (values.2 header (by simp))
      simpa [Header.toBuffers] using lines

theorem feed_reply (framed : reply.Framed) :
    feed consume ⟨.headerLineStart, {}⟩
        ((reply.headers.flatMap Header.toBuffers).flatten ++
          (crlf ++ (reply.content ++ rest))) =
      ((⟨.expectingNewline3, { headers := reply.headers }⟩, some true),
        reply.content ++ rest) := by
  have lines := headerLines_of_headers framed.names framed.values
  exact (feed_headerLines {} lines).trans feed_end

theorem content_eq_of_headers {first second : Reply}
    {firstRest secondRest : Bytes}
    (firstFramed : first.Framed) (secondFramed : second.Framed)
    (headers : first.headers = second.headers)
    (contents : first.content ++ firstRest = second.content ++ secondRest) :
    first.content = second.content ∧ firstRest = secondRest := by
  have lengths : decimal first.content.length =
      decimal second.content.length := by
    have same := firstFramed.length.symm.trans
      ((congrArg List.head? headers).trans secondFramed.length)
    simpa using same
  have sizes : first.content.length = second.content.length := by
    rw [← number_decimal first.content.length, lengths, number_decimal]
  exact List.append_inj contents sizes

theorem text_selfDelimiting : SelfDelimitingOn Reply.Framed Reply.text := by
  intro first second firstRest secondRest firstFramed secondFramed same
  simp only [text_eq, List.append_assoc] at same
  obtain ⟨lines, others⟩ := line_selfDelimiting _ _ _ _
    (plain_line first.status) (plain_line second.status) (by simpa using same)
  have read := congrArg (feed consume ⟨.headerLineStart, {}⟩) others
  rw [feed_reply firstFramed, feed_reply secondFramed] at read
  simp only [Prod.mk.injEq, RequestParser.mk.injEq, Request.mk.injEq, true_and,
    and_true] at read
  obtain ⟨headers, contents⟩ := read
  obtain ⟨content, rests⟩ :=
    content_eq_of_headers firstFramed secondFramed headers contents
  refine ⟨?_, rests⟩
  cases first
  cases second
  simp only [Reply.mk.injEq]
  exact ⟨line_injective lines, headers, content⟩

theorem framed_contentHeaders (status : Status) (plain : Plain type) :
    Reply.Framed ⟨status, contentHeaders content type, content⟩ where
  names := by
    have length : Token (ascii "Content-Length") := by decide
    have kind : Token (ascii "Content-Type") := by decide
    simp [contentHeaders, length, kind]
  values := by
    simp [contentHeaders, plain_decimal, plain]
  length := rfl

theorem framed_stockReply (status : Status) : (stockReply status).Framed :=
  framed_contentHeaders status (by decide)

end Http

end ChronoShare
