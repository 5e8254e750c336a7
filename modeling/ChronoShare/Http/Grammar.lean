import ChronoShare.Http.Request
import Mathlib.Data.List.DropRight

/-!
# The language of requests

The grammar of the requests the parser completes, with what each one says.
The parser completes exactly these texts, waits on their proper starts, and
gives up at the first byte that leads away from all of them.
-/

namespace ChronoShare

namespace Http

def Token (text : Bytes) : Prop :=
  text ≠ [] ∧ ∀ input ∈ text, notToken input = false

/-- A text without control characters. -/
def Plain (text : Bytes) : Prop :=
  ∀ input ∈ text, isCtl input = false

def Uri (text : Bytes) : Prop :=
  ∀ input ∈ text, input ≠ byte ' ' ∧ isCtl input = false

def Digits (text : Bytes) : Prop :=
  text ≠ [] ∧ ∀ input ∈ text, isDigit input = true

/-- White space in front of the continuation of a value. -/
def Spaces (text : Bytes) : Prop :=
  text ≠ [] ∧ ∀ input ∈ text, input = byte ' ' ∨ input = byte '\t'

instance (text : Bytes) : Decidable (Token text) :=
  @instDecidableAnd (text ≠ []) _ inferInstance
    (List.decidableBAll (notToken · = false) text)

instance (text : Bytes) : Decidable (Plain text) :=
  List.decidableBAll (isCtl · = false) text

def versionOf (digits : Bytes) : Int32 :=
  digits.foldl pushDigit 0

/-- The first line of a request. -/
inductive RequestLine : Bytes → Request → Prop where
  | intro {method uri major minor : Bytes} :
      Token method → Uri uri → Digits major → Digits minor →
      RequestLine
        (method ++ ascii " " ++ uri ++ ascii " HTTP/" ++ major ++ ascii "." ++
          minor ++ crlf)
        ⟨method, uri, versionOf major, versionOf minor, []⟩

/-- Lines of headers.  A line that starts with white space continues the value
of the header before it. -/
inductive HeaderLines : Bytes → List Header → Prop where
  | nil : HeaderLines [] []
  | header {lines name value : Bytes} {headers : List Header} :
      HeaderLines lines headers → Token name → Plain value →
      HeaderLines (lines ++ (name ++ ascii ": " ++ value ++ crlf))
        (headers ++ [⟨name, value⟩])
  | continued {lines spaces name value more : Bytes} {headers : List Header} :
      HeaderLines lines (headers ++ [⟨name, value⟩]) → Spaces spaces →
      Plain more → more.head? ≠ some (byte ' ') →
      HeaderLines (lines ++ (spaces ++ more ++ crlf))
        (headers ++ [⟨name, value ++ more⟩])

/-- The text of a request. -/
inductive RequestText : Bytes → Request → Prop where
  | intro {line lines : Bytes} {req : Request} {headers : List Header} :
      RequestLine line req → HeaderLines lines headers →
      RequestText (line ++ lines ++ crlf) { req with headers }

open Incremental RequestParser

variable {input : UInt8} {text rest name value more : Bytes}
  {headers : List Header} {req : Request} {parser after : RequestParser}

theorem ne_cr_of_plain (plain : isCtl input = false) : input ≠ byte '\r' := by
  rintro rfl
  cases plain

theorem notToken_cases (token : notToken input = false) :
    input ≠ byte ' ' ∧ input ≠ byte '\t' ∧ input ≠ byte '\r' ∧
      input ≠ byte ':' := by
  refine ⟨?_, ?_, ?_, ?_⟩
  all_goals
    rintro rfl
    exact absurd token (by decide)

theorem isDigit_cases (digit : isDigit input = true) :
    input ≠ byte '.' ∧ input ≠ byte '\r' := by
  constructor
  all_goals
    rintro rfl
    exact absurd digit (by decide)

theorem changeBack_concat (change : Header → Header) (headers : List Header)
    (last : Header) :
    changeBack change (headers ++ [last]) = headers ++ [change last] := by
  rw [changeBack, List.getLast?_concat, List.dropLast_concat]

theorem feed_method (req : Request) (collected : Bytes)
    (token : ∀ input ∈ text, notToken input = false) :
    feed consume ⟨.method, { req with method := collected }⟩ (text ++ rest) =
      feed consume ⟨.method, { req with method := collected ++ text }⟩
        rest := by
  refine feed_collect (fun collected => RequestParser.mk .method
    { req with method := collected }) ?_ collected token
  intro collected input here
  have apart := (notToken_cases here).1
  simp [consume, next, apart, here]

theorem feed_uri (req : Request) (collected : Bytes) (uri : Uri text) :
    feed consume ⟨.uri, { req with uri := collected }⟩ (text ++ rest) =
      feed consume ⟨.uri, { req with uri := collected ++ text }⟩ rest := by
  refine feed_collect (fun collected => RequestParser.mk .uri
    { req with uri := collected }) ?_ collected uri
  rintro collected input ⟨apart, plain⟩
  simp [consume, next, apart, plain]

theorem versionOf_concat (digits : Bytes) (input : UInt8) :
    versionOf (digits ++ [input]) = pushDigit (versionOf digits) input := by
  rw [versionOf, List.foldl_append]
  rfl

theorem feed_major (req : Request) (collected : Bytes)
    (digits : ∀ input ∈ text, isDigit input = true) :
    feed consume ⟨.httpVersionMajor,
        { req with httpVersionMajor := versionOf collected }⟩ (text ++ rest) =
      feed consume ⟨.httpVersionMajor,
        { req with httpVersionMajor := versionOf (collected ++ text) }⟩
          rest := by
  refine feed_collect (fun collected => RequestParser.mk .httpVersionMajor
    { req with httpVersionMajor := versionOf collected }) ?_ collected digits
  intro collected input here
  have apart := (isDigit_cases here).1
  simp [consume, next, apart, here, versionOf_concat]

theorem feed_minor (req : Request) (collected : Bytes)
    (digits : ∀ input ∈ text, isDigit input = true) :
    feed consume ⟨.httpVersionMinor,
        { req with httpVersionMinor := versionOf collected }⟩ (text ++ rest) =
      feed consume ⟨.httpVersionMinor,
        { req with httpVersionMinor := versionOf (collected ++ text) }⟩
          rest := by
  refine feed_collect (fun collected => RequestParser.mk .httpVersionMinor
    { req with httpVersionMinor := versionOf collected }) ?_ collected digits
  intro collected input here
  have apart := (isDigit_cases here).2
  simp [consume, next, apart, here, versionOf_concat]

theorem feed_name (req : Request) (collected : Bytes)
    (token : ∀ input ∈ text, notToken input = false) :
    feed consume ⟨.headerName,
        { req with headers := headers ++ [⟨collected, value⟩] }⟩
        (text ++ rest) =
      feed consume ⟨.headerName,
        { req with headers := headers ++ [⟨collected ++ text, value⟩] }⟩
          rest := by
  refine feed_collect (fun collected => RequestParser.mk .headerName
    { req with headers := headers ++ [⟨collected, value⟩] }) ?_ collected token
  intro collected input here
  have apart := (notToken_cases here).2.2.2
  simp [consume, next, apart, here, changeBack_concat, Header.pushName]

theorem feed_value (req : Request) (collected : Bytes) (plain : Plain text) :
    feed consume ⟨.headerValue,
        { req with headers := headers ++ [⟨name, collected⟩] }⟩
        (text ++ rest) =
      feed consume ⟨.headerValue,
        { req with headers := headers ++ [⟨name, collected ++ text⟩] }⟩
          rest := by
  refine feed_collect (fun collected => RequestParser.mk .headerValue
    { req with headers := headers ++ [⟨name, collected⟩] }) ?_ collected plain
  intro collected input here
  have apart := ne_cr_of_plain here
  simp [consume, next, apart, here, changeBack_concat, Header.pushValue]

theorem feed_lws
    (spaces : ∀ input ∈ text, input = byte ' ' ∨ input = byte '\t') :
    feed consume ⟨.headerLws, req⟩ (text ++ rest) =
      feed consume ⟨.headerLws, req⟩ rest := by
  refine feed_collect (fun _ => RequestParser.mk .headerLws req) ?_ [] spaces
  intro collected input here
  have apart : input ≠ byte '\r' := by
    rcases here with rfl | rfl <;> decide
  simp [consume, next, apart, here]

-- The fixed pieces are taken in byte after byte.
theorem feed_method_space :
    feed consume ⟨.method, req⟩ (ascii " " ++ rest) =
      feed consume ⟨.uri, req⟩ rest :=
  rfl

theorem feed_protocol :
    feed consume ⟨.uri, req⟩ (ascii " HTTP/" ++ rest) =
      feed consume ⟨.httpVersionMajorStart,
        { req with httpVersionMajor := 0, httpVersionMinor := 0 }⟩ rest :=
  rfl

theorem feed_major_dot :
    feed consume ⟨.httpVersionMajor, req⟩ (ascii "." ++ rest) =
      feed consume ⟨.httpVersionMinorStart, req⟩ rest :=
  rfl

theorem feed_minor_crlf :
    feed consume ⟨.httpVersionMinor, req⟩ (crlf ++ rest) =
      feed consume ⟨.headerLineStart, req⟩ rest :=
  rfl

theorem feed_name_colon :
    feed consume ⟨.headerName, req⟩ (ascii ": " ++ rest) =
      feed consume ⟨.headerValue, req⟩ rest :=
  rfl

theorem feed_value_crlf :
    feed consume ⟨.headerValue, req⟩ (crlf ++ rest) =
      feed consume ⟨.headerLineStart, req⟩ rest :=
  rfl

theorem feed_lws_crlf :
    feed consume ⟨.headerLws, req⟩ (crlf ++ rest) =
      feed consume ⟨.headerLineStart, req⟩ rest :=
  rfl

theorem feed_end :
    feed consume ⟨.headerLineStart, req⟩ (crlf ++ rest) =
      ((⟨.expectingNewline3, req⟩, some true), rest) :=
  rfl

-- The pieces that may not be empty.
theorem feed_methodStart (token : Token text) :
    feed consume {} (text ++ rest) =
      feed consume ⟨.method, { method := text }⟩ rest := by
  obtain ⟨first, text, rfl⟩ := List.exists_cons_of_ne_nil token.1
  obtain ⟨here, later⟩ := List.forall_mem_cons.mp token.2
  have taken : consume {} first =
      (⟨.method, { method := [first] }⟩, none) := by
    simp [consume, next, here]
  rw [List.cons_append, feed_cons_none taken, feed_method {} [first] later]
  rfl

theorem feed_majorStart (req : Request) (digits : Digits text) :
    feed consume ⟨.httpVersionMajorStart, { req with httpVersionMajor := 0 }⟩
        (text ++ rest) =
      feed consume ⟨.httpVersionMajor,
        { req with httpVersionMajor := versionOf text }⟩ rest := by
  obtain ⟨first, text, rfl⟩ := List.exists_cons_of_ne_nil digits.1
  obtain ⟨here, later⟩ := List.forall_mem_cons.mp digits.2
  have taken : consume ⟨.httpVersionMajorStart,
      { req with httpVersionMajor := 0 }⟩ first =
      (⟨.httpVersionMajor,
        { req with httpVersionMajor := versionOf [first] }⟩, none) := by
    simp [consume, next, here, versionOf]
  rw [List.cons_append, feed_cons_none taken, feed_major req [first] later]
  rfl

theorem feed_minorStart (req : Request) (digits : Digits text) :
    feed consume ⟨.httpVersionMinorStart, { req with httpVersionMinor := 0 }⟩
        (text ++ rest) =
      feed consume ⟨.httpVersionMinor,
        { req with httpVersionMinor := versionOf text }⟩ rest := by
  obtain ⟨first, text, rfl⟩ := List.exists_cons_of_ne_nil digits.1
  obtain ⟨here, later⟩ := List.forall_mem_cons.mp digits.2
  have taken : consume ⟨.httpVersionMinorStart,
      { req with httpVersionMinor := 0 }⟩ first =
      (⟨.httpVersionMinor,
        { req with httpVersionMinor := versionOf [first] }⟩, none) := by
    simp [consume, next, here, versionOf]
  rw [List.cons_append, feed_cons_none taken, feed_minor req [first] later]
  rfl

theorem feed_nameStart (req : Request) (token : Token text) :
    feed consume ⟨.headerLineStart, { req with headers }⟩ (text ++ rest) =
      feed consume ⟨.headerName,
        { req with headers := headers ++ [⟨text, []⟩] }⟩ rest := by
  obtain ⟨first, text, rfl⟩ := List.exists_cons_of_ne_nil token.1
  obtain ⟨here, later⟩ := List.forall_mem_cons.mp token.2
  obtain ⟨space, tab, cr, -⟩ := notToken_cases here
  have taken : consume ⟨.headerLineStart, { req with headers }⟩ first =
      (⟨.headerName,
        { req with headers := headers ++ [⟨[first], []⟩] }⟩, none) := by
    simp [consume, next, here, space, tab, cr]
  rw [List.cons_append, feed_cons_none taken, feed_name req [first] later]
  rfl

theorem feed_lwsStart (some : req.headers ≠ []) (spaces : Spaces text) :
    feed consume ⟨.headerLineStart, req⟩ (text ++ rest) =
      feed consume ⟨.headerLws, req⟩ rest := by
  obtain ⟨first, text, rfl⟩ := List.exists_cons_of_ne_nil spaces.1
  obtain ⟨here, later⟩ := List.forall_mem_cons.mp spaces.2
  have apart : first ≠ byte '\r' := by
    rcases here with rfl | rfl <;> decide
  have taken : consume ⟨.headerLineStart, req⟩ first =
      (⟨.headerLws, req⟩, none) := by
    simp [consume, next, apart, some, here]
  rw [List.cons_append, feed_cons_none taken, feed_lws later]

theorem feed_more (req : Request) (plain : Plain more)
    (apart : more.head? ≠ some (byte ' ')) :
    feed consume ⟨.headerLws,
        { req with headers := headers ++ [⟨name, value⟩] }⟩
        (more ++ (crlf ++ rest)) =
      feed consume ⟨.headerLineStart,
        { req with headers := headers ++ [⟨name, value ++ more⟩] }⟩ rest := by
  cases more with
  | nil => rw [List.nil_append, List.append_nil, feed_lws_crlf]
  | cons first more =>
      obtain ⟨here, later⟩ := List.forall_mem_cons.mp plain
      have cr := ne_cr_of_plain here
      have space : first ≠ byte ' ' := by
        rintro rfl
        exact apart rfl
      have tab : first ≠ byte '\t' := by
        rintro rfl
        cases here
      have taken : consume ⟨.headerLws,
          { req with headers := headers ++ [⟨name, value⟩] }⟩ first =
          (⟨.headerValue,
            { req with headers := headers ++ [⟨name, value ++ [first]⟩] }⟩,
            none) := by
        simp [consume, next, here, cr, space, tab, changeBack_concat,
          Header.pushValue]
      rw [List.cons_append, feed_cons_none taken,
        feed_value req (value ++ [first]) later, feed_value_crlf,
        List.append_assoc]
      rfl

theorem feed_requestLine {line : Bytes} (reads : RequestLine line req) :
    feed consume {} (line ++ rest) =
      feed consume ⟨.headerLineStart, req⟩ rest := by
  obtain @⟨method, uri, major, minor, token, uriText, majorDigits,
    minorDigits⟩ := reads
  simp only [List.append_assoc]
  rw [feed_methodStart token, feed_method_space,
    feed_uri { method } [] uriText, List.nil_append, feed_protocol,
    feed_majorStart { method, uri } majorDigits, feed_major_dot,
    feed_minorStart { method, uri, httpVersionMajor := versionOf major }
      minorDigits, feed_minor_crlf]

theorem feed_headerLines {lines : Bytes} (req : Request)
    (reads : HeaderLines lines headers) :
    feed consume ⟨.headerLineStart, { req with headers := [] }⟩
        (lines ++ rest) =
      feed consume ⟨.headerLineStart, { req with headers }⟩ rest := by
  induction reads generalizing rest with
  | nil => rfl
  | @header lines name value headers _ token plain induction =>
      simp only [List.append_assoc] at induction ⊢
      rw [induction, feed_nameStart req token, feed_name_colon,
        feed_value req [] plain, feed_value_crlf]
      rfl
  | @continued lines spaces name value more headers _ space plain apart
      induction =>
      have back : headers ++ [⟨name, value⟩] ≠ ([] : List Header) := by simp
      simp only [List.append_assoc] at induction ⊢
      rw [induction, feed_lwsStart back space, feed_more req plain apart]

theorem parse_requestText (reads : RequestText text req) :
    parse {} (text ++ rest) =
      ((⟨.expectingNewline3, req⟩, some true), rest) := by
  obtain @⟨line, lines, req, headers, lineReads, linesRead⟩ := reads
  have none : req = { req with headers := [] } := by
    cases lineReads
    rfl
  rw [parse, List.append_assoc, List.append_assoc, feed_requestLine lineReads,
    none, feed_headerLines req linesRead, feed_end]

end Http

end ChronoShare
