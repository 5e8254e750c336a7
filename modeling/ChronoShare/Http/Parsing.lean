import ChronoShare.Http.Grammar

/-!
# What the parser has read

In every state the parser has read the start of a request, and a state says
how far that start goes.  The parser therefore completes the requests and no
other text, and it gives up at the first byte that no request continues.
-/

namespace ChronoShare

namespace Http

open Incremental RequestParser

/-- A header line without its end. -/
inductive OpenLine : Bytes → List Header → Prop where
  | header {lines name value : Bytes} {headers : List Header} :
      HeaderLines lines headers → Token name → Plain value →
      OpenLine (lines ++ (name ++ ascii ": " ++ value))
        (headers ++ [⟨name, value⟩])
  | continued {lines spaces name value more : Bytes} {headers : List Header} :
      HeaderLines lines (headers ++ [⟨name, value⟩]) → Spaces spaces →
      Plain more → more ≠ [] → more.head? ≠ some (byte ' ') →
      OpenLine (lines ++ (spaces ++ more)) (headers ++ [⟨name, value ++ more⟩])

/-- A method and a uri with the piece that follows them. -/
def AfterUri (piece text : Bytes) (req : Request) : Prop :=
  ∃ method uri, Token method ∧ Uri uri ∧
    text = method ++ ascii " " ++ uri ++ piece ∧ req = { method, uri }

/-- A request line up to a piece behind the first number of its version. -/
def AfterMajor (piece text : Bytes) (req : Request) : Prop :=
  ∃ method uri major, Token method ∧ Uri uri ∧ Digits major ∧
    text = method ++ ascii " " ++ uri ++ ascii " HTTP/" ++ major ++ piece ∧
    req = { method, uri, httpVersionMajor := versionOf major }

/-- A request line up to a piece behind its version. -/
def AfterMinor (piece text : Bytes) (req : Request) : Prop :=
  ∃ method uri major minor, Token method ∧ Uri uri ∧ Digits major ∧
    Digits minor ∧
    text = method ++ ascii " " ++ uri ++ ascii " HTTP/" ++ major ++ ascii "." ++
      minor ++ piece ∧
    req = ⟨method, uri, versionOf major, versionOf minor, []⟩

/-- A request line with what follows it, which gives the headers. -/
def AfterLine (follows : Bytes → List Header → Prop) (text : Bytes)
    (req : Request) : Prop :=
  ∃ line lines base headers, RequestLine line base ∧ follows lines headers ∧
    text = line ++ lines ∧ req = { base with headers }

def Partial (parser : RequestParser) (text : Bytes) : Prop :=
  match parser.state with
  | .methodStart => text = [] ∧ parser.req = {}
  | .method => Token text ∧ parser.req = { method := text }
  | .uri => AfterUri [] text parser.req
  | .httpVersionH => AfterUri (ascii " ") text parser.req
  | .httpVersionT1 => AfterUri (ascii " H") text parser.req
  | .httpVersionT2 => AfterUri (ascii " HT") text parser.req
  | .httpVersionP => AfterUri (ascii " HTT") text parser.req
  | .httpVersionSlash => AfterUri (ascii " HTTP") text parser.req
  | .httpVersionMajorStart => AfterUri (ascii " HTTP/") text parser.req
  | .httpVersionMajor => AfterMajor [] text parser.req
  | .httpVersionMinorStart => AfterMajor (ascii ".") text parser.req
  | .httpVersionMinor => AfterMinor [] text parser.req
  | .expectingNewline1 => AfterMinor (ascii "\r") text parser.req
  | .headerLineStart => AfterLine HeaderLines text parser.req
  | .headerLws =>
      AfterLine (fun lines headers => headers ≠ [] ∧ ∃ before spaces,
        HeaderLines before headers ∧ Spaces spaces ∧ lines = before ++ spaces)
        text parser.req
  | .headerName =>
      AfterLine (fun lines headers => ∃ before name others,
        HeaderLines before others ∧ Token name ∧ lines = before ++ name ∧
          headers = others ++ [⟨name, []⟩]) text parser.req
  | .spaceBeforeHeaderValue =>
      AfterLine (fun lines headers => ∃ before name others,
        HeaderLines before others ∧ Token name ∧
          lines = before ++ (name ++ ascii ":") ∧
          headers = others ++ [⟨name, []⟩]) text parser.req
  | .headerValue => AfterLine OpenLine text parser.req
  | .expectingNewline2 =>
      AfterLine (fun lines headers => ∃ before, lines = before ++ ascii "\r" ∧
        HeaderLines (before ++ crlf) headers) text parser.req
  | .expectingNewline3 =>
      AfterLine (fun lines headers => ∃ before, lines = before ++ ascii "\r" ∧
        HeaderLines before headers) text parser.req

variable {input : UInt8} {text rest name value more piece lines : Bytes}
  {headers : List Header} {req : Request} {parser after : RequestParser}
  {state : ParserState} {char : Char}
  {follows later : Bytes → List Header → Prop}

theorem Token.push (token : Token text) (here : notToken input = false) :
    Token (text ++ [input]) :=
  ⟨by simp, List.forall_mem_append.mpr ⟨token.2, by simpa using here⟩⟩

theorem Token.single (here : notToken input = false) : Token [input] :=
  ⟨by simp, by simpa using here⟩

theorem Digits.push (digits : Digits text) (here : isDigit input = true) :
    Digits (text ++ [input]) :=
  ⟨by simp, List.forall_mem_append.mpr ⟨digits.2, by simpa using here⟩⟩

theorem Digits.single (here : isDigit input = true) : Digits [input] :=
  ⟨by simp, by simpa using here⟩

theorem Spaces.push (spaces : Spaces text)
    (here : input = byte ' ' ∨ input = byte '\t') : Spaces (text ++ [input]) :=
  ⟨by simp, List.forall_mem_append.mpr ⟨spaces.2, by simpa using here⟩⟩

theorem Spaces.single (here : input = byte ' ' ∨ input = byte '\t') :
    Spaces [input] :=
  ⟨by simp, by simpa using here⟩

theorem plain_nil : Plain [] := by
  simp [Plain]

theorem Plain.push (plain : Plain text) (here : isCtl input = false) :
    Plain (text ++ [input]) :=
  List.forall_mem_append.mpr ⟨plain, by simpa using here⟩

theorem AfterUri.push (holds : AfterUri piece text req) :
    AfterUri (piece ++ [input]) (text ++ [input]) req := by
  obtain ⟨method, uri, token, uriText, rfl, rfl⟩ := holds
  exact ⟨method, uri, token, uriText, by simp, rfl⟩

theorem AfterMajor.push (holds : AfterMajor piece text req) :
    AfterMajor (piece ++ [input]) (text ++ [input]) req := by
  obtain ⟨method, uri, major, token, uriText, digits, rfl, rfl⟩ := holds
  exact ⟨method, uri, major, token, uriText, digits, by simp, rfl⟩

theorem AfterMinor.push (holds : AfterMinor piece text req) :
    AfterMinor (piece ++ [input]) (text ++ [input]) req := by
  obtain ⟨method, uri, major, minor, token, uriText, digits, others, rfl, rfl⟩
    := holds
  exact ⟨method, uri, major, minor, token, uriText, digits, others, by simp,
    rfl⟩

theorem AfterLine.push (change : List Header → List Header)
    (step : ∀ lines headers, follows lines headers →
      later (lines ++ [input]) (change headers))
    (holds : AfterLine follows text req) :
    AfterLine later (text ++ [input])
      { req with headers := change req.headers } := by
  obtain ⟨line, lines, base, headers, lineReads, here, rfl, rfl⟩ := holds
  exact ⟨line, lines ++ [input], base, change headers, lineReads,
    step lines headers here, List.append_assoc .., rfl⟩

theorem OpenLine.push (reads : OpenLine text headers)
    (here : isCtl input = false) :
    OpenLine (text ++ [input]) (changeBack (.pushValue input) headers) := by
  cases reads with
  | header lines token plain =>
      have further := OpenLine.header lines token (plain.push here)
      simpa [changeBack_concat, Header.pushValue] using further
  | continued lines spaces plain some apart =>
      have head := apart
      obtain ⟨first, others, rfl⟩ := List.exists_cons_of_ne_nil some
      have further := OpenLine.continued lines spaces (plain.push here)
        (by simp) (by simpa using apart)
      simpa [changeBack_concat, Header.pushValue] using further

theorem OpenLine.close (reads : OpenLine text headers) :
    HeaderLines (text ++ crlf) headers := by
  cases reads with
  | header lines token plain =>
      have closed := HeaderLines.header lines token plain
      simpa using closed
  | continued lines spaces plain some apart =>
      have closed := HeaderLines.continued lines spaces plain apart
      simpa using closed

theorem expect_none
    (taken : parser.expect input char state req = (after, none)) :
    input = byte char ∧ after = ⟨state, req⟩ := by
  rw [expect] at taken
  split_ifs at taken with here
  · cases taken
    exact ⟨here, rfl⟩
  · cases taken

theorem exists_back (some : headers ≠ []) :
    ∃ others name value, headers = others ++ [Header.mk name value] :=
  ⟨headers.dropLast, (headers.getLast some).name, (headers.getLast some).value,
    (List.dropLast_append_getLast some).symm⟩

theorem partial_expect
    (taken : parser.expect input char state req = (after, none))
    (step : Partial ⟨state, req⟩ (text ++ [byte char])) :
    Partial after (text ++ [input]) := by
  obtain ⟨rfl, rfl⟩ := expect_none taken
  exact step

theorem partial_methodStart
    (taken : consume ⟨.methodStart, req⟩ input = (after, none))
    (holds : Partial ⟨.methodStart, req⟩ text) :
    Partial after (text ++ [input]) := by
  obtain ⟨rfl, here⟩ := holds
  cases here
  simp only [consume, next, invalid] at taken
  split_ifs at taken with apart
  · cases taken
  · cases taken
    exact ⟨.single (by simpa using apart), rfl⟩

theorem partial_method
    (taken : consume ⟨.method, req⟩ input = (after, none))
    (holds : Partial ⟨.method, req⟩ text) :
    Partial after (text ++ [input]) := by
  obtain ⟨token, here⟩ := holds
  cases here
  simp only [consume, next, invalid] at taken
  split_ifs at taken with space apart
  · cases taken
    subst space
    exact ⟨text, [], token, by simp [Uri], by simp [ascii], rfl⟩
  · cases taken
  · cases taken
    exact ⟨token.push (by simpa using apart), rfl⟩

theorem partial_uri
    (taken : consume ⟨.uri, req⟩ input = (after, none))
    (holds : Partial ⟨.uri, req⟩ text) :
    Partial after (text ++ [input]) := by
  simp only [consume, next, invalid] at taken
  split_ifs at taken with space control
  · cases taken
    subst space
    exact AfterUri.push holds
  · cases taken
  · cases taken
    obtain ⟨method, uri, token, uriText, rfl, here⟩ := holds
    cases here
    have here : input ≠ byte ' ' ∧ isCtl input = false :=
      ⟨space, by simpa using control⟩
    refine ⟨method, uri ++ [input], token, ?_, by simp, rfl⟩
    exact List.forall_mem_append.mpr ⟨uriText, by simpa using here⟩

theorem partial_httpVersionSlash
    (taken : consume ⟨.httpVersionSlash, req⟩ input = (after, none))
    (holds : Partial ⟨.httpVersionSlash, req⟩ text) :
    Partial after (text ++ [input]) := by
  refine partial_expect taken ?_
  obtain ⟨method, uri, token, uriText, rfl, here⟩ := holds
  cases here
  exact ⟨method, uri, token, uriText, List.append_assoc .., rfl⟩

theorem partial_httpVersionMajorStart
    (taken : consume ⟨.httpVersionMajorStart, req⟩ input = (after, none))
    (holds : Partial ⟨.httpVersionMajorStart, req⟩ text) :
    Partial after (text ++ [input]) := by
  simp only [consume, next, invalid] at taken
  split_ifs at taken with digit
  · cases taken
    obtain ⟨method, uri, token, uriText, rfl, here⟩ := holds
    cases here
    exact ⟨method, uri, [input], token, uriText, .single digit, by simp,
      rfl⟩
  · cases taken

theorem partial_httpVersionMajor
    (taken : consume ⟨.httpVersionMajor, req⟩ input = (after, none))
    (holds : Partial ⟨.httpVersionMajor, req⟩ text) :
    Partial after (text ++ [input]) := by
  simp only [consume, next, invalid] at taken
  split_ifs at taken with dot digit
  · cases taken
    subst dot
    exact AfterMajor.push holds
  · cases taken
    obtain ⟨method, uri, major, token, uriText, digits, rfl, here⟩ := holds
    cases here
    refine ⟨method, uri, major ++ [input], token, uriText,
      digits.push digit, by simp, ?_⟩
    rw [versionOf_concat]
  · cases taken

theorem partial_httpVersionMinorStart
    (taken : consume ⟨.httpVersionMinorStart, req⟩ input = (after, none))
    (holds : Partial ⟨.httpVersionMinorStart, req⟩ text) :
    Partial after (text ++ [input]) := by
  simp only [consume, next, invalid] at taken
  split_ifs at taken with digit
  · cases taken
    obtain ⟨method, uri, major, token, uriText, digits, rfl, here⟩ := holds
    cases here
    exact ⟨method, uri, major, [input], token, uriText, digits,
      .single digit, by simp, rfl⟩
  · cases taken

theorem partial_httpVersionMinor
    (taken : consume ⟨.httpVersionMinor, req⟩ input = (after, none))
    (holds : Partial ⟨.httpVersionMinor, req⟩ text) :
    Partial after (text ++ [input]) := by
  simp only [consume, next, invalid] at taken
  split_ifs at taken with cr digit
  · cases taken
    subst cr
    exact AfterMinor.push holds
  · cases taken
    obtain ⟨method, uri, major, minor, token, uriText, digits, others, rfl,
      here⟩ := holds
    cases here
    refine ⟨method, uri, major, minor ++ [input], token, uriText, digits,
      others.push digit, by simp, ?_⟩
    rw [versionOf_concat]
  · cases taken

theorem partial_expectingNewline1
    (taken : consume ⟨.expectingNewline1, req⟩ input = (after, none))
    (holds : Partial ⟨.expectingNewline1, req⟩ text) :
    Partial after (text ++ [input]) := by
  refine partial_expect taken ?_
  obtain ⟨method, uri, major, minor, token, uriText, digits, others, rfl,
    here⟩ := holds
  cases here
  have line := RequestLine.intro token uriText digits others
  exact ⟨_, [], _, [], line, .nil, by simp [ascii, crlf], rfl⟩

theorem partial_headerLineStart
    (taken : consume ⟨.headerLineStart, req⟩ input = (after, none))
    (holds : Partial ⟨.headerLineStart, req⟩ text) :
    Partial after (text ++ [input]) := by
  simp only [consume, next, invalid] at taken
  split_ifs at taken with cr continues apart
  · cases taken
    subst cr
    exact AfterLine.push id (fun lines _ reads => ⟨lines, rfl, reads⟩) holds
  · cases taken
    obtain ⟨line, lines, base, headers, lineReads, reads, rfl, rfl⟩ := holds
    exact ⟨line, lines ++ [input], base, headers, lineReads,
      ⟨continues.1, lines, [input], reads, .single continues.2, rfl⟩,
      List.append_assoc .., rfl⟩
  · cases taken
  · cases taken
    refine AfterLine.push (· ++ [⟨[input], []⟩]) ?_ holds
    intro lines headers reads
    exact ⟨lines, [input], headers, reads, .single (by simpa using apart),
      rfl, rfl⟩

theorem partial_headerLws
    (taken : consume ⟨.headerLws, req⟩ input = (after, none))
    (holds : Partial ⟨.headerLws, req⟩ text) :
    Partial after (text ++ [input]) := by
  simp only [consume, next, invalid] at taken
  split_ifs at taken with cr space control
  · cases taken
    subst cr
    refine AfterLine.push id ?_ holds
    rintro lines headers ⟨back, before, spaces, reads, white, rfl⟩
    obtain ⟨others, name, value, rfl⟩ := exists_back back
    have closed := HeaderLines.continued reads white plain_nil (by simp)
    refine ⟨before ++ spaces, rfl, ?_⟩
    simpa using closed
  · cases taken
    refine AfterLine.push id ?_ holds
    rintro lines headers ⟨back, before, spaces, reads, white, rfl⟩
    exact ⟨back, before, spaces ++ [input], reads, white.push space,
      List.append_assoc ..⟩
  · cases taken
  · cases taken
    refine AfterLine.push (changeBack (.pushValue input)) ?_ holds
    rintro lines headers ⟨back, before, spaces, reads, white, rfl⟩
    obtain ⟨others, name, value, rfl⟩ := exists_back back
    have plain : Plain [input] := by simpa [Plain] using control
    have apart : [input].head? ≠ some (byte ' ') := by
      simpa using fun same => space (.inl same)
    have opened := OpenLine.continued reads white plain (by simp) apart
    simpa [changeBack_concat, Header.pushValue] using opened

theorem partial_headerName
    (taken : consume ⟨.headerName, req⟩ input = (after, none))
    (holds : Partial ⟨.headerName, req⟩ text) :
    Partial after (text ++ [input]) := by
  simp only [consume, next, invalid] at taken
  split_ifs at taken with colon apart
  · cases taken
    subst colon
    refine AfterLine.push id ?_ holds
    rintro lines headers ⟨before, name, others, reads, token, rfl, rfl⟩
    exact ⟨before, name, others, reads, token, by simp [ascii], rfl⟩
  · cases taken
  · cases taken
    refine AfterLine.push (changeBack (.pushName input)) ?_ holds
    rintro lines headers ⟨before, name, others, reads, token, rfl, rfl⟩
    exact ⟨before, name ++ [input], others, reads,
      token.push (by simpa using apart), List.append_assoc ..,
      changeBack_concat ..⟩

theorem partial_spaceBeforeHeaderValue
    (taken : consume ⟨.spaceBeforeHeaderValue, req⟩ input = (after, none))
    (holds : Partial ⟨.spaceBeforeHeaderValue, req⟩ text) :
    Partial after (text ++ [input]) := by
  refine partial_expect taken ?_
  refine AfterLine.push id ?_ holds
  rintro lines headers ⟨before, name, others, reads, token, rfl, rfl⟩
  have opened := OpenLine.header reads token plain_nil
  simpa [ascii] using opened

theorem partial_headerValue
    (taken : consume ⟨.headerValue, req⟩ input = (after, none))
    (holds : Partial ⟨.headerValue, req⟩ text) :
    Partial after (text ++ [input]) := by
  simp only [consume, next, invalid] at taken
  split_ifs at taken with cr control
  · cases taken
    subst cr
    refine AfterLine.push id ?_ holds
    exact fun lines headers opened => ⟨lines, rfl, opened.close⟩
  · cases taken
  · cases taken
    refine AfterLine.push (changeBack (.pushValue input)) ?_ holds
    exact fun lines headers opened => opened.push (by simpa using control)

theorem partial_expectingNewline2
    (taken : consume ⟨.expectingNewline2, req⟩ input = (after, none))
    (holds : Partial ⟨.expectingNewline2, req⟩ text) :
    Partial after (text ++ [input]) := by
  refine partial_expect taken ?_
  refine AfterLine.push id ?_ holds
  rintro lines headers ⟨before, rfl, reads⟩
  simpa [ascii, crlf] using reads

theorem partial_step (taken : consume parser input = (after, none))
    (holds : Partial parser text) : Partial after (text ++ [input]) := by
  obtain ⟨state, req⟩ := parser
  cases state with
  | methodStart => exact partial_methodStart taken holds
  | method => exact partial_method taken holds
  | uri => exact partial_uri taken holds
  | httpVersionH => exact partial_expect taken (AfterUri.push holds)
  | httpVersionT1 => exact partial_expect taken (AfterUri.push holds)
  | httpVersionT2 => exact partial_expect taken (AfterUri.push holds)
  | httpVersionP => exact partial_expect taken (AfterUri.push holds)
  | httpVersionSlash => exact partial_httpVersionSlash taken holds
  | httpVersionMajorStart => exact partial_httpVersionMajorStart taken holds
  | httpVersionMajor => exact partial_httpVersionMajor taken holds
  | httpVersionMinorStart => exact partial_httpVersionMinorStart taken holds
  | httpVersionMinor => exact partial_httpVersionMinor taken holds
  | expectingNewline1 => exact partial_expectingNewline1 taken holds
  | headerLineStart => exact partial_headerLineStart taken holds
  | headerLws => exact partial_headerLws taken holds
  | headerName => exact partial_headerName taken holds
  | spaceBeforeHeaderValue => exact partial_spaceBeforeHeaderValue taken holds
  | headerValue => exact partial_headerValue taken holds
  | expectingNewline2 => exact partial_expectingNewline2 taken holds
  | expectingNewline3 => cases taken

theorem newline_of_complete
    (taken : consume parser input = (after, some true)) :
    parser.state = .expectingNewline3 ∧ input = byte '\n' ∧ after = parser := by
  obtain ⟨state, req⟩ := parser
  cases state
  case expectingNewline3 =>
    simp only [consume, Prod.mk.injEq, Option.some.injEq,
      decide_eq_true_eq] at taken
    exact ⟨rfl, taken.2, taken.1.symm⟩
  all_goals
    simp only [consume, next, invalid, expect] at taken
    split_ifs at taken
    all_goals cases taken

theorem complete_of_partial (taken : consume parser input = (after, some true))
    (holds : Partial parser text) :
    RequestText (text ++ [input]) after.req := by
  obtain ⟨atEnd, rfl, rfl⟩ := newline_of_complete taken
  rw [Partial, atEnd] at holds
  obtain ⟨line, lines, base, headers, lineReads, ⟨before, rfl, reads⟩, rfl,
    here⟩ := holds
  rw [here]
  have complete := RequestText.intro lineReads reads
  simpa [ascii, crlf] using complete

theorem partial_of_undecided
    (undecided : feed consume {} text = ((after, none), rest)) :
    Partial after text :=
  feed_invariant (fun _ _ _ _ taken holds => partial_step taken holds)
    (show Partial {} [] from ⟨rfl, rfl⟩) undecided

/-- Bytes that complete a request from a state of the parser. -/
def closing : ParserState → Bytes
  | .methodStart => ascii "GET / HTTP/1.0\r\n\r\n"
  | .method => ascii " / HTTP/1.0\r\n\r\n"
  | .uri => ascii " HTTP/1.0\r\n\r\n"
  | .httpVersionH => ascii "HTTP/1.0\r\n\r\n"
  | .httpVersionT1 => ascii "TTP/1.0\r\n\r\n"
  | .httpVersionT2 => ascii "TP/1.0\r\n\r\n"
  | .httpVersionP => ascii "P/1.0\r\n\r\n"
  | .httpVersionSlash => ascii "/1.0\r\n\r\n"
  | .httpVersionMajorStart => ascii "1.0\r\n\r\n"
  | .httpVersionMajor => ascii ".0\r\n\r\n"
  | .httpVersionMinorStart => ascii "0\r\n\r\n"
  | .httpVersionMinor => ascii "\r\n\r\n"
  | .expectingNewline1 => ascii "\n\r\n"
  | .headerLineStart => ascii "\r\n"
  | .headerLws => ascii "\r\n\r\n"
  | .headerName => ascii ": \r\n\r\n"
  | .spaceBeforeHeaderValue => ascii " \r\n\r\n"
  | .headerValue => ascii "\r\n\r\n"
  | .expectingNewline2 => ascii "\n\r\n"
  | .expectingNewline3 => ascii "\n"

theorem feed_closing (parser : RequestParser) :
    ∃ after, feed consume parser (closing parser.state) =
      ((after, some true), []) := by
  obtain ⟨state, req⟩ := parser
  cases state
  all_goals exact ⟨_, rfl⟩

theorem closing_ne_nil (state : ParserState) : closing state ≠ [] := by
  cases state
  all_goals decide

theorem requestText_of_parse
    (complete : parse {} text = ((after, some true), rest)) :
    ∃ taken, text = taken ++ rest ∧ RequestText taken after.req := by
  obtain ⟨before, item, middle, rfl, undecided, stops⟩ :=
    exists_item_of_some complete
  refine ⟨before ++ [item], by simp, ?_⟩
  exact complete_of_partial stops (partial_of_undecided undecided)

theorem viable_of_undecided
    (undecided : parse {} text = ((after, none), rest)) :
    ∃ more req, more ≠ [] ∧ RequestText (text ++ more) req := by
  obtain ⟨last, closed⟩ := feed_closing after
  have complete : parse {} (text ++ closing after.state) =
      ((last, some true), []) := by
    rw [parse] at undecided ⊢
    rw [feed_append_none undecided, closed]
  obtain ⟨taken, split, reads⟩ := requestText_of_parse complete
  rw [List.append_nil] at split
  subst split
  exact ⟨closing after.state, last.req, closing_ne_nil _, reads⟩

theorem nil_of_decided {verdict : Bool}
    (decided : parse {} text = ((after, some verdict), rest))
    (reads : RequestText (text ++ more) req) :
    verdict = true ∧ rest = [] ∧ more = [] := by
  have complete : parse {} (text ++ more ++ []) =
      ((⟨.expectingNewline3, req⟩, some true), []) := parse_requestText reads
  rw [List.append_nil, parse, feed_append_some decided] at complete
  simp only [Prod.mk.injEq, Option.some.injEq, List.append_eq_nil_iff]
    at complete
  exact ⟨complete.1.2, complete.2⟩

/-- The parser completes exactly the texts of requests, and takes nothing of
what follows them. -/
theorem parse_complete_iff :
    (∃ after, after.req = req ∧
        parse {} text = ((after, some true), rest)) ↔
      ∃ taken, text = taken ++ rest ∧ RequestText taken req := by
  constructor
  · rintro ⟨after, rfl, complete⟩
    exact requestText_of_parse complete
  · rintro ⟨taken, rfl, reads⟩
    exact ⟨⟨.expectingNewline3, req⟩, rfl, parse_requestText reads⟩

theorem parse_undecided_iff :
    (parse {} text).1.2 = none ↔
      ∃ more req, more ≠ [] ∧ RequestText (text ++ more) req := by
  rcases decided : parse {} text with ⟨⟨after, - | verdict⟩, rest⟩
  · exact ⟨fun _ => viable_of_undecided decided, fun _ => rfl⟩
  · constructor
    · intro undecided
      cases undecided
    rintro ⟨more, req, some, reads⟩
    exact absurd (nil_of_decided decided reads).2.2 some

theorem parse_invalid_iff :
    (∃ after, parse {} text = ((after, some false), rest)) ↔
      ∃ before item, text = before ++ item :: rest ∧
        (∃ more req, more ≠ [] ∧ RequestText (before ++ more) req) ∧
        ¬ ∃ more req, RequestText (before ++ item :: more) req := by
  constructor
  · rintro ⟨after, stopped⟩
    obtain ⟨before, item, middle, rfl, undecided, stops⟩ :=
      exists_item_of_some stopped
    refine ⟨before, item, rfl, viable_of_undecided undecided, ?_⟩
    rintro ⟨more, req, reads⟩
    have here : parse {} (before ++ [item]) = ((after, some false), []) := by
      rw [parse, feed_append_none undecided, feed_cons_some stops]
    have whole : RequestText (before ++ [item] ++ more) req := by
      simpa using reads
    have verdict := (nil_of_decided here whole).1
    cases verdict
  · rintro ⟨before, item, rfl, viable, hopeless⟩
    have undecided := parse_undecided_iff.mpr viable
    rcases decided : parse {} before with ⟨⟨middle, verdict⟩, left⟩
    rw [decided] at undecided
    cases undecided
    rw [parse] at decided ⊢
    rw [feed_append_none decided]
    rcases taken : consume middle item with ⟨after, - | - | -⟩
    · have further : parse {} (before ++ [item]) = ((after, none), []) := by
        rw [parse, feed_append_none decided, feed_cons_none taken, feed_nil]
      obtain ⟨more, req, -, reads⟩ := viable_of_undecided further
      exact absurd ⟨more, req, by simpa using reads⟩ hopeless
    · exact ⟨after, feed_cons_some taken⟩
    · have complete := complete_of_partial taken (partial_of_undecided decided)
      exact absurd ⟨[], after.req, complete⟩ hopeless

/-- The parser completes the requests of the grammar and no other text,
taking nothing of what follows them; it waits on their proper starts; and it
gives up at the first byte that no request continues. -/
theorem parser_recognises_requests (text rest : Bytes) (req : Request) :
    ((∃ after, after.req = req ∧
        parse {} text = ((after, some true), rest)) ↔
      ∃ taken, text = taken ++ rest ∧ RequestText taken req) ∧
    ((parse {} text).1.2 = none ↔
      ∃ more req, more ≠ [] ∧ RequestText (text ++ more) req) ∧
    ((∃ after, parse {} text = ((after, some false), rest)) ↔
      ∃ before item, text = before ++ item :: rest ∧
        (∃ more req, more ≠ [] ∧ RequestText (before ++ more) req) ∧
        ¬ ∃ more req, RequestText (before ++ item :: more) req) :=
  ⟨parse_complete_iff, parse_undecided_iff, parse_invalid_iff⟩

end Http

end ChronoShare
