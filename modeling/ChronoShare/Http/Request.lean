import ChronoShare.Support.FixedWidth
import ChronoShare.Support.Incremental
import Mathlib.Data.List.Basic

/-!
# The parser of requests

The server reads a request byte by byte.  A byte either is taken in, completes
the request, or makes it invalid.
-/

namespace ChronoShare

namespace Http

def byte (char : Char) : UInt8 :=
  UInt8.ofNat char.toNat

/-- The bytes of a text of ASCII characters. -/
def ascii (text : String) : Bytes :=
  text.toList.map byte

def crlf : Bytes := [byte '\r', byte '\n']

structure Header where
  name : Bytes := []
  value : Bytes := []
  deriving DecidableEq, Repr

structure Request where
  method : Bytes := []
  uri : Bytes := []
  httpVersionMajor : Int32 := 0
  httpVersionMinor : Int32 := 0
  headers : List Header := []
  deriving DecidableEq, Repr

inductive ParserState where
  | methodStart
  | method
  | uri
  | httpVersionH
  | httpVersionT1
  | httpVersionT2
  | httpVersionP
  | httpVersionSlash
  | httpVersionMajorStart
  | httpVersionMajor
  | httpVersionMinorStart
  | httpVersionMinor
  | expectingNewline1
  | headerLineStart
  | headerLws
  | headerName
  | spaceBeforeHeaderValue
  | headerValue
  | expectingNewline2
  | expectingNewline3
  deriving DecidableEq, Repr

/-- The parser with the request it fills. -/
structure RequestParser where
  state : ParserState := .methodStart
  req : Request := {}
  deriving DecidableEq, Repr

/-- A byte from 128 on is a negative `char`, and no HTTP character. -/
def isChar (c : UInt8) : Bool :=
  c ≤ 127

def isCtl (c : UInt8) : Bool :=
  c ≤ 31 || c = 127

def isTspecial (c : UInt8) : Bool :=
  c ∈ ascii "()<>@,;:\\\"/[]?=\x7b\x7d \t"

def isDigit (c : UInt8) : Bool :=
  byte '0' ≤ c && c ≤ byte '9'

/-- The condition under which a byte belongs neither to a method nor to the
name of a header. -/
def notToken (input : UInt8) : Bool :=
  !isChar input || isCtl input || isTspecial input

/-- Another digit of a version; an `int` overflows without notice. -/
def pushDigit (version : Int32) (input : UInt8) : Int32 :=
  version * 10 + Int32.ofNat input.toNat - Int32.ofNat '0'.toNat

/-- A change of `headers.back ()`. -/
def changeBack (change : Header → Header) (headers : List Header) :
    List Header :=
  match headers.getLast? with
  | none => []
  | some last => headers.dropLast ++ [change last]

def Header.pushName (input : UInt8) (header : Header) : Header :=
  { header with name := header.name ++ [input] }

def Header.pushValue (input : UInt8) (header : Header) : Header :=
  { header with value := header.value ++ [input] }

namespace RequestParser

def reset (parser : RequestParser) : RequestParser :=
  { parser with state := .methodStart }

/-- Nothing changes, and the data is invalid. -/
def invalid (parser : RequestParser) : RequestParser × Option Bool :=
  (parser, some false)

def next (state : ParserState) (req : Request) : RequestParser × Option Bool :=
  (⟨state, req⟩, none)

def expect (parser : RequestParser) (input : UInt8) (char : Char)
    (state : ParserState) (req : Request) : RequestParser × Option Bool :=
  if input = byte char then next state req else parser.invalid

/-- The parser after one byte: `true` completes the request, `false` says that
the data is invalid, and `none` stands for `indeterminate`. -/
def consume (parser : RequestParser) (input : UInt8) :
    RequestParser × Option Bool :=
  let req := parser.req
  match parser.state with
  | .methodStart =>
      if notToken input then parser.invalid
      else next .method { req with method := req.method ++ [input] }
  | .method =>
      if input = byte ' ' then next .uri req
      else if notToken input then parser.invalid
      else next .method { req with method := req.method ++ [input] }
  | .uri =>
      if input = byte ' ' then next .httpVersionH req
      else if isCtl input then parser.invalid
      else next .uri { req with uri := req.uri ++ [input] }
  | .httpVersionH => parser.expect input 'H' .httpVersionT1 req
  | .httpVersionT1 => parser.expect input 'T' .httpVersionT2 req
  | .httpVersionT2 => parser.expect input 'T' .httpVersionP req
  | .httpVersionP => parser.expect input 'P' .httpVersionSlash req
  | .httpVersionSlash =>
      parser.expect input '/' .httpVersionMajorStart
        { req with httpVersionMajor := 0, httpVersionMinor := 0 }
  | .httpVersionMajorStart =>
      if isDigit input then
        next .httpVersionMajor
          { req with httpVersionMajor := pushDigit req.httpVersionMajor input }
      else parser.invalid
  | .httpVersionMajor =>
      if input = byte '.' then next .httpVersionMinorStart req
      else if isDigit input then
        next .httpVersionMajor
          { req with httpVersionMajor := pushDigit req.httpVersionMajor input }
      else parser.invalid
  | .httpVersionMinorStart =>
      if isDigit input then
        next .httpVersionMinor
          { req with httpVersionMinor := pushDigit req.httpVersionMinor input }
      else parser.invalid
  | .httpVersionMinor =>
      if input = byte '\r' then next .expectingNewline1 req
      else if isDigit input then
        next .httpVersionMinor
          { req with httpVersionMinor := pushDigit req.httpVersionMinor input }
      else parser.invalid
  | .expectingNewline1 => parser.expect input '\n' .headerLineStart req
  | .headerLineStart =>
      if input = byte '\r' then next .expectingNewline3 req
      else if req.headers ≠ [] ∧ (input = byte ' ' ∨ input = byte '\t') then
        next .headerLws req
      else if notToken input then parser.invalid
      else
        next .headerName
          { req with headers := req.headers ++ [⟨[input], []⟩] }
  | .headerLws =>
      if input = byte '\r' then next .expectingNewline2 req
      else if input = byte ' ' ∨ input = byte '\t' then next .headerLws req
      else if isCtl input then parser.invalid
      else
        next .headerValue
          { req with headers := changeBack (.pushValue input) req.headers }
  | .headerName =>
      if input = byte ':' then next .spaceBeforeHeaderValue req
      else if notToken input then parser.invalid
      else
        next .headerName
          { req with headers := changeBack (.pushName input) req.headers }
  | .spaceBeforeHeaderValue => parser.expect input ' ' .headerValue req
  | .headerValue =>
      if input = byte '\r' then next .expectingNewline2 req
      else if isCtl input then parser.invalid
      else
        next .headerValue
          { req with headers := changeBack (.pushValue input) req.headers }
  | .expectingNewline2 => parser.expect input '\n' .headerLineStart req
  | .expectingNewline3 => (parser, some (input = byte '\n'))

/-- `parse`, with the bytes that were not consumed. -/
def parse (parser : RequestParser) (input : Bytes) :
    (RequestParser × Option Bool) × Bytes :=
  Incremental.feed consume parser input

end RequestParser

end Http

end ChronoShare
