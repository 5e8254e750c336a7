import ChronoShare.Http.Reply
import ChronoShare.Support.Paths
import ChronoShare.Support.Separated

/-!
# The handler of requests

The handler decodes the uri of a request and answers with the file of that
name below the document root.  Whatever the request says, files outside the
root play no part in the answer.
-/

namespace ChronoShare

namespace Http

/-- White space in the locale of the server. -/
def isSpace (c : UInt8) : Bool :=
  c = byte ' ' || (9 ≤ c && c ≤ 13)

def hexDigit (c : UInt8) : Option Nat :=
  if isDigit c then some (c.toNat - '0'.toNat)
  else if byte 'a' ≤ c ∧ c ≤ byte 'f' then some (c.toNat - 'a'.toNat + 10)
  else if byte 'A' ≤ c ∧ c ≤ byte 'F' then some (c.toNat - 'A'.toNat + 10)
  else none

/-- The sign of a number, and what stands behind it. -/
def takeSign : Bytes → Bool × Bytes
  | [] => (false, [])
  | c :: rest =>
      if c = byte '-' then (true, rest)
      else if c = byte '+' then (false, rest)
      else (false, c :: rest)

/-- A number to the base 16 may start with `0x`. -/
def dropBase : Bytes → Bytes
  | zero :: x :: rest =>
      if zero = byte '0' ∧ (x = byte 'x' ∨ x = byte 'X') then rest
      else zero :: x :: rest
  | text => text

/-- `is >> std::hex >> value` for a stream of a few characters.  White space in
front and anything behind the digits are passed over. -/
def extractHex (text : Bytes) : Option Int :=
  let (negative, text) := takeSign (text.dropWhile isSpace)
  let digits := (dropBase text).map hexDigit |>.takeWhile Option.isSome
  if digits = [] then none
  else
    let value : Nat :=
      digits.foldl (fun value digit => value * 16 + digit.getD 0) 0
    some (if negative then -(value : Int) else value)

/-- `static_cast<char>`. -/
def charOf (value : Int) : UInt8 :=
  UInt8.ofNat (value % 256).toNat

/-- The text that a uri stands for, if every `%` in it can be decoded. -/
def urlDecode : Bytes → Option Bytes
  | [] => some []
  | c :: rest =>
      if c = byte '%' then
        match rest with
        | first :: second :: rest =>
            match extractHex [first, second] with
            | some value => (urlDecode rest).map (charOf value :: ·)
            | none => none
        | _ => none
      else if c = byte '+' then (urlDecode rest).map (byte ' ' :: ·)
      else (urlDecode rest).map (c :: ·)

namespace MimeTypes

def mappings : List (Bytes × Bytes) :=
  [(ascii "gif", ascii "image/gif"),
    (ascii "htm", ascii "text/html"),
    (ascii "html", ascii "text/html"),
    (ascii "css", ascii "text/css"),
    (ascii "js", ascii "text/javascript"),
    (ascii "jpg", ascii "image/jpeg"),
    (ascii "png", ascii "image/png"),
    (ascii "ico", ascii "image/x-icon")]

def extensionToType (extension : Bytes) : Bytes :=
  match mappings.find? (·.1 = extension) with
  | some mapping => mapping.2
  | none => ascii "text/plain"

end MimeTypes

/-- `find_last_of`. -/
def findLastOf (c : UInt8) (text : Bytes) : Option Nat :=
  (text.reverse.idxOf? c).map (text.length - 1 - ·)

/-- The extension of a path: what follows its last dot, unless a slash follows
as well. -/
def extensionOf (requestPath : Bytes) : Bytes :=
  match findLastOf (byte '/') requestPath,
    findLastOf (byte '.') requestPath with
  | some lastSlashPos, some lastDotPos =>
      if lastSlashPos < lastDotPos then requestPath.drop (lastDotPos + 1)
      else []
  | _, _ => []

/-- The path is absolute, and has no `..` in it. -/
def Admissible (requestPath : Bytes) : Prop :=
  requestPath.head? = some (byte '/') ∧ ¬ Path.dotDot <:+: requestPath

instance (requestPath : Bytes) : Decidable (Admissible requestPath) :=
  inferInstanceAs (Decidable (_ ∧ _))

/-- A path that ends in a slash is the path of a directory. -/
def addIndex (requestPath : Bytes) : Bytes :=
  if requestPath.getLast? = some (byte '/') then
    requestPath ++ ascii "index.html"
  else requestPath

/-- The path of a file.  Only a C string is appended to the root. -/
def fullPath (absolutePath requestPath : Bytes) : Bytes :=
  absolutePath ++ requestPath.takeWhile (· ≠ 0)

/-- `handle_request`, where `file` gives the contents of the files that can be
opened for reading. -/
def handleRequest (file : Bytes → Option Bytes) (absolutePath : Bytes)
    (req : Request) (rep : Reply) : Reply :=
  match urlDecode req.uri with
  | none => stockReply .badRequest
  | some requestPath =>
      if ¬ Admissible requestPath then stockReply .badRequest
      else
        let requestPath := addIndex requestPath
        match file (fullPath absolutePath requestPath) with
        | none => stockReply .notFound
        | some data =>
            let content := rep.content ++ data
            ⟨.ok, contentHeaders content
              (MimeTypes.extensionToType (extensionOf requestPath)), content⟩

/-- A uri that stands for a text: a byte may be written as itself, as its two
hexadecimal digits, and a space as a plus sign. -/
inductive Encodes : Bytes → Bytes → Prop where
  | nil : Encodes [] []
  | plain {uri text : Bytes} {c : UInt8} :
      c ≠ byte '%' → c ≠ byte '+' → Encodes uri text →
      Encodes (c :: uri) (c :: text)
  | plus {uri text : Bytes} : Encodes uri text →
      Encodes (byte '+' :: uri) (byte ' ' :: text)
  | hex {uri text : Bytes} {first second : UInt8} {high low : Nat} :
      hexDigit first = some high → hexDigit second = some low →
      Encodes uri text →
      Encodes (byte '%' :: first :: second :: uri)
        (UInt8.ofNat (16 * high + low) :: text)

variable {uri text rest root requestPath absolutePath : Bytes} {c : UInt8}
  {first second : UInt8} {high low : Nat} {req : Request} {rep : Reply}
  {file other : Bytes → Option Bytes}

theorem hexDigit_bounds (digit : hexDigit c = some high) :
    high < 16 ∧ 48 ≤ c.toNat ∧ c.toNat ≤ 102 ∧ c.toNat ≠ 88 := by
  simp only [hexDigit, isDigit, byte, Bool.and_eq_true, decide_eq_true_eq,
    UInt8.le_iff_toNat_le] at digit
  split_ifs at digit with decimal lower upper
  all_goals
    cases digit
    simp at *
    omega

theorem hexDigit_cases (digit : hexDigit c = some high) :
    isSpace c = false ∧ c ≠ byte '-' ∧ c ≠ byte '+' ∧ c ≠ byte 'x' ∧
      c ≠ byte 'X' := by
  obtain ⟨-, lower, upper, apart⟩ := hexDigit_bounds digit
  refine ⟨?_, ?_, ?_, ?_, ?_⟩
  · simp only [isSpace, byte, Bool.or_eq_false_iff, Bool.and_eq_false_iff,
      decide_eq_false_iff_not, UInt8.le_iff_toNat_le, ← UInt8.toNat_inj]
    simp
    omega
  all_goals
    rintro rfl
    revert lower upper apart
    decide

theorem extractHex_digits (highDigit : hexDigit first = some high)
    (lowDigit : hexDigit second = some low) :
    extractHex [first, second] = some ((16 * high + low : Nat) : Int) := by
  obtain ⟨space, minus, plus, -⟩ := hexDigit_cases highDigit
  obtain ⟨-, -, -, x, upperX⟩ := hexDigit_cases lowDigit
  simp [extractHex, takeSign, dropBase, space, minus, plus, x, upperX,
    highDigit, lowDigit]
  omega

theorem charOf_digits (highDigit : hexDigit first = some high)
    (lowDigit : hexDigit second = some low) :
    charOf (16 * high + low : Nat) = UInt8.ofNat (16 * high + low) := by
  have small : 16 * high + low < 256 := by
    have highSmall := (hexDigit_bounds highDigit).1
    have lowSmall := (hexDigit_bounds lowDigit).1
    omega
  have unchanged : ((16 * high + low : Nat) % 256 : Int).toNat =
      16 * high + low := by
    omega
  rw [charOf, unchanged]

theorem urlDecode_plain (percent : c ≠ byte '%') (plus : c ≠ byte '+') :
    urlDecode (c :: uri) = (urlDecode uri).map (c :: ·) := by
  rcases uri with - | ⟨first, - | ⟨second, uri⟩⟩
  all_goals simp [urlDecode, percent, plus]

theorem urlDecode_plus :
    urlDecode (byte '+' :: uri) = (urlDecode uri).map (byte ' ' :: ·) := by
  have percent : byte '+' ≠ byte '%' := by decide
  rcases uri with - | ⟨first, - | ⟨second, uri⟩⟩
  all_goals simp [urlDecode, percent]

theorem urlDecode_hex (highDigit : hexDigit first = some high)
    (lowDigit : hexDigit second = some low) :
    urlDecode (byte '%' :: first :: second :: uri) =
      (urlDecode uri).map (UInt8.ofNat (16 * high + low) :: ·) := by
  rw [urlDecode, if_pos rfl, extractHex_digits highDigit lowDigit,
    ← charOf_digits highDigit lowDigit]

theorem urlDecode_of_encodes (encodes : Encodes uri text) :
    urlDecode uri = some text := by
  induction encodes with
  | nil => rfl
  | plain percent plus _ induction =>
      rw [urlDecode_plain percent plus, induction]
      rfl
  | plus _ induction =>
      rw [urlDecode_plus, induction]
      rfl
  | hex highDigit lowDigit _ induction =>
      rw [urlDecode_hex highDigit lowDigit, induction]
      rfl

theorem resolve_append_below {root below : Path}
    (descends : Path.dotDot ∉ below) :
    Path.resolve root <+: Path.resolve (root ++ below) := by
  induction below using List.reverseRecOn with
  | nil => simp
  | append_singleton below element induction =>
      simp only [List.mem_append, List.mem_singleton, not_or] at descends
      rw [← List.append_assoc, Path.resolve_concat, Path.descend,
        if_neg (Ne.symm descends.2)]
      have earlier := induction descends.1
      split_ifs
      · exact earlier
      · exact earlier.trans (List.prefix_append _ _)

theorem resolve_elements (path : Bytes) :
    Path.resolve (Path.elements path) =
      Path.resolve ((path.splitOn 0x2F).filter (· ≠ [])) := by
  rw [Path.elements]
  split_ifs with slash
  · rw [Path.resolve_concat, Path.descend, if_pos rfl]
  · rw [List.append_nil]

/-- The path leads to the root or to a place below it. -/
def Below (absolutePath path : Bytes) : Prop :=
  Path.resolve (Path.elements absolutePath) <+:
    Path.resolve (Path.elements path)

theorem below_append (absolute : requestPath.head? = some (byte '/'))
    (descends : Path.dotDot ∉ requestPath.splitOn 0x2F) :
    Below absolutePath (absolutePath ++ requestPath) := by
  obtain ⟨rest, rfl⟩ := List.head?_eq_some_iff.mp absolute
  have slash : byte '/' = 0x2F := by decide
  have parts : (byte '/' :: rest).splitOn 0x2F = [] :: rest.splitOn 0x2F := by
    rw [slash]
    simpa using splitOn_append_cons 0x2F [] rest
  rw [parts] at descends
  rw [Below, resolve_elements, resolve_elements, slash, splitOn_append_cons,
    List.filter_append]
  apply resolve_append_below
  intro member
  exact descends (List.mem_cons_of_mem _ (List.mem_of_mem_filter member))

theorem splitOn_directory (path : Bytes) :
    (path ++ byte '/' :: ascii "index.html").splitOn 0x2F =
      path.splitOn 0x2F ++ [ascii "index.html"] := by
  have slash : byte '/' = 0x2F := by decide
  rw [slash, splitOn_append_cons]
  congr 1

theorem dotDot_notMem_addIndex (admissible : Admissible requestPath) :
    Path.dotDot ∉
      ((addIndex requestPath).takeWhile (· ≠ 0)).splitOn 0x2F := by
  have cut : Path.dotDot ∉ (requestPath.takeWhile (· ≠ 0)).splitOn 0x2F := by
    intro member
    exact admissible.2 ((isInfix_of_mem_splitOn member).trans
      (List.takeWhile_prefix _).isInfix)
  rw [addIndex]
  split_ifs with directory
  · rw [List.takeWhile_append]
    split_ifs
    · obtain ⟨path, rfl⟩ := List.getLast?_eq_some_iff.mp directory
      have index : (ascii "index.html").takeWhile (· ≠ 0) =
          ascii "index.html" := by decide
      rw [index, List.append_assoc, List.singleton_append, splitOn_directory]
      intro member
      rcases List.mem_append.mp member with part | last
      · exact admissible.2 ((isInfix_of_mem_splitOn part).trans
          (List.prefix_append _ _).isInfix)
      · exact absurd (List.mem_singleton.mp last) (by decide)
    · exact cut
  · exact cut

theorem head?_addIndex (admissible : Admissible requestPath) :
    ((addIndex requestPath).takeWhile (· ≠ 0)).head? = some (byte '/') := by
  obtain ⟨rest, rfl⟩ := List.head?_eq_some_iff.mp admissible.1
  have visible : byte '/' ≠ 0 := by decide
  rw [addIndex]
  split_ifs
  all_goals simp [visible]

theorem below_fullPath (admissible : Admissible requestPath) :
    Below absolutePath (fullPath absolutePath (addIndex requestPath)) :=
  below_append (head?_addIndex admissible)
    (dotDot_notMem_addIndex admissible)

theorem handleRequest_congr
    (same : ∀ path, Below absolutePath path → file path = other path) :
    handleRequest file absolutePath req rep =
      handleRequest other absolutePath req rep := by
  rw [handleRequest, handleRequest]
  cases urlDecode req.uri with
  | none => rfl
  | some requestPath =>
      by_cases admissible : Admissible requestPath
      · simp only [not_not.mpr admissible, if_false]
        rw [same _ (below_fullPath admissible)]
      · simp only [admissible, not_false_eq_true, if_true]

theorem plain_extensionToType (extension : Bytes) :
    Plain (MimeTypes.extensionToType extension) := by
  have mapped : ∀ mapping ∈ MimeTypes.mappings, Plain mapping.2 := by
    simp only [MimeTypes.mappings, List.forall_mem_cons]
    decide
  rw [MimeTypes.extensionToType]
  cases found : MimeTypes.mappings.find? (·.1 = extension) with
  | none => decide
  | some mapping => exact mapped mapping (List.mem_of_find?_eq_some found)

theorem framed_handleRequest :
    (handleRequest file absolutePath req rep).Framed := by
  rw [handleRequest]
  cases urlDecode req.uri with
  | none => exact framed_stockReply _
  | some requestPath =>
      simp only
      split_ifs
      · cases file (fullPath absolutePath (addIndex requestPath)) with
        | none => exact framed_stockReply _
        | some data =>
            exact framed_contentHeaders _ (plain_extensionToType _)
      · exact framed_stockReply _

theorem handleRequest_of_encodes (encodes : Encodes req.uri requestPath)
    (admissible : Admissible requestPath)
    (visible : (0 : UInt8) ∉ requestPath) :
    handleRequest file absolutePath req rep =
      match file (absolutePath ++ addIndex requestPath) with
      | none => stockReply .notFound
      | some data =>
          ⟨.ok, contentHeaders (rep.content ++ data)
            (MimeTypes.extensionToType (extensionOf (addIndex requestPath))),
            rep.content ++ data⟩ := by
  have whole : (addIndex requestPath).takeWhile (· ≠ 0) =
      addIndex requestPath := by
    rw [List.takeWhile_eq_self_iff]
    intro input member
    have apart : input ≠ 0 := by
      rintro rfl
      rw [addIndex] at member
      split_ifs at member
      · rcases List.mem_append.mp member with inPath | inIndex
        · exact visible inPath
        · exact absurd inIndex (by decide)
      · exact visible member
    simpa using apart
  rw [handleRequest, urlDecode_of_encodes encodes]
  simp only [not_not.mpr admissible, if_false, fullPath, whole]

end Http

end ChronoShare
