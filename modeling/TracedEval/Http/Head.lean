import TracedEval.Http.Body
import TracedEval.Http.Header
import TracedEval.Http.Status

/-!
# Heads of responses

A response begins with a line that says the version and the status, and with header
fields up to an empty line.  Bytes are taken as characters.  What is no head is
refused for the first thing that is wrong with it, and what could still become one
is `unfinished`.
-/

namespace TracedEval.Http

inductive HeadFault where
  | version
  | status
  | field
  | length
  | coding
  | tooLarge
  | unfinished
  deriving DecidableEq, Repr, Inhabited

def HeadFault.message : HeadFault → String
  | .version => "invalid HTTP version parsed"
  | .status => "invalid HTTP status-code parsed"
  | .field => "invalid HTTP header parsed"
  | .length => "invalid content-length parsed"
  | .coding => "unexpected transfer-encoding parsed"
  | .tooLarge => "message head is too large"
  | .unfinished => "connection closed before message completed"

structure Head where
  minor : Nat
  status : Status
  headers : Headers
  deriving Inhabited

namespace Head

/-! ## Lines -/

def skipBreaks : List Char → Except HeadFault (List Char)
  | '\n' :: rest => skipBreaks rest
  | '\r' :: '\n' :: rest => skipBreaks rest
  | ['\r'] => .error .unfinished
  | '\r' :: _ => .error .field
  | rest => .ok rest

def readLine (fault : HeadFault) :
    List Char → Except HeadFault (List Char × List Char)
  | [] => .error .unfinished
  | '\n' :: rest => .ok ([], rest)
  | '\r' :: '\n' :: rest => .ok ([], rest)
  | ['\r'] => .error .unfinished
  | char :: rest =>
      if Header.isValueChar char then
        (readLine fault rest).map (fun (line, rest) => (char :: line, rest))
      else .error fault

/-! ## The first line -/

def readVersion (chars : List Char) : Except HeadFault (Nat × List Char) :=
  let start := "HTTP/1.".toList
  if chars.length < 8 then
    .error (if chars.isPrefixOf start then .unfinished else .version)
  else
    match chars.take 7 == start, chars.drop 7 with
    | true, '0' :: rest => (afterVersion rest).map (fun rest => (0, rest))
    | true, '1' :: rest => (afterVersion rest).map (fun rest => (1, rest))
    | _, _ => .error .version
where
  afterVersion : List Char → Except HeadFault (List Char)
    | [] => .error .unfinished
    | ' ' :: rest => .ok rest
    | _ => .error .version

def readDigits : Nat → Nat → List Char → Except HeadFault (Nat × List Char)
  | 0, value, rest => .ok (value, rest)
  | _ + 1, _, [] => .error .unfinished
  | places + 1, value, char :: rest =>
      match Numeral.digitValue? char with
      | some digit => readDigits places (10 * value + digit) rest
      | none => .error .status

def skipReason (chars : List Char) : Except HeadFault (List Char) :=
  match chars with
  | [] => .error .unfinished
  | ' ' :: rest => (readLine .status rest).map (·.2)
  | '\r' :: _ => (readLine .status chars).map (·.2)
  | '\n' :: rest => .ok rest
  | _ => .error .status

/-! ## Fields -/

private def isSpace (char : Char) : Bool :=
  char == ' ' || char == '\t'

def trimSpaces (chars : List Char) : List Char :=
  ((chars.dropWhile isSpace).reverse.dropWhile isSpace).reverse

def readField (chars : List Char) :
    Except HeadFault ((String × String) × List Char) :=
  let name := chars.takeWhile Header.isNameChar
  match chars.dropWhile Header.isNameChar with
  | [] => .error .unfinished
  | ':' :: rest =>
      if name.isEmpty then .error .field
      else
        (readLine .field rest).map (fun (value, rest) =>
          ((String.ofList (name.map Char.toLower),
            String.ofList (trimSpaces value)), rest))
  | _ => .error .field

def readFields : Nat → List Char → Except HeadFault (Headers × List Char)
  | _, [] => .error .unfinished
  | _, '\n' :: rest => .ok ([], rest)
  | _, '\r' :: '\n' :: rest => .ok ([], rest)
  | _, ['\r'] => .error .unfinished
  | 0, _ => .error .tooLarge
  | fields + 1, chars =>
      match readField chars with
      | .error fault => .error fault
      | .ok (field, rest) =>
          (readFields fields rest).map (fun (headers, rest) =>
            (field :: headers, rest))

def mostFields : Nat := 100

def read (chars : List Char) : Except HeadFault (Head × List Char) := do
  let (minor, chars) ← readVersion (← skipBreaks chars)
  let (code, chars) ← readDigits 3 0 chars
  let chars ← skipReason chars
  let (headers, rest) ← readFields mostFields chars
  return (⟨minor, ⟨code⟩, headers⟩, rest)

/-! ## Where the body ends -/

def values (head : Head) (name : String) : List String :=
  (head.headers.filter (·.1 == name)).map (·.2)

private def lengthOf? (text : String) : Option Nat :=
  let digits := trimSpaces text.toList
  if digits.isEmpty || !digits.all Char.isDigit then none
  else
    (Numeral.ofDigits? digits).filter (fun length =>
      (length : Int) ≤ Numeral.greatestWord64)

/-- The length of the body, if it is said.  It may be said more than once, but
always alike. -/
def length? (head : Head) : Except HeadFault (Option Nat) :=
  match (head.values "content-length").flatMap (·.splitOn ",") with
  | [] => .ok none
  | first :: others =>
      match lengthOf? first with
      | none => .error .length
      | some length =>
          if others.all (fun other => lengthOf? other == some length) then
            .ok (some length)
          else .error .length

def isChunked (coding : String) : Bool :=
  match (coding.splitOn ",").getLast? with
  | some last =>
      coding.toList.all (·.toNat < 128) &&
        (trimSpaces last.toList).map Char.toLower == "chunked".toList
  | none => false

/-- A coding counts for more than a length, and the first version has none.
Nothing that is said about a body matters where there is none. -/
def extent (head : Head) : Except HeadFault Extent :=
  if !head.status.hasBody then .ok .connection
  else
    match (head.values "transfer-encoding").getLast? with
    | some coding =>
        if head.minor = 0 then .error .coding
        else .ok (if isChunked coding then .chunked else .connection)
    | none => head.length?.map (fun length => length.elim .connection .length)

end Head

end TracedEval.Http
