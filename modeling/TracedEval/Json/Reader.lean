import TracedEval.Json

/-!
# Reading JSON

A text is read from left to right with a stack of the arrays and objects that
have been begun.  A fault is reported with the line and column up to which the
text was read or looked at; columns count bytes.

A number that is not whole, or too large for 64 bits, is computed in double
precision from as many leading digits as fit into 64 bits, multiplied or divided
by powers of ten of which none is above `10 ^ 308`.
-/

namespace TracedEval.Json

inductive Complaint where
  | endInValue
  | endInList
  | endInObject
  | endInString
  | expectedColon
  | expectedListCommaOrEnd
  | expectedObjectCommaOrEnd
  | expectedIdentifier
  | expectedValue
  | invalidEscape
  | invalidNumber
  | numberOutOfRange
  | loneSurrogate
  | unfinishedSurrogates
  | controlCharacter
  | keyNotAString
  | trailingComma
  | trailingCharacters
  | tooDeep
  deriving DecidableEq, Repr, Inhabited

def Complaint.message : Complaint → String
  | endInValue => "EOF while parsing a value"
  | endInList => "EOF while parsing a list"
  | endInObject => "EOF while parsing an object"
  | endInString => "EOF while parsing a string"
  | expectedColon => "expected \x60:\x60"
  | expectedListCommaOrEnd => "expected \x60,\x60 or \x60]\x60"
  | expectedObjectCommaOrEnd => "expected \x60,\x60 or \x60\x7d\x60"
  | expectedIdentifier => "expected ident"
  | expectedValue => "expected value"
  | invalidEscape => "invalid escape"
  | invalidNumber => "invalid number"
  | numberOutOfRange => "number out of range"
  | loneSurrogate => "lone leading surrogate in hex escape"
  | unfinishedSurrogates => "unexpected end of hex escape"
  | controlCharacter =>
      "control character (\\u0000-\\u001F) found while parsing a string"
  | keyNotAString => "key must be a string"
  | trailingComma => "trailing comma"
  | trailingCharacters => "trailing characters"
  | tooDeep => "recursion limit exceeded"

/-- What is wrong, and how many bytes had been taken in. -/
structure Fault where
  complaint : Complaint
  offset : Nat
  deriving DecidableEq, Repr, Inhabited

structure Cursor where
  rest : List Char
  offset : Nat
  deriving Inhabited

namespace Cursor

def fail {α : Type} (cursor : Cursor) (complaint : Complaint) : Except Fault α :=
  .error ⟨complaint, cursor.offset⟩

/-- Something is wrong with what comes next, of which one byte is looked at. -/
def failNext {α : Type} (cursor : Cursor) (complaint : Complaint) :
    Except Fault α :=
  .error ⟨complaint,
    if cursor.rest.isEmpty then cursor.offset else cursor.offset + 1⟩

def past (cursor : Cursor) (char : Char) (rest : List Char) : Cursor :=
  ⟨rest, cursor.offset + char.utf8Size⟩

def skip (cursor : Cursor) (count : Nat) : Cursor :=
  ⟨cursor.rest.drop count, cursor.offset + count⟩

def isBlank (char : Char) : Bool :=
  char == ' ' || char == '\n' || char == '\t' || char == '\r'

def skipBlanks (cursor : Cursor) : Cursor :=
  cursor.skip (cursor.rest.takeWhile isBlank).length

end Cursor

/-! ## Numbers -/

def powerOfTen (power : Nat) : Option Binary64 :=
  Binary64.ofNat (Numeral.powerOfTen power)

def divideTimes (step : Nat) : Nat → Binary64 → Option Binary64
  | 0, value => some value
  | times + 1, value =>
      if value.isZero then some value
      else
        ((powerOfTen step).bind (value.divide ·)).bind (divideTimes step times)

/-- Multiply or divide by a power of ten, dividing by `10 ^ 308` first as often as
it takes. -/
def scaleByTen (value : Binary64) (power : Int) : Option Binary64 :=
  let step := 308
  if power < 0 then
    let times := ((-power).toNat - 1) / step
    (divideTimes step times value).bind
      (divideTimes ((-power).toNat - times * step) 1)
  else if power.toNat ≤ step then
    (powerOfTen power.toNat).bind (value.multiply ·)
  else if value.isZero then some value
  else none

def doubleOf (negative : Bool) (significand : Nat) (power : Int) :
    Option Binary64 :=
  ((Binary64.ofNat significand).bind (scaleByTen · power)).map
    (fun value => if negative then value.negate else value)

def absorb : Nat → List Char → Nat × List Char
  | significand, [] => (significand, [])
  | significand, char :: rest =>
      let next := 10 * significand + (char.toNat - '0'.toNat)
      if 18446744073709551615 < next then (significand, char :: rest)
      else absorb next rest

def exponentValue : Nat → Nat → List Char → Nat ⊕ Nat
  | _, value, [] => .inl value
  | taken, value, char :: rest =>
      let next := 10 * value + (char.toNat - '0'.toNat)
      if 2147483647 < next then .inr (taken + 1)
      else exponentValue (taken + 1) next rest

def finishDouble (negative : Bool) (significand : Nat) (power : Int)
    (cursor : Cursor) : Except Fault (Number × Cursor) :=
  match doubleOf negative significand power with
  | some value => .ok (.double value, cursor)
  | none => cursor.fail .numberOutOfRange

def readExponent (negative : Bool) (significand : Nat) (power : Int)
    (cursor : Cursor) : Except Fault (Number × Cursor) :=
  let (down, cursor) :=
    match cursor.rest with
    | '+' :: _ => (false, cursor.skip 1)
    | '-' :: _ => (true, cursor.skip 1)
    | _ => (false, cursor)
  let digits := cursor.rest.takeWhile Char.isDigit
  match digits, cursor.rest with
  | [], [] => cursor.fail .endInValue
  | [], _ :: _ => cursor.failNext .invalidNumber
  | digits, _ =>
      match exponentValue 0 0 digits with
      | .inl value =>
          finishDouble negative significand
            (if down then power - value else power + value)
            (cursor.skip digits.length)
      | .inr taken =>
          if significand ≠ 0 ∧ !down then
            (cursor.skip taken).fail .numberOutOfRange
          else
            .ok (.double ⟨negative, 0, Binary64.leastExponent⟩,
              cursor.skip digits.length)

def readAfterFraction (negative : Bool) (significand : Nat) (power : Int)
    (cursor : Cursor) : Except Fault (Number × Cursor) :=
  match cursor.rest with
  | 'e' :: _ => readExponent negative significand power (cursor.skip 1)
  | 'E' :: _ => readExponent negative significand power (cursor.skip 1)
  | _ => finishDouble negative significand power cursor

def readFraction (negative : Bool) (significand : Nat) (power : Int)
    (cursor : Cursor) : Except Fault (Number × Cursor) :=
  let digits := cursor.rest.takeWhile Char.isDigit
  match digits, cursor.rest with
  | [], [] => cursor.failNext .endInValue
  | [], _ :: _ => cursor.failNext .invalidNumber
  | digits, _ =>
      let (significand, ignored) := absorb significand digits
      readAfterFraction negative significand
        (power - ((digits.length : Int) - ignored.length))
        (cursor.skip digits.length)

/-- What may follow the whole part of a number.  Digits that did not fit make it a
double. -/
def readAfterWhole (negative : Bool) (significand ignored : Nat)
    (cursor : Cursor) : Except Fault (Number × Cursor) :=
  match cursor.rest with
  | '.' :: _ => readFraction negative significand ignored (cursor.skip 1)
  | 'e' :: _ => readExponent negative significand ignored (cursor.skip 1)
  | 'E' :: _ => readExponent negative significand ignored (cursor.skip 1)
  | _ =>
      if ignored ≠ 0 then finishDouble negative significand ignored cursor
      else if !negative then .ok (.whole significand, cursor)
      else if significand ≠ 0 ∧ significand ≤ 9223372036854775808 then
        .ok (.whole (-(significand : Int)), cursor)
      else finishDouble true significand 0 cursor

def readNumber (negative : Bool) (cursor : Cursor) :
    Except Fault (Number × Cursor) :=
  let digits := cursor.rest.takeWhile Char.isDigit
  match digits, cursor.rest with
  | [], [] => cursor.fail .endInValue
  | [], _ :: _ => cursor.failNext .invalidNumber
  | '0' :: _ :: _, _ => (cursor.skip 1).failNext .invalidNumber
  | digits, _ =>
      let (significand, ignored) := absorb 0 digits
      readAfterWhole negative significand ignored.length
        (cursor.skip digits.length)

/-! ## Strings -/

def readHex (cursor : Cursor) : Except Fault (Nat × Cursor) :=
  let bytes := (cursor.rest.take 4).foldl (fun bytes char => bytes + char.utf8Size) 0
  if bytes < 4 then
    .error ⟨.endInString, cursor.offset + bytes⟩
  else
    let digits := cursor.rest.take 4
    match digits.length == 4, Numeral.ofHexDigits? digits with
    | true, some value => .ok (value, cursor.skip 4)
    | _, _ => .error ⟨.invalidEscape, cursor.offset + 4⟩

def expectInPair (expected : Char) (cursor : Cursor) : Except Fault Cursor :=
  match cursor.rest with
  | [] => cursor.fail .endInString
  | char :: _ =>
      if char = expected then .ok (cursor.skip 1)
      else cursor.failNext .unfinishedSurrogates

/-- A character given by its number, or by two surrogates. -/
def readNumbered (cursor : Cursor) : Except Fault (Char × Cursor) := do
  let (first, cursor) ← readHex cursor
  if 0xDC00 ≤ first ∧ first ≤ 0xDFFF then
    cursor.fail .loneSurrogate
  else if first < 0xD800 ∨ 0xDBFF < first then
    return (Char.ofNat first, cursor)
  else
    let cursor ← expectInPair '\\' cursor
    let cursor ← expectInPair 'u' cursor
    let (second, cursor) ← readHex cursor
    if second < 0xDC00 ∨ 0xDFFF < second then
      cursor.fail .loneSurrogate
    else
      return (Char.ofNat (0x10000 + 0x400 * (first - 0xD800) + (second - 0xDC00)),
        cursor)

def readEscape (cursor : Cursor) : Except Fault (Char × Cursor) :=
  match cursor.rest with
  | [] => cursor.fail .endInString
  | '"' :: _ => .ok ('"', cursor.skip 1)
  | '\\' :: _ => .ok ('\\', cursor.skip 1)
  | '/' :: _ => .ok ('/', cursor.skip 1)
  | 'b' :: _ => .ok ('\x08', cursor.skip 1)
  | 'f' :: _ => .ok ('\x0c', cursor.skip 1)
  | 'n' :: _ => .ok ('\n', cursor.skip 1)
  | 'r' :: _ => .ok ('\r', cursor.skip 1)
  | 't' :: _ => .ok ('\t', cursor.skip 1)
  | 'u' :: _ => readNumbered (cursor.skip 1)
  | _ :: _ => cursor.failNext .invalidEscape

def readString : Nat → List Char → Cursor → Except Fault (String × Cursor)
  | 0, _, cursor => cursor.fail .endInString
  | bound + 1, found, cursor =>
      match cursor.rest with
      | [] => cursor.fail .endInString
      | '"' :: _ => .ok (String.ofList found.reverse, cursor.skip 1)
      | '\\' :: _ =>
          match readEscape (cursor.skip 1) with
          | .error fault => .error fault
          | .ok (char, cursor) => readString bound (char :: found) cursor
      | char :: rest =>
          if char.toNat < 0x20 then cursor.failNext .controlCharacter
          else readString bound (char :: found) (cursor.past char rest)

/-! ## Values -/

/-- An array or an object that was begun: what it holds so far, latest first, and
for an object the name of the member that is being read. -/
inductive Frame where
  | array (items : List Json)
  | member (members : List (String × Json)) (name : String)
  deriving Inhabited

inductive Task where
  | value
  | after (json : Json)
  deriving Inhabited

def readWord (json : Json) : List Char → Cursor → Except Fault (Json × Cursor)
  | [], cursor => .ok (json, cursor)
  | expected :: word, cursor =>
      match cursor.rest with
      | [] => cursor.fail .endInValue
      | char :: _ =>
          if char = expected then readWord json word (cursor.skip 1)
          else cursor.failNext .expectedIdentifier

def readName (cursor : Cursor) : Except Fault (String × Cursor) :=
  match readString (cursor.rest.length + 1) [] cursor with
  | .error fault => .error fault
  | .ok (name, cursor) =>
      let cursor := cursor.skipBlanks
      match cursor.rest with
      | ':' :: _ => .ok (name, cursor.skip 1)
      | [] => cursor.failNext .endInObject
      | _ => cursor.failNext .expectedColon

def readStart (room : Nat) (cursor : Cursor) :
    Except Fault (Task × Option Frame × Cursor) :=
  let complete : Except Fault (Json × Cursor) →
      Except Fault (Task × Option Frame × Cursor) :=
    fun result => result.map (fun (json, cursor) => (.after json, none, cursor))
  let cursor := cursor.skipBlanks
  match cursor.rest with
  | [] => cursor.failNext .endInValue
  | 'n' :: _ => complete (readWord .null "ull".toList (cursor.skip 1))
  | 't' :: _ => complete (readWord (.boolean true) "rue".toList (cursor.skip 1))
  | 'f' :: _ => complete (readWord (.boolean false) "alse".toList (cursor.skip 1))
  | '-' :: _ =>
      complete ((readNumber true (cursor.skip 1)).map
        (fun (value, cursor) => (.number value, cursor)))
  | '"' :: rest =>
      complete ((readString (rest.length + 1) [] (cursor.skip 1)).map
        (fun (value, cursor) => (.string value, cursor)))
  | '[' :: _ =>
      if room ≤ 1 then cursor.failNext .tooDeep
      else
        let cursor := (cursor.skip 1).skipBlanks
        match cursor.rest with
        | [] => cursor.failNext .endInList
        | ']' :: _ => .ok (.after (.array []), none, cursor.skip 1)
        | _ => .ok (.value, some (.array []), cursor)
  | '{' :: _ =>
      if room ≤ 1 then cursor.failNext .tooDeep
      else
        let cursor := (cursor.skip 1).skipBlanks
        match cursor.rest with
        | [] => cursor.failNext .endInObject
        | '}' :: _ => .ok (.after (.object []), none, cursor.skip 1)
        | '"' :: _ =>
            (readName (cursor.skip 1)).map
              (fun (name, cursor) => (.value, some (.member [] name), cursor))
        | _ => cursor.failNext .keyNotAString
  | char :: _ =>
      if char.isDigit then
        complete ((readNumber false cursor).map
          (fun (value, cursor) => (.number value, cursor)))
      else cursor.failNext .expectedValue

def readAfterItem (items : List Json) (cursor : Cursor) :
    Except Fault (Task × Option Frame × Cursor) :=
  let cursor := cursor.skipBlanks
  match cursor.rest with
  | [] => cursor.failNext .endInList
  | ']' :: _ => .ok (.after (.array items.reverse), none, cursor.skip 1)
  | ',' :: _ =>
      let cursor := (cursor.skip 1).skipBlanks
      match cursor.rest with
      | [] => cursor.failNext .endInValue
      | ']' :: _ => cursor.failNext .trailingComma
      | _ => .ok (.value, some (.array items), cursor)
  | _ => cursor.failNext .expectedListCommaOrEnd

def readAfterMember (members : List (String × Json)) (cursor : Cursor) :
    Except Fault (Task × Option Frame × Cursor) :=
  let cursor := cursor.skipBlanks
  match cursor.rest with
  | [] => cursor.failNext .endInObject
  | '}' :: _ => .ok (.after (.object members.reverse), none, cursor.skip 1)
  | ',' :: _ =>
      let cursor := (cursor.skip 1).skipBlanks
      match cursor.rest with
      | [] => cursor.failNext .endInValue
      | '}' :: _ => cursor.failNext .trailingComma
      | '"' :: _ =>
          (readName (cursor.skip 1)).map
            (fun (name, cursor) => (.value, some (.member members name), cursor))
      | _ => cursor.failNext .keyNotAString
  | _ => cursor.failNext .expectedObjectCommaOrEnd

/-- Read until the value at the bottom of the stack is complete.  Every round
takes at least one character, so a bound above their number is never met. -/
def readRounds (depth : Nat) :
    Nat → List Frame → Task → Cursor → Except Fault (Json × Cursor)
  | 0, _, _, cursor => cursor.fail .endInValue
  | bound + 1, stack, task, cursor =>
      let next :=
        match task, stack with
        | .value, _ => (readStart (depth - stack.length) cursor).map (·, stack)
        | .after json, .array items :: stack =>
            (readAfterItem (json :: items) cursor).map (·, stack)
        | .after json, .member members name :: stack =>
            (readAfterMember ((name, json) :: members) cursor).map (·, stack)
        | .after json, [] => .ok ((.after json, none, cursor), [])
      match next with
      | .error fault => .error fault
      | .ok ((.after json, none, cursor), []) => .ok (json, cursor)
      | .ok ((task, frame, cursor), stack) =>
          readRounds depth bound (frame.toList ++ stack) task cursor

/-- Arrays and objects may be nested one less deep than this. -/
def depthLimit : Nat := 128

def readChars (depth : Nat) (chars : List Char) : Except Fault Json :=
  match readRounds depth (chars.length + 2) [] .value ⟨chars, 0⟩ with
  | .error fault => .error fault
  | .ok (json, cursor) =>
      let cursor := cursor.skipBlanks
      if cursor.rest.isEmpty then .ok json
      else cursor.failNext .trailingCharacters

def position (text : String) (offset : Nat) : Nat × Nat :=
  let before := text.toUTF8.toList.take offset
  let newline : UInt8 := 10
  (before.count newline + 1, (before.reverse.takeWhile (· != newline)).length)

def Fault.message (text : String) (fault : Fault) : String :=
  let (line, column) := position text fault.offset
  fault.complaint.message ++ " at line " ++ toString line ++ " column " ++
    toString column

def ofText (text : String) : Except String Json :=
  match readChars depthLimit text.toList with
  | .ok json => .ok json.collapse
  | .error fault => .error (fault.message text)

end TracedEval.Json
