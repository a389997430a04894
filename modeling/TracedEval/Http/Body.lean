import TracedEval.Decimal

/-!
# Bodies

A body ends with the connection, or after as many bytes as were said before it, or
with an empty chunk.  Every chunk follows a line that says its size.  Bytes are
taken as characters.
-/

namespace TracedEval.Http

inductive Extent where
  | connection
  | length (bytes : Nat)
  | chunked
  deriving DecidableEq, Repr, Inhabited

inductive BodyFault where
  | incomplete
  | chunkIncomplete
  | noSize
  | sizeOverflow
  | afterSize
  | afterSpace
  | extensionBreak
  | sizeEnd
  | chunkReturn
  | chunkBreak
  | fieldEnd
  | lastEnd
  deriving DecidableEq, Repr, Inhabited

def BodyFault.message : BodyFault → String
  | .incomplete => "end of file before message length reached"
  | .chunkIncomplete => "unexpected EOF during chunk size line"
  | .noSize => "Invalid chunk size line: missing size digit"
  | .sizeOverflow => "invalid chunk size: overflow"
  | .afterSize => "Invalid chunk size line: Invalid Size"
  | .afterSpace => "Invalid chunk size linear white space"
  | .extensionBreak => "invalid chunk extension contains newline"
  | .sizeEnd => "Invalid chunk size LF"
  | .chunkReturn => "Invalid chunk body CR"
  | .chunkBreak => "Invalid chunk body LF"
  | .fieldEnd => "Invalid trailer end LF"
  | .lastEnd => "Invalid chunk end LF"

def charsOfBytes (bytes : ByteArray) : List Char :=
  bytes.toList.map (fun byte => Char.ofNat byte.toNat)

def bytesOfChars (chars : List Char) : ByteArray :=
  ⟨(chars.map (fun char => char.toNat.toUInt8)).toArray⟩

namespace Chunk

def skip (expected : Char) (fault : BodyFault) :
    List Char → Except BodyFault (List Char)
  | [] => .error .chunkIncomplete
  | char :: rest => if char = expected then .ok rest else .error fault

def skipExtension : List Char → Except BodyFault (List Char)
  | [] => .error .chunkIncomplete
  | '\r' :: rest => skip '\n' .sizeEnd rest
  | '\n' :: _ => .error .extensionBreak
  | _ :: rest => skipExtension rest

def skipLine (fault : BodyFault) : List Char → Except BodyFault (List Char)
  | [] => .error .chunkIncomplete
  | ' ' :: rest => skipLine .afterSpace rest
  | '\t' :: rest => skipLine .afterSpace rest
  | ';' :: rest => skipExtension rest
  | '\r' :: rest => skip '\n' .sizeEnd rest
  | _ => .error fault

def readDigits (size : Nat) : List Char → Except BodyFault (Nat × List Char)
  | [] => .error .chunkIncomplete
  | char :: rest =>
      match Numeral.hexDigitValue? char with
      | none => (skipLine .afterSize (char :: rest)).map (fun rest => (size, rest))
      | some digit =>
          if Numeral.greatestWord64 < 16 * size + digit then .error .sizeOverflow
          else readDigits (16 * size + digit) rest

def readSize : List Char → Except BodyFault (Nat × List Char)
  | [] => .error .chunkIncomplete
  | char :: rest =>
      match Numeral.hexDigitValue? char with
      | none => .error .noSize
      | some digit => readDigits digit rest

/-- Leave out the fields after the last chunk, up to an empty line. -/
def skipFields (inField : Bool) : List Char → Except BodyFault (List Char)
  | [] => .error .chunkIncomplete
  | ['\r'] => .error .chunkIncomplete
  | '\r' :: '\n' :: rest => if inField then skipFields false rest else .ok rest
  | '\r' :: _ => .error (if inField then .fieldEnd else .lastEnd)
  | _ :: rest => skipFields true rest

def readWithin : Nat → List Char → Except BodyFault (List Char)
  | 0, _ => .error .chunkIncomplete
  | chunks + 1, chars => do
      let (size, rest) ← readSize chars
      if size = 0 then
        (skipFields false rest).map (fun _ => [])
      else if rest.length < size then
        .error .incomplete
      else
        let next ← skip '\r' .chunkReturn (rest.drop size)
        let next ← skip '\n' .chunkBreak next
        return rest.take size ++ (← readWithin chunks next)

def read (chars : List Char) : Except BodyFault (List Char) :=
  readWithin chars.length chars

end Chunk

def Extent.content (extent : Extent) (bytes : ByteArray) :
    Except BodyFault ByteArray :=
  match extent with
  | .connection => .ok bytes
  | .length size =>
      if bytes.size < size then .error .incomplete
      else .ok (bytes.extract 0 size)
  | .chunked => (Chunk.read (charsOfBytes bytes)).map bytesOfChars

end TracedEval.Http
