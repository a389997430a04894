import TracedEval.Form.Token

/-!
# Reading forms

A form is read token by token with a stack of what has been begun: brackets that
wait to be closed, with the forms found inside so far, and tags that wait for the
form they belong to.  A form that is complete goes to the top of the stack, and
with an empty stack it is the form that was looked for.
-/

namespace TracedEval

inductive ReadError where
  | unexpected (found : Unexpected)
  | oddMapEntries (count : Nat)
  | invalidInteger (literal : String) (fault : Numeral.Fault)
  | invalidDecimal (literal : String) (fault : Decimal.Fault)
  | emptyApplication (form : Form)
  | invalidHead (head : Term)
  | invalidMapKey (key : Term)
  | unknownTag (tag : String)
  | invalidErrorFields (received : Term)
  | missingErrorField (field : String)
  | invalidErrorField (field : String) (received : Term)
  | invalidBindingSymbol (form : Form)
  | invalidBindings (form : Form)
  deriving Inhabited

namespace ReadError

def expectationText : Expectation → String
  | .expression => "expression"
  | .endOfInput => "end of input"
  | .closer char => "'" ++ String.ofList [char] ++ "'"
  | .tag => "tag or '\x7b'"
  | .taggedExpression => "tagged expression"

def receivedText : Option Char → String
  | some char => String.ofList [char]
  | none => "end of input"

def message : ReadError → String
  | unexpected found =>
      "Expected " ++ expectationText found.expected ++ ", received '" ++
        receivedText found.received ++ "'"
  | oddMapEntries count =>
      "Expected an even number of map entries, received " ++ toString count
  | invalidInteger literal fault =>
      "Invalid integer literal " ++ literal ++ ": " ++ fault.message
  | invalidDecimal literal fault =>
      "Invalid decimal literal " ++ literal ++ ": " ++ fault.message
  | emptyApplication form =>
      "Expected function symbol, received " ++ form.structureText
  | invalidHead head => "Expected function symbol, received " ++ head.text
  | invalidMapKey key =>
      "Invalid map key: expected constant, received " ++ key.text
  | unknownTag tag => "Unknown tag: #" ++ tag
  | invalidErrorFields received =>
      "Expected error fields, received " ++ received.text
  | missingErrorField field => "Missing error field :" ++ field
  | invalidErrorField field received =>
      "Expected String for error field :" ++ field ++ ", received " ++
        received.text
  | invalidBindingSymbol form =>
      "Expected binding symbol, received " ++ form.structureText
  | invalidBindings form =>
      "Expected bindings map, received " ++ form.structureText

def quoted : ReadError → List Term
  | invalidHead head => [head]
  | invalidMapKey key => [key]
  | invalidErrorFields received => [received]
  | invalidErrorField _ received => [received]
  | _ => []

def isWritable (error : ReadError) : Bool :=
  error.quoted.all Term.isWritable

end ReadError

namespace Form

inductive Frame where
  | bracket (bracket : Bracket) (items : List Form)
  | tagged (tag : String)
  deriving Inhabited

def pairs : List Form → List (Form × Form)
  | key :: value :: rest => (key, value) :: pairs rest
  | _ => []

/-- The form of a closed bracket.  A map needs as many values as keys. -/
def ofBracket (bracket : Bracket) (items : List Form) : Except ReadError Form :=
  match bracket with
  | .list => .ok (.list items)
  | .vector => .ok (.vector items)
  | .set => .ok (.set items)
  | .map =>
      if items.length % 2 = 0 then .ok (.map (pairs items))
      else .error (.oddMapEntries items.length)

/-- Hand a complete form to the top of the stack.  Without a bracket to take it,
it is what was looked for. -/
def deliver (form : Form) : List Frame → Form ⊕ List Frame
  | [] => .inl form
  | .bracket bracket items :: stack => .inr (.bracket bracket (form :: items) :: stack)
  | .tagged tag :: stack => deliver (.tagged tag form) stack

def expectation : List Frame → Expectation
  | [] => .expression
  | .bracket bracket _ :: _ => .closer bracket.closer
  | .tagged _ :: _ => .taggedExpression

/-- Read on until the form at the bottom of the stack is complete. -/
def readFrom (stack : List Frame) (chars : List Char) :
    Except ReadError (Form × List Char) :=
  match scanned : Token.scan (Token.skipSeparators chars) with
  | .error found => .error (.unexpected found)
  | .ok (some (.opening bracket, rest)) =>
      have := Token.length_lt_of_scan scanned
      readFrom (.bracket bracket [] :: stack) rest
  | .ok (some (.tag tag, rest)) =>
      have := Token.length_lt_of_scan scanned
      readFrom (.tagged tag :: stack) rest
  | .ok (some (.literal form, rest)) =>
      have := Token.length_lt_of_scan scanned
      match deliver form stack with
      | .inl form => .ok (form, rest)
      | .inr stack => readFrom stack rest
  | .ok none =>
      match stack, skipped : Token.skipSeparators chars with
      | .bracket bracket items :: stack, char :: rest =>
          have := Token.length_lt_of_skipSeparators skipped
          if char = bracket.closer then
            match ofBracket bracket items.reverse with
            | .error error => .error error
            | .ok form =>
                match deliver form stack with
                | .inl form => .ok (form, rest)
                | .inr stack => readFrom stack rest
          else
            .error (.unexpected ⟨.closer bracket.closer, some char⟩)
      | stack, chars => .error (.unexpected ⟨expectation stack, chars.head?⟩)
termination_by chars.length

def ofChars (chars : List Char) : Except ReadError Form :=
  match readFrom [] chars with
  | .error error => .error error
  | .ok (form, rest) =>
      match Token.skipSeparators rest with
      | [] => .ok form
      | char :: _ => .error (.unexpected ⟨.endOfInput, some char⟩)

end Form

end TracedEval
