import TracedEval.Json.Reader
import TracedEval.Term

/-!
# Terms and JSON values

JSON values become terms with objects as maps from keywords.  The other way a
constant term becomes a value: what JSON has no kind for becomes a string or, for
an error, an object, and an integer beyond 64 bits becomes a string.
-/

namespace TracedEval.Term

inductive JsonFault where
  | decimal (value : Decimal)
  | mapKey (key : Term)
  | notConstant (term : Term)
  deriving Inhabited

namespace JsonFault

def message : JsonFault → String
  | decimal value => "Unable to serialize decimal: " ++ value.text
  | mapKey key => "Unable to serialize map key: " ++ key.text
  | notConstant term => "Unable to serialize term: " ++ term.text

def text (fault : JsonFault) : String :=
  "JSON serialization failed: " ++ fault.message

def quoted : JsonFault → Term
  | decimal value => .decimal value
  | mapKey key => key
  | notConstant term => term

end JsonFault

/-! ## From JSON -/

/-- A number that is not whole keeps the digits that JSON would write. -/
def ofJsonNumber : Json.Number → Term
  | .whole value => .integer value
  | .double value =>
      match Decimal.ofChars (Json.doubleChars value) with
      | .ok written => .decimal written
      | .error _ => .decimal value.toDecimal

def keyOfName (name : String) : Term :=
  .keyword (Keyword.ofText name)

mutual

def ofJson : Json → Term
  | .null => .nil
  | .boolean value => .boolean value
  | .number value => ofJsonNumber value
  | .string value => .string value
  | .array items => .list (ofJsonItems items)
  | .object members => .map (entriesOf (ofJsonMembers members))

def ofJsonItems : List Json → List Term
  | [] => []
  | item :: items => ofJson item :: ofJsonItems items

def ofJsonMembers : List (String × Json) → List (Term × Term)
  | [] => []
  | (name, value) :: members =>
      (keyOfName name, ofJson value) :: ofJsonMembers members

end

/-! ## To JSON -/

def jsonOfInteger (value : Int) : Json :=
  if Numeral.leastInt64 ≤ value ∧ value ≤ Numeral.greatestInt64 then
    .ofInt value
  else .string (Numeral.integerText value)

/-- The nearest double of a decimal that has a text. -/
def jsonOfDecimal (value : Decimal) : Except JsonFault Json :=
  if !value.isWritable then .error (.decimal value)
  else
    match Binary64.ofDecimal value with
    | some double => .ok (.number (.double double))
    | none => .error (.decimal value)

def jsonOfError (error : ErrorValue) : Json :=
  .object [("error", .object
    [("code", .string error.code), ("message", .string error.message)])]

def jsonName : Term → Except JsonFault String
  | .string value => .ok value
  | .keyword value => .ok value.qualifiedName
  | .integer value => .ok (Numeral.integerText value)
  | key => .error (.mapKey key)

mutual

def toJson : Term → Except JsonFault Json
  | .nil => .ok .null
  | .boolean value => .ok (.boolean value)
  | .integer value => .ok (jsonOfInteger value)
  | .decimal value => jsonOfDecimal value
  | .character value => .ok (.string (String.ofList [value]))
  | .string value => .ok (.string value)
  | .keyword value => .ok (.string value.qualifiedName)
  | .error value => .ok (jsonOfError value)
  | .list items => (toJsonItems items).map .array
  | .set elements => (toJsonItems elements).map .array
  | .map entries => (toJsonMembers entries).map .objectOf
  | .symbol value => .error (.notConstant (.symbol value))
  | .application head args => .error (.notConstant (.application head args))

def toJsonItems : List Term → Except JsonFault (List Json)
  | [] => .ok []
  | item :: items =>
      match toJson item with
      | .error fault => .error fault
      | .ok json => (toJsonItems items).map (json :: ·)

def toJsonMembers : List (Term × Term) →
    Except JsonFault (List (String × Json))
  | [] => .ok []
  | (key, value) :: entries =>
      match jsonName key with
      | .error fault => .error fault
      | .ok name =>
          match toJson value with
          | .error fault => .error fault
          | .ok json => (toJsonMembers entries).map ((name, json) :: ·)

end

/-! ## Texts -/

def toJsonText (term : Term) : Except JsonFault String :=
  term.toJson.map Json.text

def ofJsonText (text : String) : Except String Term :=
  match Json.ofText text with
  | .ok json => .ok (ofJson json)
  | .error reason => .error ("JSON deserialization failed: " ++ reason)

end TracedEval.Term
