import TracedEval.Bindings
import TracedEval.Form.Reader

/-!
# Reading terms and environments

A form means a term: its number literals have values, parentheses hold a symbol
and its arguments, the keys of a map are constant, and the only tag is `error`.
An environment is written as a map from symbols to terms.
-/

namespace TracedEval

namespace Term

def isReserved (name : String) : Bool :=
  name == "nil" || name == "true" || name == "false"

def ofName (name : String) : Term :=
  if name = "nil" then .nil
  else if name = "true" then .boolean true
  else if name = "false" then .boolean false
  else .symbol (Symbol.ofText name)

def literalChars (literal : String) : List Char :=
  literal.toList.dropWhile (· == '+')

def ofIntegerLiteral (literal : String) : Except ReadError Term :=
  match Numeral.integer (literalChars literal) with
  | .ok value => .ok (.integer value)
  | .error fault => .error (.invalidInteger literal fault)

def ofDecimalLiteral (literal : String) : Except ReadError Term :=
  match Decimal.ofChars (literalChars literal) with
  | .ok value => .ok (.decimal value)
  | .error fault => .error (.invalidDecimal literal fault)

def errorField (fields : List (Term × Term)) (name : String) :
    Except ReadError String :=
  match entryAt? fields (.keyword (Keyword.ofText name)) with
  | some (.string value) => .ok value
  | some value => .error (.invalidErrorField name value)
  | none => .error (.missingErrorField name)

def ofErrorFields : Term → Except ReadError Term
  | .map fields =>
      match errorField fields "code" with
      | .error fault => .error fault
      | .ok code =>
          (errorField fields "message").map (fun message => .error ⟨code, message⟩)
  | received => .error (.invalidErrorFields received)

mutual

def ofForm : Form → Except ReadError Term
  | .integer literal => ofIntegerLiteral literal
  | .decimal literal => ofDecimalLiteral literal
  | .character value => .ok (.character value)
  | .string value => .ok (.string value)
  | .keyword name => .ok (.keyword (Keyword.ofText name))
  | .symbol name => .ok (ofName name)
  | .list [] => .error (.emptyApplication (.list []))
  | .list (head :: args) =>
      match ofForm head with
      | .error fault => .error fault
      | .ok (.symbol name) => (ofForms args).map (.application name)
      | .ok term => .error (.invalidHead term)
  | .vector items => (ofForms items).map .list
  | .set items => (ofForms items).map .setOf
  | .map entries =>
      match ofPairs entries with
      | .error fault => .error fault
      | .ok entries => (mapOf entries).mapError .invalidMapKey
  | .tagged tag form =>
      if tag = "error" then
        match ofForm form with
        | .error fault => .error fault
        | .ok fields => ofErrorFields fields
      else .error (.unknownTag tag)

def ofForms : List Form → Except ReadError (List Term)
  | [] => .ok []
  | form :: forms =>
      match ofForm form with
      | .error fault => .error fault
      | .ok term => (ofForms forms).map (term :: ·)

def ofPairs : List (Form × Form) → Except ReadError (List (Term × Term))
  | [] => .ok []
  | (key, value) :: entries =>
      match ofForm key with
      | .error fault => .error fault
      | .ok key =>
          match ofForm value with
          | .error fault => .error fault
          | .ok value => (ofPairs entries).map ((key, value) :: ·)

end

def ofChars (chars : List Char) : Except ReadError Term :=
  match Form.ofChars chars with
  | .error fault => .error fault
  | .ok form => ofForm form

def ofText (text : String) : Except ReadError Term :=
  ofChars text.toList

end Term

namespace Bindings

def ofPair : Form × Form → Except ReadError (Symbol × Term)
  | (.symbol name, value) =>
      if Term.isReserved name then .error (.invalidBindingSymbol (.symbol name))
      else (Term.ofForm value).map (fun value => (Symbol.ofText name, value))
  | (form, _) => .error (.invalidBindingSymbol form)

def ofPairs : List (Form × Form) → Except ReadError (List (Symbol × Term))
  | [] => .ok []
  | pair :: pairs =>
      match ofPair pair with
      | .error fault => .error fault
      | .ok entry => (ofPairs pairs).map (entry :: ·)

def ofForm : Form → Except ReadError Bindings
  | .map pairs => (ofPairs pairs).map ofList
  | form => .error (.invalidBindings form)

def ofChars (chars : List Char) : Except ReadError Bindings :=
  match Form.ofChars chars with
  | .error fault => .error fault
  | .ok form => ofForm form

def ofText (text : String) : Except ReadError Bindings :=
  ofChars text.toList

end Bindings

end TracedEval
