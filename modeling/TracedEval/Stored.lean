import TracedEval.Evaluation
import TracedEval.Json

/-!
# The stored form

Terms, environments and evaluations are stored as JSON without loss.  A term is an
object that names its kind under `type` and holds its contents under `value`;
environments are objects with a member for each symbol.

What is read back may also give the two parts of a term, of an error or of an
application as an array, and may have members that mean nothing.  A member that
does mean something may not be repeated.
-/

namespace TracedEval

namespace Stored

/-! ## Parts of a record -/

/-- The member with a name: missing, or there once, or else no record at all. -/
def uniqueMember (members : List (String × Json)) (name : String) :
    Option (Option Json) :=
  match (members.filter (·.1 == name)).map (·.2) with
  | [] => some none
  | [value] => some (some value)
  | _ => none

def required (members : List (String × Json)) (name : String) : Option Json :=
  (uniqueMember members name).bind id

def pairOf (first second : String) : Json → Option (Json × Json)
  | .array [one, two] => some (one, two)
  | .object members => do
      let one ← required members first
      let two ← required members second
      return (one, two)
  | _ => none

def stringOf : Json → Option String
  | .string value => some value
  | _ => none

/-! ## Integers -/

def wordBase : Nat := 4294967296

/-- The digits of a number in base `2 ^ 32`, least first; the bound is one on how
many there are. -/
def words : Nat → Nat → List Nat
  | 0, _ => []
  | bound + 1, value =>
      if value = 0 then [] else value % wordBase :: words bound (value / wordBase)

def ofWords (digits : List Nat) : Nat :=
  digits.foldr (fun digit value => digit + wordBase * value) 0

def integerJson (value : Int) : Json :=
  .array [.ofInt value.sign,
    .array ((words value.natAbs value.natAbs).map (fun (digit : Nat) => .ofInt digit))]

def wordOf : Json → Option Nat
  | .number (.whole value) =>
      if 0 ≤ value ∧ value < wordBase then some value.toNat else none
  | _ => none

def integerOf : Json → Option Int
  | .array [.number (.whole sign), .array digits] => do
      let magnitude ← digits.mapM wordOf
      if sign = 0 ∨ sign = 1 ∨ sign = -1 then
        return sign * (ofWords magnitude : Int)
      else none
  | _ => none

/-! ## Other leaves -/

/-- Sixteen digits stand for a double that was stored as a number. -/
def decimalOf : Json → Option Decimal
  | .string text =>
      match Decimal.ofChars text.toList with
      | .ok value => some value
      | .error _ => none
  | .number (.whole value) => some ⟨value, 0⟩
  | .number (.double value) => some (value.toFixedDigits 15)
  | _ => none

def characterOf (json : Json) : Option Char := do
  match (← stringOf json).toList with
  | [char] => return char
  | _ => none

def symbolOf (json : Json) : Option Symbol := do
  match Symbol.ofText? (← stringOf json) with
  | .ok symbol => return symbol
  | .error _ => none

def keywordOf (json : Json) : Option Keyword := do
  match Keyword.ofText? (← stringOf json) with
  | .ok keyword => return keyword
  | .error _ => none

def errorJson (error : ErrorValue) : Json :=
  .object [("code", .string error.code), ("message", .string error.message)]

def errorOf (json : Json) : Option ErrorValue := do
  let (code, message) ← pairOf "code" "message" json
  return ⟨← stringOf code, ← stringOf message⟩

end Stored

open Stored

/-! ## Terms -/

namespace Term

def tagged (kind : String) (value : Json) : Json :=
  .object [("type", .string kind), ("value", value)]

mutual

def toStored : Term → Json
  | .nil => .object [("type", .string "Nil")]
  | .boolean value => tagged "Boolean" (.boolean value)
  | .integer value => tagged "Integer" (integerJson value)
  | .decimal value => tagged "Decimal" (.string value.text)
  | .character value => tagged "Character" (.string (String.ofList [value]))
  | .string value => tagged "String" (.string value)
  | .keyword value => tagged "Keyword" (.string value.text)
  | .symbol value => tagged "Symbol" (.string value.text)
  | .error value => tagged "Error" (errorJson value)
  | .list items => tagged "List" (.array (toStoredItems items))
  | .set elements => tagged "Set" (.array (toStoredItems elements))
  | .map entries => tagged "Map" (.array (toStoredEntries entries))
  | .application head args =>
      tagged "Application" (.object
        [("args", .array (toStoredItems args)), ("symbol", .string head.text)])

def toStoredItems : List Term → List Json
  | [] => []
  | item :: items => toStored item :: toStoredItems items

def toStoredEntries : List (Term × Term) → List Json
  | [] => []
  | (key, value) :: entries =>
      .array [toStored key, toStored value] :: toStoredEntries entries

end

def leafOfStored (kind : String) (value : Json) : Option Term :=
  match kind, value with
  | "Nil", .null => some .nil
  | "Boolean", .boolean value => some (.boolean value)
  | "Integer", value => (integerOf value).map .integer
  | "Decimal", value => (decimalOf value).map .decimal
  | "Character", value => (characterOf value).map .character
  | "String", value => (stringOf value).map .string
  | "Keyword", value => (keywordOf value).map .keyword
  | "Symbol", value => (symbolOf value).map .symbol
  | "Error", value => (errorOf value).map .error
  | _, _ => none

/-- The name of a kind, which may also be that of the only member of an object, with
nothing in it. -/
def kindOf : Json → Option String
  | .string kind => some kind
  | .object [(kind, .null)] => some kind
  | _ => none

def partsOfStored : Json → Option (String × Json)
  | .array [.string kind, value] => some (kind, value)
  | .object members => do
      let kind ← kindOf (← required members "type")
      match ← uniqueMember members "value" with
      | some value => return (kind, value)
      | none => if kind = "Nil" then return (kind, .null) else none
  | _ => none

def ofStoredWithin : Nat → Json → Option Term
  | 0, _ => none
  | depth + 1, json => do
      let read := ofStoredWithin depth
      let (kind, value) ← partsOfStored json
      match kind, value with
      | "List", .array items => return .list (← items.mapM read)
      | "Set", .array items => return .setOf (← items.mapM read)
      | "Map", .array entries =>
          let entries ← entries.mapM (fun entry =>
            match entry with
            | .array [key, value] => do return (← read key, ← read value)
            | _ => none)
          return .map (entriesOf entries)
      | "Application", value =>
          let (head, args) ← pairOf "symbol" "args" value
          let head ← symbolOf head
          match args with
          | .array args => return .application head (← args.mapM read)
          | _ => none
      | kind, value => leafOfStored kind value

end Term

namespace Json

mutual

def depth : Json → Nat
  | array items => 1 + depthAll items
  | object members => 1 + depthMembers members
  | _ => 0

def depthAll : List Json → Nat
  | [] => 0
  | item :: items => max (depth item) (depthAll items)

def depthMembers : List (String × Json) → Nat
  | [] => 0
  | (_, value) :: members => max (depth value) (depthMembers members)

end

end Json

namespace Term

def ofStored? (json : Json) : Option Term :=
  ofStoredWithin (json.depth + 1) json

end Term

/-! ## Environments and evaluations -/

namespace Bindings

def toStored (bindings : Bindings) : Json :=
  .objectOf (bindings.entries.map
    (fun (symbol, value) => (symbol.text, value.toStored)))

def ofStored? : Json → Option Bindings
  | .object members => do
      let entries ← members.mapM (fun (name, value) => do
        return (← symbolOf (.string name), ← Term.ofStored? value))
      return ofList entries
  | _ => none

end Bindings

namespace SymbolSet

def toStored (symbols : SymbolSet) : Json :=
  .array (symbols.members.map (fun symbol => .string symbol.text))

def ofStored? : Json → Option SymbolSet
  | .array items => (items.mapM symbolOf).map ofList
  | _ => none

end SymbolSet

namespace Evaluation

def operationOf (json : Json) : Option Operation := do
  let name ← stringOf json
  Operation.all.find? (fun operation => operation.text == name)

mutual

/-- What an evaluation lacks, cached bindings or unbound symbols, is left out. -/
def toStored : Evaluation → Json
  | mk input result operation dependencies bindings subSteps cached unbound =>
      .objectOf
        ([("input", input.toStored), ("result", result.toStored),
            ("operation", .string operation.text),
            ("dependencies", dependencies.toStored),
            ("bindings", bindings.toStored),
            ("sub_steps", .array (toStoredAll subSteps))] ++
          (cached.toList.map (fun stored =>
            ("cached_dependencies", stored.toStored))) ++
          (if unbound.isEmpty then [] else [("unbound_symbols", unbound.toStored)]))

def toStoredAll : List Evaluation → List Json
  | [] => []
  | step :: steps => toStored step :: toStoredAll steps

end

mutual

def isStorable : Evaluation → Bool
  | mk input result _ dependencies bindings subSteps cached _ =>
      input.isWritable && result.isWritable && dependencies.isWritable &&
        bindings.isWritable && isStorableAll subSteps && cached.all Bindings.isWritable

def isStorableAll : List Evaluation → Bool
  | [] => true
  | step :: steps => isStorable step && isStorableAll steps

end

def store? (evaluation : Evaluation) : Option Json :=
  if evaluation.isStorable then some evaluation.toStored else none

def ofStoredWithin : Nat → Json → Option Evaluation
  | 0, _ => none
  | depth + 1, json =>
      match json with
      | .object members => do
          let input ← Term.ofStored? (← required members "input")
          let result ← Term.ofStored? (← required members "result")
          let operation ← operationOf (← required members "operation")
          let dependencies ← Bindings.ofStored? (← required members "dependencies")
          let bindings ← Bindings.ofStored? (← required members "bindings")
          let subSteps ←
            match ← required members "sub_steps" with
            | .array steps => steps.mapM (ofStoredWithin depth)
            | _ => none
          let cached ←
            match ← uniqueMember members "cached_dependencies" with
            | none => some none
            | some .null => some none
            | some stored => (Bindings.ofStored? stored).map some
          let unbound ←
            match ← uniqueMember members "unbound_symbols" with
            | none => some SymbolSet.empty
            | some stored => SymbolSet.ofStored? stored
          return mk input result operation dependencies bindings subSteps cached
            unbound
      | _ => none

def ofStored? (json : Json) : Option Evaluation :=
  ofStoredWithin (json.depth + 1) json

end Evaluation

end TracedEval
