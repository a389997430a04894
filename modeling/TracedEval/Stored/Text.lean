import TracedEval.Json.Loose
import TracedEval.Stored

/-!
# Stored terms as texts

A term is read from a text without a look at the members that mean nothing in it.
Contents that come before their kind are set aside until the kind is known, which
takes a look at all of them; a kind inside of them may also be the only member of
an object with an empty object in it and, in an array, a number.
-/

namespace TracedEval

namespace Stored

open Json (Loose)

def kinds : List String :=
  ["Nil", "Boolean", "Integer", "Decimal", "Character", "String", "Keyword",
    "Symbol", "Error", "List", "Set", "Map", "Application"]

def known (names : List String) (members : List (Option String × Loose)) :
    Option (List (String × Loose)) := do
  let members ← members.mapM (fun (name, value) => name.map (·, value))
  return members.filter (fun (name, _) => names.contains name)

def kindOfMember (aside : Bool) (kind : Loose) : Option String := do
  match aside, ← kind.json? with
  | true, .object [(kind, .object [])] => return kind
  | _, kind => Term.kindOf kind

def kindOfItem (aside : Bool) (kind : Loose) : Option String := do
  match aside, ← kind.json? with
  | _, .string kind => return kind
  | true, .number (.whole place) =>
      if 0 ≤ place then kinds[place.toNat]? else none
  | _, _ => none

section Contents

variable (read : Loose → Option Json)

def itemsOf : Loose → Option Json
  | .array items => (items.mapM read).map .array
  | _ => none

def contentsOf (kind : String) (contents : Loose) : Option Json :=
  match kind, contents with
  | "List", contents => itemsOf read contents
  | "Set", contents => itemsOf read contents
  | "Map", .array entries => (entries.mapM (itemsOf read)).map .array
  | "Application", .array [head, args] => do
      return .array [← head.json?, ← itemsOf read args]
  | "Application", .object members => do
      let members ← known ["symbol", "args"] members
      let members ← members.mapM (fun (name, value) => do
        return (name, ← if name = "args" then itemsOf read value else value.json?))
      return .object members
  | "Error", .object members => do
      let members ← known ["code", "message"] members
      let members ← members.mapM (fun (name, value) => do
        return (name, ← value.json?))
      return .object members
  | _, contents => contents.json?

end Contents

/-- The stored form in what was read loosely, at most `depth` terms deep; `aside`
says whether it is part of contents that were set aside. -/
def ofLoose (aside : Bool) : Nat → Loose → Option Json
  | 0, _ => none
  | depth + 1, .array [kind, contents] => do
      let kind ← kindOfItem aside kind
      return .array [.string kind, ← contentsOf (ofLoose aside depth) kind contents]
  | depth + 1, .object members => do
      match ← known ["type", "value"] members with
      | [("type", kind)] =>
          return .object [("type", .string (← kindOfMember aside kind))]
      | [("type", kind), ("value", contents)] =>
          let kind ← kindOfMember aside kind
          let contents ← contentsOf (ofLoose aside depth) kind contents
          return .object [("type", .string kind), ("value", contents)]
      | [("value", contents), ("type", kind)] =>
          if contents.json?.isNone then none
          else
            let kind ← kindOfMember aside kind
            let contents ← contentsOf (ofLoose true depth) kind contents
            return .object [("type", .string kind), ("value", contents)]
      | _ => none
  | _, _ => none

end Stored

def Term.ofStoredText? (text : String) : Option Term := do
  let chars := text.toList
  Term.ofStored? (← Stored.ofLoose false (chars.length + 1) (← Json.Loose.ofChars? chars))

end TracedEval
