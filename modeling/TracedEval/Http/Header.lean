import TracedEval.Decimal

/-!
# Header fields

A field has a name, of which capitals are of no matter, and a value.  A message
keeps the fields of one name together, at the place of the first of them.
-/

namespace TracedEval.Http

namespace Header

/-- The characters of a token, letters, digits and some marks, and the double quote
as well. -/
def isNameChar (char : Char) : Bool :=
  char.isDigit || ('a' ≤ char && char ≤ 'z') || ('A' ≤ char && char ≤ 'Z') ||
    "!\"#$%&'*+-.^_\x60|~".toList.contains char

def name? (text : String) : Option String :=
  if !text.isEmpty && text.length ≤ 65535 && text.toList.all isNameChar then
    some (String.ofList (text.toList.map Char.toLower))
  else none

def isValueChar (char : Char) : Bool :=
  char == '\t' || (' ' ≤ char && char != '\x7f')

def value? (text : String) : Option String :=
  if text.toList.all isValueChar then some text else none

end Header

abbrev Headers := List (String × String)

namespace Headers

def names (headers : Headers) : List String :=
  headers.foldl
    (fun names (name, _) => if names.contains name then names else names ++ [name])
    []

/-- The fields name by name, each name at its first place. -/
def grouped (headers : Headers) : Headers :=
  headers.names.flatMap (fun name => headers.filter (·.1 == name))

def mentions (headers : Headers) (name : String) : Bool :=
  headers.any (·.1 == name)

def withDefault (headers : Headers) (name value : String) : Headers :=
  if headers.mentions name then headers else headers ++ [(name, value)]

/-- Take out the fields of a name; those of the last name take their place. -/
def remove (headers : Headers) (name : String) : Headers :=
  let names :=
    match headers.names.reverse with
    | [] => []
    | last :: others =>
        if last == name then others.reverse
        else if others.contains name then
          others.reverse.map (fun other => if other == name then last else other)
        else headers.names
  names.flatMap (fun other => headers.filter (·.1 == other))

end Headers

end TracedEval.Http
