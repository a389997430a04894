import TracedEval.Json.Reader

/-!
# JSON read loosely

A part of a text that nobody has a use for is only passed over.  It has to be JSON,
but its numbers may be of any size, its strings may hold lone surrogates, and it may
be nested to any depth.  `Json.Loose` keeps what a text says and where it says
something that could be passed over but not read.
-/

namespace TracedEval.Json

inductive Loose where
  | leaf (value : Option Json)
  | array (items : List Loose)
  | object (members : List (Option String × Loose))
  deriving Inhabited

namespace Loose

mutual

def json? : Loose → Option Json
  | leaf value => value
  | array items => (jsonItems? items).map .array
  | object members => (jsonMembers? members).map .object

def jsonItems? : List Loose → Option (List Json)
  | [] => some []
  | item :: items => do
      return (← json? item) :: (← jsonItems? items)

def jsonMembers? : List (Option String × Loose) → Option (List (String × Json))
  | [] => some []
  | (name, value) :: members => do
      return (← name, ← json? value) :: (← jsonMembers? members)

end

/-! ## Leaves -/

def skipBlanks (chars : List Char) : List Char :=
  chars.dropWhile Cursor.isBlank

def skipDigits : List Char → Option (List Char)
  | [] => none
  | char :: rest =>
      if char.isDigit then some (rest.dropWhile Char.isDigit) else none

def skipWhole : List Char → Option (List Char)
  | '0' :: rest => if (rest.head?.any Char.isDigit) then none else some rest
  | chars => skipDigits chars

def skipFraction : List Char → Option (List Char)
  | '.' :: rest => skipDigits rest
  | chars => some chars

def skipExponent : List Char → Option (List Char)
  | char :: rest =>
      if char = 'e' ∨ char = 'E' then
        match rest with
        | '+' :: digits => skipDigits digits
        | '-' :: digits => skipDigits digits
        | digits => skipDigits digits
      else some (char :: rest)
  | [] => some []

def skipNumber (chars : List Char) : Option (List Char) :=
  let unsigned :=
    match chars with
    | '-' :: rest => rest
    | _ => chars
  ((skipWhole unsigned).bind skipFraction).bind skipExponent

def skipString : List Char → Option (List Char)
  | [] => none
  | '"' :: rest => some rest
  | '\\' :: 'u' :: one :: two :: three :: four :: rest =>
      if (Numeral.ofHexDigits? [one, two, three, four]).isSome then skipString rest
      else none
  | '\\' :: char :: rest =>
      if "\"\\/bfnrt".toList.contains char then skipString rest else none
  | char :: rest => if char.toNat < 0x20 then none else skipString rest

def upTo (chars rest : List Char) : List Char :=
  chars.take (chars.length - rest.length)

def leafOf (chars rest : List Char) : Loose × List Char :=
  (leaf (readChars 1 (upTo chars rest)).toOption, rest)

def readName (chars : List Char) : Option (Option String × List Char) :=
  match chars with
  | '"' :: inside => do
      let rest ← skipString inside
      match (readChars 1 (upTo chars rest)).toOption with
      | some (.string name) => return (some name, rest)
      | _ => return (none, rest)
  | _ => none

/-! ## Values -/

/-- Arrays and objects are read only while there is room for another level. -/
def within (room : Nat) (value : Loose) : Loose :=
  if room ≤ 1 then leaf none else value

mutual

/-- A value and what comes after it.  The bound is one on the characters left, and
`room` is as in `Json.readChars`. -/
def readValue (room : Nat) : Nat → List Char → Option (Loose × List Char)
  | 0, _ => none
  | bound + 1, chars =>
      match skipBlanks chars with
      | '[' :: rest =>
          match skipBlanks rest with
          | ']' :: rest => some (within room (array []), rest)
          | rest => readItems room bound [] rest
      | '{' :: rest =>
          match skipBlanks rest with
          | '}' :: rest => some (within room (object []), rest)
          | rest => readMembers room bound [] rest
      | '"' :: rest => (skipString rest).map (leafOf ('"' :: rest))
      | 'n' :: 'u' :: 'l' :: 'l' :: rest => some (leaf (some .null), rest)
      | 't' :: 'r' :: 'u' :: 'e' :: rest => some (leaf (some (.boolean true)), rest)
      | 'f' :: 'a' :: 'l' :: 's' :: 'e' :: rest =>
          some (leaf (some (.boolean false)), rest)
      | chars => (skipNumber chars).map (leafOf chars)

def readItems (room : Nat) :
    Nat → List Loose → List Char → Option (Loose × List Char)
  | 0, _, _ => none
  | bound + 1, found, chars =>
      match readValue (room - 1) bound chars with
      | none => none
      | some (item, rest) =>
          match skipBlanks rest with
          | ',' :: rest => readItems room bound (item :: found) rest
          | ']' :: rest => some (within room (array (item :: found).reverse), rest)
          | _ => none

def readMembers (room : Nat) :
    Nat → List (Option String × Loose) → List Char → Option (Loose × List Char)
  | 0, _, _ => none
  | bound + 1, found, chars =>
      match readName (skipBlanks chars) with
      | none => none
      | some (name, rest) =>
          match skipBlanks rest with
          | ':' :: rest =>
              match readValue (room - 1) bound rest with
              | none => none
              | some (value, rest) =>
                  match skipBlanks rest with
                  | ',' :: rest => readMembers room bound ((name, value) :: found) rest
                  | '\x7d' :: rest =>
                      some (within room (object ((name, value) :: found).reverse),
                        rest)
                  | _ => none
          | _ => none

end

def ofChars? (chars : List Char) : Option Loose :=
  match readValue depthLimit (chars.length + 2) chars with
  | some (value, rest) => if (skipBlanks rest).isEmpty then some value else none
  | none => none

end Loose

end TracedEval.Json
