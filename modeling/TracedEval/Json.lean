import TracedEval.Binary64
import TracedEval.SortedList

/-!
# JSON values

Numbers are whole numbers of 64 bits, signed or not, or double-precision ones.
The members of an object are kept in the order of their names; a text may repeat
a name or put names in any order, and `Json.collapse` sorts that out.
-/

namespace TracedEval

namespace Json

inductive Number where
  | whole (value : Int)
  | double (value : Binary64)
  deriving DecidableEq, Repr, Inhabited

end Json

inductive Json where
  | null
  | boolean (value : Bool)
  | number (value : Json.Number)
  | string (value : String)
  | array (items : List Json)
  | object (members : List (String × Json))
  deriving Inhabited, Repr

namespace Json

def ofInt (value : Int) : Json :=
  number (.whole value)

def fitsWord (value : Int) : Bool :=
  Numeral.leastInt64 ≤ value && value ≤ Numeral.greatestWord64

/-- The members in the order of their names; of several with one name the last
counts. -/
def membersOf (members : List (String × Json)) : List (String × Json) :=
  SortedList.ofList (SortedList.byKey Ord.compare) members

def objectOf (members : List (String × Json)) : Json :=
  object (membersOf members)

def member? (name : String) (members : List (String × Json)) : Option Json :=
  members.lookup name

mutual

/-- Give every object inside its members in order and without repetition. -/
def collapse : Json → Json
  | array items => array (collapseAll items)
  | object members => objectOf (collapseMembers members)
  | json => json

def collapseAll : List Json → List Json
  | [] => []
  | item :: items => collapse item :: collapseAll items

def collapseMembers : List (String × Json) → List (String × Json)
  | [] => []
  | (name, value) :: members => (name, collapse value) :: collapseMembers members

end

/-! ## Texts -/

def controlChars (char : Char) : List Char :=
  let digits := Nat.toDigits 16 char.toNat
  "\\u".toList ++ List.replicate (4 - digits.length) '0' ++ digits

def escapedChar : Char → List Char
  | '"' => ['\\', '"']
  | '\\' => ['\\', '\\']
  | '\x08' => ['\\', 'b']
  | '\x0c' => ['\\', 'f']
  | '\n' => ['\\', 'n']
  | '\r' => ['\\', 'r']
  | '\t' => ['\\', 't']
  | char => if char.toNat < 0x20 then controlChars char else [char]

def quotedChars (text : String) : List Char :=
  '"' :: (text.toList.flatMap escapedChar ++ ['"'])

/-- Digits with the point after `point` of them.  Between 10⁻⁵ and 10¹⁶ the point
is written where it is, elsewhere with an exponent; a number that could be taken
for a whole one ends in `.0`. -/
def doubleDigits (digits : List Char) (power : Int) : List Char :=
  let count : Int := digits.length
  let point := count + power
  if 0 ≤ power ∧ point ≤ 16 then
    digits ++ List.replicate power.toNat '0' ++ ['.', '0']
  else if 0 < point ∧ point ≤ 16 then
    digits.take point.toNat ++ '.' :: digits.drop point.toNat
  else if -5 < point ∧ point ≤ 0 then
    '0' :: '.' :: (List.replicate (-point).toNat '0' ++ digits)
  else
    let fraction :=
      match digits.drop 1 with
      | [] => []
      | rest => '.' :: rest
    digits.take 1 ++ fraction ++
      'e' :: ((if 0 < point then ['+'] else []) ++ Numeral.integerChars (point - 1))

def doubleChars (value : Binary64) : List Char :=
  let magnitude :=
    if value.isZero then ['0', '.', '0']
    else
      let (digits, power) := value.shortest
      doubleDigits (Numeral.naturalChars digits) power
  if value.negative then '-' :: magnitude else magnitude

def Number.chars : Number → List Char
  | .whole value => Numeral.integerChars value
  | .double value => doubleChars value

mutual

def write : Json → List Char → List Char
  | null, rest => "null".toList ++ rest
  | boolean true, rest => "true".toList ++ rest
  | boolean false, rest => "false".toList ++ rest
  | number value, rest => value.chars ++ rest
  | string value, rest => quotedChars value ++ rest
  | array items, rest => '[' :: writeItems items (']' :: rest)
  | object members, rest => '{' :: writeMembers members ('}' :: rest)

def writeItems : List Json → List Char → List Char
  | [], rest => rest
  | item :: items, rest =>
      write item (if items.isEmpty then rest else ',' :: writeItems items rest)

def writeMembers : List (String × Json) → List Char → List Char
  | [], rest => rest
  | (name, value) :: members, rest =>
      quotedChars name ++ ':' :: write value
        (if members.isEmpty then rest else ',' :: writeMembers members rest)

end

def text (json : Json) : String :=
  String.ofList (json.write [])

end Json

end TracedEval
