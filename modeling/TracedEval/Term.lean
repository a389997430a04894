import TracedEval.Decimal
import TracedEval.SortedList
import TracedEval.Symbol

/-!
# Terms

Programs and the data they work on are the same thing: terms.  Symbols and
applications stand for something else and are reduced; every other leaf stands
for itself.  A set holds its elements, and a map its entries, in rising order
without repetition.

Two notions of sameness are kept apart.  Terms are identical when they are
written alike, and equal when `Term.compare` says so, which takes decimals by
their values.
-/

namespace TracedEval

structure ErrorValue where
  code : String
  message : String
  deriving DecidableEq, Repr, Inhabited

namespace ErrorValue

def text (error : ErrorValue) : String :=
  error.code ++ ": " ++ error.message

def compare (first second : ErrorValue) : Ordering :=
  (Ord.compare first.code second.code).then
    (Ord.compare first.message second.message)

end ErrorValue

inductive Term where
  | nil
  | boolean (value : Bool)
  | integer (value : Int)
  | decimal (value : Decimal)
  | character (value : Char)
  | string (value : String)
  | keyword (value : Keyword)
  | symbol (value : Symbol)
  | error (value : ErrorValue)
  | list (items : List Term)
  | set (elements : List Term)
  | map (entries : List (Term × Term))
  | application (head : Symbol) (args : List Term)
  deriving Inhabited, Repr

namespace Term

def rank : Term → Nat
  | nil => 0
  | boolean _ => 1
  | integer _ => 2
  | decimal _ => 3
  | character _ => 4
  | string _ => 5
  | keyword _ => 6
  | symbol _ => 7
  | error _ => 8
  | list _ => 9
  | set _ => 10
  | map _ => 11
  | application _ _ => 12

mutual

def compare : Term → Term → Ordering
  | nil, nil => .eq
  | boolean first, boolean second => Ord.compare first second
  | integer first, integer second => Ord.compare first second
  | decimal first, decimal second => first.compare second
  | character first, character second => Ord.compare first second
  | string first, string second => Ord.compare first second
  | keyword first, keyword second => first.compare second
  | symbol first, symbol second => first.compare second
  | error first, error second => first.compare second
  | list firsts, list seconds => compareAll firsts seconds
  | set firsts, set seconds => compareAll firsts seconds
  | map firsts, map seconds => compareEntries firsts seconds
  | application first firsts, application second seconds =>
    (first.compare second).then (compareAll firsts seconds)
  | first, second => Ord.compare first.rank second.rank

def compareAll : List Term → List Term → Ordering
  | [], [] => .eq
  | [], _ :: _ => .lt
  | _ :: _, [] => .gt
  | first :: firsts, second :: seconds =>
    (compare first second).then (compareAll firsts seconds)

def compareEntries : List (Term × Term) → List (Term × Term) → Ordering
  | [], [] => .eq
  | [], _ :: _ => .lt
  | _ :: _, [] => .gt
  | (key, value) :: firsts, (key', value') :: seconds =>
    ((compare key key').then (compare value value')).then
      (compareEntries firsts seconds)

end

/-- Equality of terms, which takes decimals by value. -/
def equal (first second : Term) : Bool :=
  compare first second == .eq

def equalAll (firsts seconds : List Term) : Bool :=
  compareAll firsts seconds == .eq

mutual

def isConstant : Term → Bool
  | symbol _ => false
  | application _ _ => false
  | list items => allConstant items
  | set elements => allConstant elements
  | map entries => allEntriesConstant entries
  | _ => true

def allConstant : List Term → Bool
  | [] => true
  | item :: items => isConstant item && allConstant items

def allEntriesConstant : List (Term × Term) → Bool
  | [] => true
  | (key, value) :: entries =>
    isConstant key && isConstant value && allEntriesConstant entries

end

def isError : Term → Bool
  | error _ => true
  | _ => false

/-! ## Sets and maps -/

def setOf (elements : List Term) : Term :=
  set (SortedList.ofList compare elements)

def insertEntry (entries : List (Term × Term)) (key value : Term) :
    List (Term × Term) :=
  SortedList.insert (SortedList.byKey compare) (key, value) entries

def entriesOf (entries : List (Term × Term)) : List (Term × Term) :=
  SortedList.ofList (SortedList.byKey compare) entries

/-- A map whose keys are constant, or else the first key that is not. -/
def mapOf (entries : List (Term × Term)) : Except Term Term :=
  match entries.find? (fun entry => !entry.1.isConstant) with
  | some (key, _) => .error key
  | none => .ok (map (entriesOf entries))

def entryAt? (entries : List (Term × Term)) (key : Term) : Option Term :=
  SortedList.find? compare key entries

/-! ## Texts -/

def escapedChar : Char → List Char
  | '\\' => ['\\', '\\']
  | '"' => ['\\', '"']
  | '\n' => ['\\', 'n']
  | '\t' => ['\\', 't']
  | '\r' => ['\\', 'r']
  | char => [char]

def quotedChars (text : String) : List Char :=
  '"' :: (text.toList.flatMap escapedChar ++ ['"'])

def characterChars : Char → List Char
  | '\n' => "\\newline".toList
  | ' ' => "\\space".toList
  | '\t' => "\\tab".toList
  | '\r' => "\\return".toList
  | char => ['\\', char]

def errorChars (error : ErrorValue) : List Char :=
  "#error \x7b:code ".toList ++ quotedChars error.code ++
    " :message ".toList ++ quotedChars error.message ++ ['}']

mutual

def write : Term → List Char → List Char
  | nil, rest => 'n' :: 'i' :: 'l' :: rest
  | boolean true, rest => 't' :: 'r' :: 'u' :: 'e' :: rest
  | boolean false, rest => 'f' :: 'a' :: 'l' :: 's' :: 'e' :: rest
  | integer value, rest => Numeral.integerChars value ++ rest
  | decimal value, rest => value.chars ++ 'M' :: rest
  | character value, rest => characterChars value ++ rest
  | string value, rest => quotedChars value ++ rest
  | keyword value, rest => value.chars ++ rest
  | symbol value, rest => value.chars ++ rest
  | error value, rest => errorChars value ++ rest
  | list [], rest => '[' :: ']' :: rest
  | list (item :: items), rest =>
    '[' :: write item (writeAll items (']' :: rest))
  | set [], rest => '#' :: '{' :: '}' :: rest
  | set (element :: elements), rest =>
    '#' :: '{' :: write element (writeAll elements ('}' :: rest))
  | map [], rest => '{' :: '}' :: rest
  | map ((key, value) :: entries), rest =>
    '{' :: write key (' ' :: write value (writeEntries entries ('}' :: rest)))
  | application head args, rest =>
    '(' :: (head.chars ++ writeAll args (')' :: rest))

def writeAll : List Term → List Char → List Char
  | [], rest => rest
  | item :: items, rest => ' ' :: write item (writeAll items rest)

def writeEntries : List (Term × Term) → List Char → List Char
  | [], rest => rest
  | (key, value) :: entries, rest =>
    ',' :: ' ' :: write key (' ' :: write value (writeEntries entries rest))

end

mutual

theorem write_append : ∀ (term : Term) (rest more : List Char),
    term.write (rest ++ more) = term.write rest ++ more
  | nil, _, _ => rfl
  | boolean true, _, _ => rfl
  | boolean false, _, _ => rfl
  | integer _, rest, more => (List.append_assoc _ rest more).symm
  | decimal _, rest, more => (List.append_assoc _ (_ :: rest) more).symm
  | character _, rest, more => (List.append_assoc _ rest more).symm
  | string _, rest, more => (List.append_assoc _ rest more).symm
  | keyword _, rest, more => (List.append_assoc _ rest more).symm
  | symbol _, rest, more => (List.append_assoc _ rest more).symm
  | error _, rest, more => (List.append_assoc _ rest more).symm
  | list [], _, _ => rfl
  | list (item :: items), rest, more => by
      rw [write, write, ← List.cons_append, writeAll_append, write_append item,
        List.cons_append]
  | set [], _, _ => rfl
  | set (element :: elements), rest, more => by
      rw [write, write, ← List.cons_append, writeAll_append, write_append element,
        List.cons_append, List.cons_append]
  | map [], _, _ => rfl
  | map ((key, value) :: entries), rest, more => by
      rw [write, write, ← List.cons_append, writeEntries_append, write_append value,
        ← List.cons_append, write_append key, List.cons_append]
  | application head args, rest, more => by
      have inside := writeAll_append args (')' :: rest) more
      rw [write, write, List.cons_append, List.append_assoc, ← inside]
      rfl

theorem writeAll_append : ∀ (items : List Term) (rest more : List Char),
    writeAll items (rest ++ more) = writeAll items rest ++ more
  | [], _, _ => rfl
  | item :: items, rest, more => by
      rw [writeAll, writeAll, writeAll_append items, write_append item, List.cons_append]

theorem writeEntries_append : ∀ (entries : List (Term × Term)) (rest more : List Char),
    writeEntries entries (rest ++ more) = writeEntries entries rest ++ more
  | [], _, _ => rfl
  | (key, value) :: entries, rest, more => by
      rw [writeEntries, writeEntries, writeEntries_append entries, write_append value,
        ← List.cons_append, write_append key, List.cons_append, List.cons_append]

end

def chars (term : Term) : List Char :=
  term.write []

def text (term : Term) : String :=
  String.ofList term.chars

/-! ## Decimals inside terms -/

mutual

def decimals : Term → List Decimal
  | decimal value => [value]
  | list items => decimalsOfAll items
  | set elements => decimalsOfAll elements
  | map entries => decimalsOfEntries entries
  | application _ args => decimalsOfAll args
  | _ => []

def decimalsOfAll : List Term → List Decimal
  | [] => []
  | item :: items => decimals item ++ decimalsOfAll items

def decimalsOfEntries : List (Term × Term) → List Decimal
  | [] => []
  | (key, value) :: entries =>
    decimals key ++ (decimals value ++ decimalsOfEntries entries)

end

def isWritable (term : Term) : Bool :=
  term.decimals.all Decimal.isWritable

def isIndexable (term : Term) : Bool :=
  term.decimals.all Decimal.isIndexable

end Term

end TracedEval
