import TracedEval.Term
import TracedEval.Unicode.Printable

/-!
# Forms

A form is what a text says before it is known to mean a term: number literals are
still text, parentheses may hold anything, and a tag may be unknown.  Messages
about a form show its structure, with texts quoted.
-/

namespace TracedEval

inductive Form where
  | integer (literal : String)
  | decimal (literal : String)
  | character (value : Char)
  | string (value : String)
  | keyword (name : String)
  | symbol (name : String)
  | tagged (tag : String) (form : Form)
  | list (items : List Form)
  | vector (items : List Form)
  | set (items : List Form)
  | map (entries : List (Form × Form))
  deriving Inhabited, Repr

namespace Form

/-! ## Quoted characters -/

def numberedChar (char : Char) : List Char :=
  "\\u\x7b".toList ++ Nat.toDigits 16 char.toNat ++ ['}']

def quotedChar (quote : Char) (char : Char) : List Char :=
  if char = quote then ['\\', quote]
  else
    match char with
    | '\\' => ['\\', '\\']
    | '\n' => ['\\', 'n']
    | '\t' => ['\\', 't']
    | '\r' => ['\\', 'r']
    | '\x00' => ['\\', '0']
    | char =>
        if Unicode.isPrintable char then [char] else numberedChar char

def quotedText (text : String) : List Char :=
  '"' :: (text.toList.flatMap (quotedChar '"') ++ ['"'])

/-! ## Structure -/

private def named (name : String) (contents : List Char) (rest : List Char) :
    List Char :=
  name.toList ++ '(' :: (contents ++ ')' :: rest)

private def opened (name : String) : List Char :=
  name.toList ++ ['(', '[']

mutual

def writeStructure : Form → List Char → List Char
  | integer literal, rest => named "IntegerLiteral" (quotedText literal) rest
  | decimal literal, rest => named "DecimalLiteral" (quotedText literal) rest
  | character value, rest =>
      named "CharacterLiteral" ('\'' :: (quotedChar '\'' value ++ ['\''])) rest
  | string value, rest => named "StringLiteral" (quotedText value) rest
  | keyword name, rest => named "Keyword" (quotedText name) rest
  | symbol name, rest => named "Symbol" (quotedText name) rest
  | tagged tag form, rest =>
      "Tagged(".toList ++
        (quotedText tag ++ ',' :: ' ' :: writeStructure form (')' :: rest))
  | list items, rest => opened "List" ++ writeItems items (']' :: ')' :: rest)
  | vector items, rest => opened "Vector" ++ writeItems items (']' :: ')' :: rest)
  | set items, rest => opened "Set" ++ writeItems items (']' :: ')' :: rest)
  | map entries, rest => opened "Map" ++ writePairs entries (']' :: ')' :: rest)

def writeItems : List Form → List Char → List Char
  | [], rest => rest
  | item :: items, rest =>
      writeStructure item
        (if items.isEmpty then rest else ',' :: ' ' :: writeItems items rest)

def writePairs : List (Form × Form) → List Char → List Char
  | [], rest => rest
  | (key, value) :: entries, rest =>
      '(' :: writeStructure key (',' :: ' ' :: writeStructure value
        (')' :: if entries.isEmpty then rest
          else ',' :: ' ' :: writePairs entries rest))

end

def structureText (form : Form) : String :=
  String.ofList (form.writeStructure [])

end Form

end TracedEval
