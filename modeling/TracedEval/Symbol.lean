/-!
# Symbols and keywords

A symbol has a name and, where its text holds a solidus with something on both
sides, the namespace before the first one.  A keyword is a symbol written after
a colon.
-/

namespace TracedEval

structure Symbol where
  ns : Option String
  name : String
  deriving DecidableEq, Repr, Inhabited

namespace Symbol

/-- Split at the first solidus when both sides are non-empty. -/
def ofChars (chars : List Char) : Symbol :=
  match chars.takeWhile (· != '/'), chars.dropWhile (· != '/') with
  | first :: space, _ :: initial :: name =>
    ⟨some (String.ofList (first :: space)), String.ofList (initial :: name)⟩
  | _, _ => ⟨none, String.ofList chars⟩

def ofText (text : String) : Symbol :=
  ofChars text.toList

def chars (symbol : Symbol) : List Char :=
  match symbol.ns with
  | some space => space.toList ++ '/' :: symbol.name.toList
  | none => symbol.name.toList

def text (symbol : Symbol) : String :=
  String.ofList symbol.chars

theorem chars_ofChars (chars : List Char) : (ofChars chars).chars = chars := by
  have whole : chars.takeWhile (· != '/') ++ chars.dropWhile (· != '/') = chars :=
    List.takeWhile_append_dropWhile
  unfold ofChars
  split
  · rename_i first space mark initial name before after
    have solidus : mark = '/' := by
      simpa [after] using List.head?_dropWhile_not (· != '/') chars
    rw [before, after, solidus] at whole
    simpa [Symbol.chars] using whole
  · simp [Symbol.chars]

theorem text_ofText (text : String) : (ofText text).text = text := by
  rw [Symbol.text, ofText, chars_ofChars, String.ofList_toList]

/-- Symbols without a namespace come first; texts are ordered as UTF-8. -/
def compare : Symbol → Symbol → Ordering :=
  compareLex (compareOn ns) (compareOn name)

instance : Ord Symbol := ⟨Symbol.compare⟩

instance : Std.TransCmp Symbol.compare :=
  inferInstanceAs (Std.TransCmp (compareLex (compareOn ns) (compareOn name)))

theorem eq_of_compare {first second : Symbol}
    (same : first.compare second = .eq) : first = second := by
  have ⟨spaces, names⟩ := Ordering.then_eq_eq.mp same
  cases first
  cases second
  exact Symbol.mk.injEq .. ▸
    ⟨Std.LawfulEqOrd.eq_of_compare spaces, Std.LawfulEqOrd.eq_of_compare names⟩

instance : Std.LawfulEqCmp Symbol.compare where
  eq_of_compare := eq_of_compare

def ofText? (text : String) : Except String Symbol :=
  if text.isEmpty then
    .error "Invalid symbol: empty identifier"
  else
    .ok (ofText text)

end Symbol

structure Keyword where
  symbol : Symbol
  deriving DecidableEq, Repr, Inhabited

namespace Keyword

def ofChars : List Char → Keyword
  | ':' :: chars => ⟨Symbol.ofChars chars⟩
  | chars => ⟨Symbol.ofChars chars⟩

def ofText (text : String) : Keyword :=
  ofChars text.toList

def qualifiedName (keyword : Keyword) : String :=
  keyword.symbol.text

def chars (keyword : Keyword) : List Char :=
  ':' :: keyword.symbol.chars

def text (keyword : Keyword) : String :=
  String.ofList keyword.chars

def compare (first second : Keyword) : Ordering :=
  first.symbol.compare second.symbol

def ofText? (text : String) : Except String Keyword :=
  match text.toList with
  | ':' :: first :: rest => .ok (ofChars (first :: rest))
  | _ => .error ("Invalid keyword: " ++ text)

end Keyword

end TracedEval
