import TracedEval.Decimal

/-!
# Universally unique identifiers

An identifier is a number below `2 ^ 128`, written as 32 hexadecimal digits in
groups of 8, 4, 4, 4 and 12.  It is also read without its hyphens, inside braces,
or after `urn:uuid:`, where `uuid` may be in capitals.
-/

namespace TracedEval

structure Uuid where
  value : Nat
  deriving DecidableEq, Repr, Inhabited

namespace Uuid

private def ofDigits? (chars : List Char) : Option Uuid :=
  (Numeral.ofHexDigits? chars).map (⟨·⟩)

private def ofGroups? (chars : List Char) : Option Uuid :=
  let hyphens := [8, 13, 18, 23]
  if chars.length = 36 ∧ hyphens.all (fun place => chars[place]? == some '-') then
    ofDigits?
      ((chars.zipIdx.filter (fun (_, place) => !hyphens.contains place)).map (·.1))
  else none

def ofChars? (chars : List Char) : Option Uuid :=
  let urns := ["urn:uuid:".toList, "urn:UUID:".toList]
  if chars.length = 32 then ofDigits? chars
  else if chars.length = 38 ∧ chars.head? = some '{' ∧ chars.getLast? = some '}' then
    ofGroups? (chars.drop 1).dropLast
  else if urns.contains (chars.take 9) then ofGroups? (chars.drop 9)
  else ofGroups? chars

def ofText? (text : String) : Option Uuid :=
  ofChars? text.toList

def chars (uuid : Uuid) : List Char :=
  let digits := Nat.toDigits 16 uuid.value
  let digits := List.replicate (32 - digits.length) '0' ++ digits
  digits.take 8 ++ '-' :: ((digits.drop 8).take 4 ++
    '-' :: ((digits.drop 12).take 4 ++
      '-' :: ((digits.drop 16).take 4 ++ '-' :: digits.drop 20)))

def text (uuid : Uuid) : String :=
  String.ofList uuid.chars

end Uuid

end TracedEval
