import TracedEval.Proofs.Interchange.Texts
import TracedEval.Proofs.Interchange.Values

/-!
# Texts read loosely

Read loosely, the text of a value whose numbers are whole ones of 64 bits gives the value
itself, except that arrays and objects are kept only as deep as there is room for them.
-/

namespace TracedEval

namespace Json

open Numeral Token

namespace Loose

theorem skipDigits_append {chars rest : List Char} (nonempty : chars ≠ [])
    (digits : Digits chars) (delimited : Delimited rest) :
    skipDigits (chars ++ rest) = some rest := by
  obtain ⟨first, chars, rfl⟩ := List.exists_cons_of_ne_nil nonempty
  obtain ⟨digit, digits⟩ := List.forall_mem_cons.mp digits
  rw [List.cons_append, skipDigits, if_pos digit,
    (delimited.span isDigit_of_delimiter digits).2]

theorem skip_delimited {rest : List Char} (delimited : Delimited rest) :
    (rest.head?.any Char.isDigit) = false ∧ skipFraction rest = some rest ∧
      skipExponent rest = some rest := by
  cases rest with
  | nil => exact ⟨rfl, rfl, rfl⟩
  | cons char rest =>
      have delimits := delimited char rfl
      simp only [delimiters, List.mem_cons, List.not_mem_nil, or_false] at delimits
      rcases delimits with rfl | rfl | rfl | rfl | rfl <;> exact ⟨rfl, rfl, rfl⟩

theorem skipWhole_naturalChars (value : Nat) {rest : List Char} (delimited : Delimited rest) :
    skipWhole (naturalChars value ++ rest) = some rest := by
  obtain ⟨first, chars, spelt, zero⟩ := exists_naturalChars_eq_cons value
  rw [skipWhole.eq_def]
  split
  · rename_i others same
    rw [spelt, List.cons_append, List.cons.injEq] at same
    obtain rfl := zero same.1
    cases spelt
    rw [← same.2, List.nil_append, (skip_delimited delimited).1]
    rfl
  · exact skipDigits_append (naturalChars_ne_nil value) (digits_naturalChars value) delimited

theorem skipNumber_integerChars (value : Int) {rest : List Char} (delimited : Delimited rest) :
    skipNumber (integerChars value ++ rest) = some rest := by
  have whole := skipWhole_naturalChars value.natAbs delimited
  obtain ⟨-, fraction, exponent⟩ := skip_delimited delimited
  obtain ⟨first, chars, spelt, -⟩ := exists_naturalChars_eq_cons value.natAbs
  have unsigned : first ≠ '-' := by
    have digit := digits_naturalChars value.natAbs
    rintro rfl
    rw [spelt] at digit
    exact absurd (digit '-' List.mem_cons_self) (by decide)
  rw [integerChars]
  split
  · simp only [List.cons_append, skipNumber, whole, Option.bind_some, fraction, exponent]
  · rw [spelt] at whole ⊢
    rw [skipNumber]
    · simp only [whole, Option.bind_some, fraction, exponent]
    · simp [unsigned]

/-! ## Values -/

mutual

/-- A value with arrays and objects only where there is room for them. -/
def cut (room : Nat) : Json → Loose
  | .array items => within room (array (cutAll (room - 1) items))
  | .object members => within room (object (cutMembers (room - 1) members))
  | json => leaf (some json)

def cutAll (room : Nat) : List Json → List Loose
  | [] => []
  | item :: items => cut room item :: cutAll room items

def cutMembers (room : Nat) : List (String × Json) → List (Option String × Loose)
  | [] => []
  | (name, value) :: members => (some name, cut room value) :: cutMembers room members

end

end Loose

mutual

def weight : Json → Nat
  | array items => 2 + weightAll items
  | object members => 2 + weightMembers members
  | _ => 1

def weightAll : List Json → Nat
  | [] => 0
  | item :: items => weight item + weightAll items

def weightMembers : List (String × Json) → Nat
  | [] => 0
  | (_, value) :: members => weight value + weightMembers members

end

theorem weight_pos (json : Json) : 0 < json.weight := by
  cases json <;> simp [weight]

def Whole : Json → Prop
  | number value => ∃ whole, value = .whole whole ∧ fitsWord whole = true
  | _ => True

namespace Loose

theorem upTo_append (chars rest : List Char) : upTo (chars ++ rest) rest = chars := by
  rw [upTo, List.length_append, Nat.add_sub_cancel, List.take_left]

theorem quotedChars_append (text : String) (rest : List Char) :
    quotedChars text ++ rest = '"' :: (text.toList.flatMap escapedChar ++ '"' :: rest) := by
  simp [quotedChars]

theorem readName_quotedChars (name : String) (rest : List Char) :
    readName (quotedChars name ++ rest) = some (some name, rest) := by
  have taken := upTo_append (quotedChars name) rest
  rw [quotedChars_append] at taken ⊢
  simp only [readName, skipString_quoted, Option.bind_eq_bind, Option.bind_some, taken,
    readChars_quotedChars, Except.toOption]
  rfl

section Leaves

variable (room bound : Nat) (rest : List Char)

theorem readValue_quotedChars (text : String) :
    readValue room (bound + 1) (quotedChars text ++ rest) =
      some (leaf (some (.string text)), rest) := by
  have taken := upTo_append (quotedChars text) rest
  rw [quotedChars_append] at taken ⊢
  change (skipString _).map (leafOf _) = _
  rw [skipString_quoted, Option.map_some, leafOf, taken, readChars_quotedChars]
  rfl

theorem readValue_integerChars {value : Int} (fits : fitsWord value = true)
    (delimited : Delimited rest) :
    readValue room (bound + 1) (integerChars value ++ rest) =
      some (leaf (some (.number (.whole value))), rest) := by
  have skipped := skipNumber_integerChars value delimited
  have taken := upTo_append (integerChars value) rest
  obtain ⟨first, chars, spelt, starts⟩ := exists_integerChars_eq_cons value
  have unmoved : skipBlanks (first :: chars ++ rest) = first :: chars ++ rest := by
    simp [skipBlanks, isBlank_of_number starts]
  rw [spelt] at skipped taken ⊢
  rw [readValue, unmoved]
  split
  case h_7 =>
    rw [skipped, Option.map_some, leafOf, taken, ← spelt, readChars_integerChars fits]
    rfl
  all_goals
    rename_i same
    rw [List.cons_append, List.cons.injEq] at same
    simp [same.1] at starts

end Leaves

theorem head_write {json : Json} (whole : Whole json) (rest : List Char) :
    ∃ first others, json.write rest = first :: others ∧ Cursor.isBlank first = false ∧
      first ≠ ']' := by
  cases json with
  | null => exact ⟨_, _, rfl, rfl, by decide⟩
  | boolean value => cases value <;> exact ⟨_, _, rfl, rfl, by decide⟩
  | number value =>
      obtain ⟨value, rfl, -⟩ := whole
      obtain ⟨first, chars, spelt, starts⟩ := exists_integerChars_eq_cons value
      refine ⟨first, chars ++ rest, ?_, isBlank_of_number starts, ?_⟩
      · change integerChars value ++ rest = _
        rw [spelt, List.cons_append]
      · rintro rfl
        simp at starts
  | string value => exact ⟨_, _, rfl, rfl, by decide⟩
  | array items => exact ⟨_, _, rfl, rfl, by decide⟩
  | object members => exact ⟨_, _, rfl, rfl, by decide⟩

theorem readValue_array {item : Json} (whole : Whole item) (items : List Json) (room bound : Nat)
    (rest : List Char) :
    readValue room (bound + 1) ((Json.array (item :: items)).write rest) =
      readItems room bound [] (writeItems (item :: items) (']' :: rest)) := by
  obtain ⟨first, others, spelt, visible, opens⟩ :
      ∃ first others, writeItems (item :: items) (']' :: rest) = first :: others ∧
        Cursor.isBlank first = false ∧ first ≠ ']' := head_write whole _
  have unmoved : skipBlanks (first :: others) = first :: others := by
    simp [skipBlanks, visible]
  have start : skipBlanks ((Json.array (item :: items)).write rest) = '[' :: first :: others := by
    rw [← spelt]
    rfl
  rw [readValue, start, spelt]
  split
  case h_1 same =>
    rw [← (List.cons.inj same).2, unmoved]
    split
    · rename_i same
      exact absurd (List.cons.inj same).1 opens
    · rfl
  all_goals simp_all

theorem skipBlanks_quotedChars (text : String) (rest : List Char) :
    skipBlanks (quotedChars text ++ rest) = quotedChars text ++ rest := rfl

section Steps

variable {room bound : Nat} {chars rest : List Char} {value : Loose}

theorem readItems_last (found : List Loose)
    (read : readValue (room - 1) bound chars = some (value, ']' :: rest)) :
    readItems room (bound + 1) found chars =
      some (within room (array (found.reverse ++ [value])), rest) := by
  rw [readItems, read]
  simp [skipBlanks, Cursor.isBlank]

theorem readItems_more (found : List Loose)
    (read : readValue (room - 1) bound chars = some (value, ',' :: rest)) :
    readItems room (bound + 1) found chars = readItems room bound (value :: found) rest := by
  rw [readItems, read]
  simp [skipBlanks, Cursor.isBlank]

theorem readMembers_last (name : String) (found : List (Option String × Loose))
    (read : readValue (room - 1) bound chars = some (value, '}' :: rest)) :
    readMembers room (bound + 1) found (quotedChars name ++ ':' :: chars) =
      some (within room (object (found.reverse ++ [(some name, value)])), rest) := by
  rw [readMembers, skipBlanks_quotedChars, readName_quotedChars]
  simp [skipBlanks, Cursor.isBlank, read]

theorem readMembers_more (name : String) (found : List (Option String × Loose))
    (read : readValue (room - 1) bound chars = some (value, ',' :: rest)) :
    readMembers room (bound + 1) found (quotedChars name ++ ':' :: chars) =
      readMembers room bound ((some name, value) :: found) rest := by
  rw [readMembers, skipBlanks_quotedChars, readName_quotedChars]
  simp [skipBlanks, Cursor.isBlank, read]

end Steps

theorem readValue_object (name : String) (value : Json) (members : List (String × Json))
    (room bound : Nat) (rest : List Char) :
    readValue room (bound + 1) ((Json.object ((name, value) :: members)).write rest) =
      readMembers room bound [] (writeMembers ((name, value) :: members) ('}' :: rest)) := rfl

mutual

theorem readValue_write : ∀ (json : Json) (room bound : Nat) (rest : List Char),
    Everywhere Whole json → json.weight ≤ bound → Delimited rest →
      readValue room bound (json.write rest) = some (cut room json, rest)
  | json, _, 0, _, _, wide, _ => absurd (weight_pos json) (Nat.not_lt_of_le wide)
  | .null, _, bound + 1, _, _, _, _ => rfl
  | .boolean true, _, bound + 1, _, _, _, _ => rfl
  | .boolean false, _, bound + 1, _, _, _, _ => rfl
  | .number value, room, bound + 1, rest, whole, _, delimited => by
      obtain ⟨value, rfl, fits⟩ := whole.here
      exact readValue_integerChars room bound rest fits delimited
  | .string value, room, bound + 1, rest, _, _, _ =>
      readValue_quotedChars room bound rest value
  | .array [], room, bound + 1, _, _, _, _ => rfl
  | .array (item :: items), room, bound + 1, rest, whole, wide, _ => by
      rw [weight] at wide
      have inside := List.forall_mem_cons.mp whole.inside
      rw [readValue_array inside.1.here,
        readItems_writeItems item items room bound [] rest whole.inside (by omega)]
      rfl
  | .object [], room, bound + 1, _, _, _, _ => rfl
  | .object ((name, value) :: members), room, bound + 1, rest, whole, wide, _ => by
      rw [weight] at wide
      have inside := whole.inside
      rw [children, List.forall_mem_map] at inside
      rw [readValue_object, readMembers_writeMembers name value members room bound [] rest inside
        (by omega)]
      rfl

theorem readItems_writeItems : ∀ (item : Json) (items : List Json) (room bound : Nat)
    (found : List Loose) (rest : List Char),
    (∀ each ∈ item :: items, Everywhere Whole each) → weightAll (item :: items) < bound →
      readItems room bound found (writeItems (item :: items) (']' :: rest)) =
        some (within room (array (found.reverse ++ cutAll (room - 1) (item :: items))), rest)
  | _, _, _, 0, _, _, _, wide => absurd wide (Nat.not_lt_zero _)
  | item, [], room, bound + 1, found, rest, whole, wide => by
      rw [weightAll, weightAll] at wide
      have read := readValue_write item (room - 1) bound (']' :: rest)
        (whole item List.mem_cons_self) (by omega) (delimited_cons (by decide) rest)
      rw [writeItems, List.isEmpty_nil, if_pos rfl, readItems_last found read, cutAll, cutAll]
  | item, next :: items, room, bound + 1, found, rest, whole, wide => by
      obtain ⟨here, others⟩ := List.forall_mem_cons.mp whole
      rw [weightAll] at wide
      have := weight_pos item
      have read := readValue_write item (room - 1) bound
        (',' :: writeItems (next :: items) (']' :: rest)) here (by omega)
        (delimited_cons (by decide) _)
      rw [writeItems, List.isEmpty_cons, if_neg Bool.false_ne_true, readItems_more found read,
        readItems_writeItems next items room bound _ rest others (by omega), List.reverse_cons,
        List.append_assoc, List.singleton_append, ← cutAll]

theorem readMembers_writeMembers : ∀ (name : String) (value : Json)
    (members : List (String × Json)) (room bound : Nat)
    (found : List (Option String × Loose)) (rest : List Char),
    (∀ each ∈ (name, value) :: members, Everywhere Whole each.2) →
      weightMembers ((name, value) :: members) < bound →
      readMembers room bound found (writeMembers ((name, value) :: members) ('}' :: rest)) =
        some (within room
          (object (found.reverse ++ cutMembers (room - 1) ((name, value) :: members))), rest)
  | _, _, _, _, 0, _, _, _, wide => absurd wide (Nat.not_lt_zero _)
  | name, value, [], room, bound + 1, found, rest, whole, wide => by
      rw [weightMembers, weightMembers] at wide
      have read := readValue_write value (room - 1) bound ('}' :: rest)
        (whole (name, value) List.mem_cons_self) (by omega) (delimited_cons (by decide) rest)
      rw [writeMembers, List.isEmpty_nil, if_pos rfl, readMembers_last name found read,
        cutMembers, cutMembers]
  | name, value, (next, other) :: members, room, bound + 1, found, rest, whole, wide => by
      obtain ⟨here, others⟩ := List.forall_mem_cons.mp whole
      rw [weightMembers] at wide
      have := weight_pos value
      have read := readValue_write value (room - 1) bound
        (',' :: writeMembers ((next, other) :: members) ('}' :: rest)) here (by omega)
        (delimited_cons (by decide) _)
      rw [writeMembers, List.isEmpty_cons, if_neg Bool.false_ne_true,
        readMembers_more name found read,
        readMembers_writeMembers next other members room bound _ rest others (by omega),
        List.reverse_cons, List.append_assoc, List.singleton_append, ← cutMembers]

end

end Loose

mutual

theorem weight_le_length : ∀ (json : Json) (rest : List Char), Everywhere Whole json →
    json.weight + rest.length ≤ (json.write rest).length
  | .null, rest, _ | .boolean true, rest, _ => by
      change 1 + rest.length ≤ rest.length + 4
      omega
  | .boolean false, rest, _ => by
      change 1 + rest.length ≤ rest.length + 5
      omega
  | .number value, rest, whole => by
      obtain ⟨value, rfl, -⟩ := whole.here
      obtain ⟨first, chars, spelt, -⟩ := exists_integerChars_eq_cons value
      change 1 + rest.length ≤ (integerChars value ++ rest).length
      rw [spelt, List.length_append, List.length_cons]
      omega
  | .string value, rest, _ => by
      change 1 + rest.length ≤ (quotedChars value ++ rest).length
      rw [Loose.quotedChars_append, List.length_cons, List.length_append, List.length_cons]
      omega
  | .array items, rest, whole => by
      have := weightAll_le_length items (']' :: rest) whole.inside
      change 2 + weightAll items + rest.length ≤ (writeItems items (']' :: rest)).length + 1
      rw [List.length_cons] at this
      omega
  | .object members, rest, whole => by
      have inside := whole.inside
      rw [children, List.forall_mem_map] at inside
      have := weightMembers_le_length members ('}' :: rest) inside
      change 2 + weightMembers members + rest.length ≤
        (writeMembers members ('}' :: rest)).length + 1
      rw [List.length_cons] at this
      omega

theorem weightAll_le_length : ∀ (items : List Json) (rest : List Char),
    (∀ item ∈ items, Everywhere Whole item) →
      weightAll items + rest.length ≤ (writeItems items rest).length
  | [], rest, _ => by simp [weightAll, writeItems]
  | item :: items, rest, whole => by
      obtain ⟨here, others⟩ := List.forall_mem_cons.mp whole
      have first := weight_le_length item
        (if items.isEmpty then rest else ',' :: writeItems items rest) here
      have later := weightAll_le_length items rest others
      rw [weightAll, writeItems]
      cases items with
      | nil => simpa [weightAll] using first
      | cons next items =>
          simp only [List.isEmpty_cons, if_neg Bool.false_ne_true, List.length_cons] at first ⊢
          omega

theorem weightMembers_le_length : ∀ (members : List (String × Json)) (rest : List Char),
    (∀ member ∈ members, Everywhere Whole member.2) →
      weightMembers members + rest.length ≤ (writeMembers members rest).length
  | [], rest, _ => by simp [weightMembers, writeMembers]
  | (name, value) :: members, rest, whole => by
      obtain ⟨here, others⟩ := List.forall_mem_cons.mp whole
      have first := weight_le_length value
        (if members.isEmpty then rest else ',' :: writeMembers members rest) here
      have later := weightMembers_le_length members rest others
      rw [weightMembers, writeMembers, List.length_append, List.length_cons]
      cases members with
      | nil =>
          simp only [List.isEmpty_nil, if_pos, weightMembers] at first ⊢
          omega
      | cons next members =>
          simp only [List.isEmpty_cons, if_neg Bool.false_ne_true, List.length_cons] at first ⊢
          omega

end

/-- Read loosely, the text of a value gives all of it that there is room for. -/
theorem Loose.ofChars?_write {json : Json} (whole : Everywhere Whole json) :
    ofChars? (json.write []) = some (cut depthLimit json) := by
  have wide := weight_le_length json [] whole
  rw [List.length_nil] at wide
  have read := readValue_write json depthLimit ((json.write []).length + 2) [] whole (by omega)
    delimited_nil
  rw [ofChars?, read]
  rfl

end Json

end TracedEval
