import Mathlib.Data.List.Perm.Basic
import TracedEval.Proofs.Interchange

/-!
# JSON values with counterparts among the terms

A value whose numbers are whole ones of 64 bits, and whose names do not start with a
colon, becomes a term; and that term becomes the value again, except that only signed
numbers are written as numbers.  A number above them comes back as a string of its
digits.  So the value comes back unchanged exactly if it has no such number.
-/

namespace TracedEval

/-! ## Names that are keywords -/

namespace Keyword

def nameChars : List Char → List Char
  | ':' :: chars => chars
  | chars => chars

theorem ofChars_eq (chars : List Char) :
    ofChars chars = ⟨Symbol.ofChars (nameChars chars)⟩ := by
  unfold ofChars
  split
  · rfl
  · rename_i bare
    rw [nameChars]
    exact bare

theorem nameChars_of_bare {chars : List Char} (bare : chars.head? ≠ some ':') :
    nameChars chars = chars := by
  unfold nameChars
  split
  · exact absurd rfl bare
  · rfl

theorem ofText_eq_iff_nameChars {first second : String} :
    ofText first = ofText second ↔ nameChars first.toList = nameChars second.toList := by
  rw [ofText, ofText, ofChars_eq, ofChars_eq]
  constructor
  · intro same
    have chars := congrArg (fun keyword => keyword.symbol.chars) same
    simpa only [Symbol.chars_ofChars] using chars
  · intro same
    rw [same]

theorem qualifiedName_ofText {name : String} (bare : name.toList.head? ≠ some ':') :
    (ofText name).qualifiedName = name := by
  rw [qualifiedName, ofText, ofChars_eq, nameChars_of_bare bare]
  exact Symbol.text_ofText name

end Keyword

namespace Term

theorem compare_keyOfName_eq_iff {first second : String} :
    (keyOfName first).compare (keyOfName second) = .eq ↔
      Keyword.ofText first = Keyword.ofText second := by
  constructor
  · intro same
    have symbols : (Keyword.ofText first).symbol = (Keyword.ofText second).symbol :=
      Symbol.eq_of_compare same
    exact congrArg Keyword.mk symbols
  · intro same
    rw [keyOfName, keyOfName, same]
    exact Std.ReflCmp.compare_self

theorem ofJsonItems_eq_map (items : List Json) : ofJsonItems items = items.map ofJson := by
  induction items with
  | nil => rfl
  | cons item items ih => rw [ofJsonItems, ih, List.map_cons]

/-! ## Lists and entries that are written -/

theorem toJsonItems_of_forall₂ {items : List Term} {jsons : List Json}
    (each : List.Forall₂ (fun item json => item.toJson = .ok json) items jsons) :
    toJsonItems items = .ok jsons := by
  induction each with
  | nil => rfl
  | cons first _ ih =>
      rw [toJsonItems, first, ih]
      rfl

structure Becomes (entry : Term × Term) (member : String × Json) : Prop where
  name : jsonName entry.1 = .ok member.1
  value : entry.2.toJson = .ok member.2

theorem toJsonMembers_of_forall₂ {entries : List (Term × Term)}
    {members : List (String × Json)} (each : List.Forall₂ Becomes entries members) :
    toJsonMembers entries = .ok members := by
  induction each with
  | nil => rfl
  | @cons entry member entries members first _ ih =>
      rw [toJsonMembers, first.name, first.value, ih]
      rfl

end Term

/-! ## Values inside values -/

namespace Json

open Numeral (greatestInt64 integerText)

def children : Json → List Json
  | array items => items
  | object members => members.map (·.2)
  | _ => []

inductive Everywhere (holds : Json → Prop) : Json → Prop
  | intro {json} (here : holds json)
      (inside : ∀ child ∈ json.children, Everywhere holds child) :
      Everywhere holds json

namespace Everywhere

variable {holds : Json → Prop} {json : Json}

theorem here (everywhere : Everywhere holds json) : holds json := by
  cases everywhere
  assumption

theorem inside (everywhere : Everywhere holds json) :
    ∀ child ∈ json.children, Everywhere holds child := by
  cases everywhere
  assumption

theorem leaf (childless : json.children = []) (here : holds json) :
    Everywhere holds json :=
  .intro here (by simp [childless])

theorem mono {holds' : Json → Prop} (weaker : ∀ json, holds json → holds' json)
    (everywhere : Everywhere holds json) : Everywhere holds' json := by
  induction everywhere with
  | intro here _ ih => exact .intro (weaker _ here) ih

end Everywhere

theorem everywhere_iff {holds : Json → Prop} {json : Json} :
    Everywhere holds json ↔
      holds json ∧ ∀ child ∈ json.children, Everywhere holds child :=
  ⟨fun everywhere => ⟨everywhere.here, everywhere.inside⟩, fun ⟨here, inside⟩ => ⟨here, inside⟩⟩

/-! ## Members in order -/

/-- An object has its members in the order of their names, and none twice. -/
def Ordered : Json → Prop
  | object members => SortedList.Sorted (SortedList.byKey Ord.compare) members
  | _ => True

mutual

theorem ordered_collapse : ∀ json : Json, Everywhere Ordered json.collapse
  | null | boolean _ | string _ | number _ => .leaf rfl trivial
  | array items => .intro trivial (ordered_collapseAll items)
  | object members => by
      rw [collapse, objectOf]
      constructor
      · exact SortedList.sorted_ofList (collapseMembers members)
      · rw [children, List.forall_mem_map]
        intro member kept
        exact ordered_collapseMembers members member (SortedList.mem_of_mem_ofList kept)

theorem ordered_collapseAll : ∀ items : List Json,
    ∀ item ∈ collapseAll items, Everywhere Ordered item
  | [] => by simp [collapseAll]
  | item :: items => by
      rw [collapseAll, List.forall_mem_cons]
      exact ⟨ordered_collapse item, ordered_collapseAll items⟩

theorem ordered_collapseMembers : ∀ members : List (String × Json),
    ∀ member ∈ collapseMembers members, Everywhere Ordered member.2
  | [] => by simp [collapseMembers]
  | (name, value) :: members => by
      rw [collapseMembers, List.forall_mem_cons]
      exact ⟨ordered_collapse value, ordered_collapseMembers members⟩

end

theorem ordered_of_ofText {text : String} {json : Json} (read : ofText text = .ok json) :
    Everywhere Ordered json := by
  unfold ofText at read
  split at read
  · cases read
    exact ordered_collapse _
  · contradiction

/-! ## Numbers as strings -/

/-- A number is whole and has at most 64 bits; no name starts with a colon. -/
def Portable : Json → Prop
  | number value => ∃ whole, value = .whole whole ∧ fitsWord whole = true
  | object members => ∀ member ∈ members, member.1.toList.head? ≠ some ':'
  | _ => True

/-- A whole number is not above the signed ones. -/
def Signed : Json → Prop
  | number (.whole value) => value ≤ greatestInt64
  | _ => True

mutual

/-- The value with a string of its digits for each number above the signed ones. -/
def narrowed : Json → Json
  | number (.whole value) =>
      if value ≤ greatestInt64 then number (.whole value) else string (integerText value)
  | array items => array (narrowedAll items)
  | object members => object (narrowedMembers members)
  | json => json

def narrowedAll : List Json → List Json
  | [] => []
  | item :: items => narrowed item :: narrowedAll items

def narrowedMembers : List (String × Json) → List (String × Json)
  | [] => []
  | (name, value) :: members => (name, narrowed value) :: narrowedMembers members

end

theorem narrowedAll_eq_map (items : List Json) : narrowedAll items = items.map narrowed := by
  induction items with
  | nil => rfl
  | cons item items ih => rw [narrowedAll, ih, List.map_cons]

theorem narrowedMembers_eq_map (members : List (String × Json)) :
    narrowedMembers members = members.map fun member => (member.1, member.2.narrowed) := by
  induction members with
  | nil => rfl
  | cons member members ih => rw [narrowedMembers, ih, List.map_cons]

mutual

theorem narrowed_eq_self_iff : ∀ json : Json,
    json.narrowed = json ↔ Everywhere Signed json
  | null | boolean _ | string _ | number (.double _) => by
      rw [narrowed, everywhere_iff]
      · simp [Signed, children]
      all_goals simp
  | number (.whole value) => by
      rw [narrowed, everywhere_iff]
      by_cases signed : value ≤ greatestInt64 <;> simp [Signed, children, signed]
  | array items => by
      rw [narrowed, everywhere_iff, array.injEq, narrowedAll_eq_self_iff items]
      simp [Signed, children]
  | object members => by
      rw [narrowed, everywhere_iff, object.injEq, narrowedMembers_eq_self_iff members,
        children, List.forall_mem_map]
      simp [Signed]

theorem narrowedAll_eq_self_iff : ∀ items : List Json,
    narrowedAll items = items ↔ ∀ item ∈ items, Everywhere Signed item
  | [] => by simp [narrowedAll]
  | item :: items => by
      rw [narrowedAll, List.cons.injEq, narrowed_eq_self_iff item,
        narrowedAll_eq_self_iff items, List.forall_mem_cons]

theorem narrowedMembers_eq_self_iff : ∀ members : List (String × Json),
    narrowedMembers members = members ↔ ∀ member ∈ members, Everywhere Signed member.2
  | [] => by simp [narrowedMembers]
  | (name, value) :: members => by
      rw [narrowedMembers, List.cons.injEq, Prod.mk.injEq, narrowed_eq_self_iff value,
        narrowedMembers_eq_self_iff members, List.forall_mem_cons]
      simp

end

end Json

/-! ## Values that come back -/

namespace Term

open Json

theorem distinct_ofJsonMembers_iff {members : List (String × Json)} :
    SortedList.Distinct (SortedList.byKey compare) (ofJsonMembers members) ↔
      (members.map fun member => Keyword.ofText member.1).Nodup := by
  simp [SortedList.Distinct, SortedList.byKey, ofJsonMembers_eq_map, List.Nodup,
    List.pairwise_map, compare_keyOfName_eq_iff]

theorem distinct_of_bare {members : List (String × Json)}
    (ordered : SortedList.Sorted (SortedList.byKey Ord.compare) members)
    (bare : ∀ member ∈ members, member.1.toList.head? ≠ some ':') :
    SortedList.Distinct (SortedList.byKey compare) (ofJsonMembers members) := by
  have names : (members.map (·.1)).Nodup := SortedList.distinct_byKey_iff.mp ordered.distinct
  rw [distinct_ofJsonMembers_iff]
  rw [List.Nodup, List.pairwise_map] at names ⊢
  refine names.imp_of_mem fun {first second} here there unlike same => unlike ?_
  have chars := Keyword.ofText_eq_iff_nameChars.mp same
  rwa [Keyword.nameChars_of_bare (bare first here),
    Keyword.nameChars_of_bare (bare second there), String.toList_inj] at chars

theorem forall₂_becomes {members : List (String × Json)}
    (bare : ∀ member ∈ members, member.1.toList.head? ≠ some ':')
    (returns : ∀ member ∈ members, (ofJson member.2).toJson = .ok member.2.narrowed) :
    List.Forall₂ Becomes (ofJsonMembers members) (narrowedMembers members) := by
  rw [ofJsonMembers_eq_map, narrowedMembers_eq_map, List.forall₂_map_left_iff,
    List.forall₂_map_right_iff, List.forall₂_same]
  intro member inside
  constructor
  · exact congrArg Except.ok (Keyword.qualifiedName_ofText (bare member inside))
  · exact returns member inside

theorem toJson_ofJson_object {members : List (String × Json)}
    (ordered : SortedList.Sorted (SortedList.byKey Ord.compare) members)
    (bare : ∀ member ∈ members, member.1.toList.head? ≠ some ':')
    (returns : ∀ member ∈ members, (ofJson member.2).toJson = .ok member.2.narrowed) :
    (ofJson (.object members)).toJson = .ok (Json.object members).narrowed := by
  -- The entries are written in an order of their own; sorting undoes this.
  have sorting : (entriesOf (ofJsonMembers members)).Perm (ofJsonMembers members) :=
    SortedList.ofList_perm (distinct_of_bare ordered bare)
  obtain ⟨written, each, mixed⟩ :=
    List.perm_comp_forall₂ sorting (forall₂_becomes bare returns)
  have sorted : SortedList.Sorted (SortedList.byKey Ord.compare) (narrowedMembers members) := by
    rw [narrowedMembers_eq_map, SortedList.Sorted, List.pairwise_map]
    exact ordered
  rw [ofJson, toJson, toJsonMembers_of_forall₂ each, narrowed]
  exact congrArg (Except.ok ∘ Json.object) (SortedList.ofList_eq_of_perm sorted mixed)

theorem toJson_ofJson_eq {json : Json} (ordered : Json.Everywhere Json.Ordered json)
    (portable : Json.Everywhere Json.Portable json) :
    (ofJson json).toJson = .ok json.narrowed := by
  induction portable with
  | @intro json here inside ih =>
      have ih (child : Json) (member : child ∈ json.children) :
          (ofJson child).toJson = .ok child.narrowed :=
        ih child member (ordered.inside child member)
      cases json with
      | null => rfl
      | boolean value => rfl
      | number value =>
          obtain ⟨whole, rfl, fits⟩ := here
          have least : Numeral.leastInt64 ≤ whole := by
            simp only [fitsWord, Bool.and_eq_true, decide_eq_true_eq] at fits
            exact fits.1
          rw [ofJson, ofJsonNumber, toJson, jsonOfInteger, narrowed]
          by_cases signed : whole ≤ Numeral.greatestInt64 <;>
            simp [signed, least, Json.ofInt]
      | string value => rfl
      | array items =>
          have each : List.Forall₂ (fun item json => item.toJson = .ok json)
              (ofJsonItems items) (narrowedAll items) := by
            rw [ofJsonItems_eq_map, narrowedAll_eq_map, List.forall₂_map_left_iff,
              List.forall₂_map_right_iff, List.forall₂_same]
            exact ih
          rw [ofJson, toJson, toJsonItems_of_forall₂ each, narrowed]
          rfl
      | object members =>
          refine toJson_ofJson_object ordered.here here fun member inside => ?_
          exact ih member.2 (List.mem_map_of_mem inside)

theorem toJson_of_ofText {text : String} {json : Json} (read : Json.ofText text = .ok json)
    (portable : Json.Everywhere Json.Portable json) :
    ∃ term, ofJsonText text = .ok term ∧ term.toJson = .ok json.narrowed := by
  refine ⟨ofJson json, ?_, toJson_ofJson_eq (ordered_of_ofText read) portable⟩
  rw [ofJsonText, read]

/-- A value becomes a term, and that term the value again, exactly if it has no number
above the signed ones; such a number comes back as a string. -/
theorem toJson_ofJson {json : Json} (ordered : Json.Everywhere Json.Ordered json)
    (portable : Json.Everywhere Json.Portable json) :
    (ofJson json).toJson = .ok json.narrowed ∧
      ((ofJson json).toJson = .ok json ↔ Json.Everywhere Json.Signed json) := by
  have written := toJson_ofJson_eq ordered portable
  refine ⟨written, ?_⟩
  rw [written, Except.ok.injEq]
  exact narrowed_eq_self_iff json

def limits : Json :=
  .object [("limits/high", .ofInt 9223372036854775807),
    ("limits/low", .array [.ofInt (-9223372036854775808), .null]), ("name", .string "1")]

theorem everywhere_limits {holds : Json → Prop} (here : holds limits)
    (members : ∀ child ∈ limits.children, holds child)
    (leaves : ∀ child ∈ limits.children, ∀ leaf ∈ child.children, holds leaf) :
    Json.Everywhere holds limits := by
  refine .intro here fun child member => .intro (members child member) fun leaf inside => ?_
  refine .leaf ?_ (leaves child member leaf inside)
  simp only [limits, Json.children, List.map_cons, List.map_nil, List.mem_cons,
    List.not_mem_nil, or_false] at member
  rcases member with rfl | rfl | rfl <;>
    simp only [Json.children, Json.ofInt, List.mem_cons, List.not_mem_nil, or_false] at inside
  rcases inside with rfl | rfl <;> rfl

theorem toJson_ofJson_limits : (ofJson limits).toJson = .ok limits := by
  have ordered : Json.Everywhere Json.Ordered limits := by
    apply everywhere_limits
    · change List.Pairwise _ _
      decide
    · simp [limits, Json.children, Json.Ordered, Json.ofInt]
    · simp [limits, Json.children, Json.Ordered, Json.ofInt]
  have portable : Json.Everywhere Json.Portable limits := by
    apply everywhere_limits
    · simp [limits, Json.Portable]
    · simp [limits, Json.children, Json.Portable, Json.ofInt]
      decide
    · simp [limits, Json.children, Json.Portable, Json.ofInt]
      decide
  have signed : Json.Everywhere Json.Signed limits := by
    apply everywhere_limits
    · trivial
    · simp [limits, Json.children, Json.Signed, Json.ofInt]
      decide
    · simp [limits, Json.children, Json.Signed, Json.ofInt]
      decide
  exact (toJson_ofJson ordered portable).2.mpr signed

/-- The least number above the signed ones comes back as a string. -/
theorem toJson_ofJson_ne_unsigned :
    Json.Everywhere Json.Ordered (.ofInt 9223372036854775808) ∧
      Json.Everywhere Json.Portable (.ofInt 9223372036854775808) ∧
      (ofJson (.ofInt 9223372036854775808)).toJson = .ok (.string "9223372036854775808") ∧
      (ofJson (.ofInt 9223372036854775808)).toJson ≠ .ok (.ofInt 9223372036854775808) := by
  have written : (ofJson (.ofInt 9223372036854775808)).toJson =
      .ok (.string "9223372036854775808") := rfl
  refine ⟨.leaf rfl trivial, .leaf rfl ⟨_, rfl, by decide⟩, written, ?_⟩
  rw [written]
  simp [Json.ofInt]

end Term

end TracedEval
