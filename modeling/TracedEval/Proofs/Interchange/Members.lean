import Mathlib.Data.List.Nodup
import TracedEval.Proofs.Contract
import TracedEval.Proofs.Interchange.Values
import TracedEval.Proofs.Subterms

/-!
# Members and entries that meet

An object and a map hold one value for each key.  Names of an object that differ in
nothing but a colon in front mean one keyword; keys of a map that are a string, a keyword
or an integer with the same text have one name.  Where no two of them meet, each
member has its entry and each entry its member.  Where some meet, only the last of them
is kept.
-/

namespace TracedEval

/-! ## Names that mean one keyword -/

namespace Keyword

theorem nameChars_cases (chars : List Char) :
    chars.head? ≠ some ':' ∧ nameChars chars = chars ∨ chars = ':' :: nameChars chars := by
  by_cases colon : chars.head? = some ':'
  · obtain ⟨rest, rfl⟩ := List.head?_eq_some_iff.mp colon
    exact .inr rfl
  · exact .inl ⟨colon, nameChars_of_bare colon⟩

theorem colon_of_nameChars_eq {first second : List Char}
    (same : nameChars first = nameChars second) (unlike : first ≠ second) :
    first.head? ≠ some ':' ∧ second = ':' :: first ∨
      second.head? ≠ some ':' ∧ first = ':' :: second := by
  rcases nameChars_cases first with ⟨bare, plain⟩ | colon
  · rcases nameChars_cases second with ⟨-, plain'⟩ | colon'
    · exact absurd (plain.symm.trans (same.trans plain')) unlike
    · rw [← same, plain] at colon'
      exact .inl ⟨bare, colon'⟩
  · rcases nameChars_cases second with ⟨bare', plain'⟩ | colon'
    · rw [same, plain'] at colon
      exact .inr ⟨bare', colon⟩
    · rw [same, ← colon'] at colon
      exact absurd colon unlike

end Keyword

namespace Json

theorem eq_colon_iff {name other : String} :
    other = ":" ++ name ↔ other.toList = ':' :: name.toList := by
  rw [← String.toList_inj, String.toList_append]
  rfl

/-- The name of some member is that of another one after a colon. -/
def Meeting (members : List (String × Json)) : Prop :=
  ∃ member ∈ members, member.1.toList.head? ≠ some ':' ∧
    ∃ other ∈ members, other.1 = ":" ++ member.1

/-- The value of the last member whose name means the same keyword. -/
def lastMeaning (name : String) (members : List (String × Json)) : Option Json :=
  (members.reverse.find? fun member =>
    Keyword.ofText name == Keyword.ofText member.1).map (·.2)

end Json

namespace Term

open Json

theorem nodup_keywords_iff {members : List (String × Json)}
    (ordered : SortedList.Sorted (SortedList.byKey Ord.compare) members) :
    (members.map fun member => Keyword.ofText member.1).Nodup ↔ ¬ Meeting members := by
  have names : (members.map (·.1)).Nodup := SortedList.distinct_byKey_iff.mp ordered.distinct
  constructor
  · rintro apart ⟨member, here, bare, other, there, spelt⟩
    have chars := eq_colon_iff.mp spelt
    have same : Keyword.ofText other.1 = Keyword.ofText member.1 := by
      rw [Keyword.ofText_eq_iff_nameChars, chars, Keyword.nameChars_of_bare bare]
      rfl
    have merged : other = member := List.inj_on_of_nodup_map apart there here same
    rw [merged] at chars
    simp at chars
  · intro apart
    rw [List.Nodup, List.pairwise_map] at names ⊢
    refine names.imp_of_mem fun {first second} here there unlike same => apart ?_
    have chars : first.1.toList ≠ second.1.toList := fun same =>
      unlike (String.toList_inj.mp same)
    rcases Keyword.colon_of_nameChars_eq (Keyword.ofText_eq_iff_nameChars.mp same) chars with
      ⟨bare, colon⟩ | ⟨bare, colon⟩
    · exact ⟨first, here, bare, second, there, eq_colon_iff.mpr colon⟩
    · exact ⟨second, there, bare, first, here, eq_colon_iff.mpr colon⟩

theorem entryAt?_ofJsonMembers (name : String) (members : List (String × Json)) :
    entryAt? (entriesOf (ofJsonMembers members)) (keyOfName name) =
      (lastMeaning name members).map ofJson := by
  rw [entryAt?, entriesOf, SortedList.find?_ofList, ofJsonMembers_eq_map, ← List.map_reverse,
    List.find?_map, lastMeaning, Option.map_map, Option.map_map]
  have asks : (fun entry : Term × Term => (keyOfName name).compare entry.1 == .eq) ∘
      (fun member : String × Json => (keyOfName member.1, ofJson member.2)) =
        fun member => Keyword.ofText name == Keyword.ofText member.1 := by
    funext member
    rw [Bool.eq_iff_iff, Function.comp_apply, beq_iff_eq, beq_iff_eq,
      compare_keyOfName_eq_iff]
  rw [asks]
  rfl

theorem length_entriesOf_ofJsonMembers_iff {members : List (String × Json)}
    (ordered : Json.Ordered (.object members)) :
    (entriesOf (ofJsonMembers members)).length = members.length ↔ ¬ Meeting members := by
  have length : (ofJsonMembers members).length = members.length := by
    rw [ofJsonMembers_eq_map, List.length_map]
  rw [← length, entriesOf, SortedList.length_ofList_eq_iff, distinct_ofJsonMembers_iff,
    nodup_keywords_iff ordered]

theorem ofText_keeps_members {text : String} {json : Json} (read : Json.ofText text = .ok json) :
    Json.Everywhere
      (fun json => ∀ members, json = .object members →
        ((entriesOf (ofJsonMembers members)).length = members.length ↔ ¬ Meeting members))
      json := by
  refine (ordered_of_ofText read).mono ?_
  rintro _ ordered members rfl
  exact length_entriesOf_ofJsonMembers_iff ordered

/-- Every object becomes a map that has, under each keyword, the last value whose name
means it.  The map has as many entries as the object has members exactly if no two names
meet, and then every member is found under its own keyword. -/
theorem ofJson_keeps_members {members : List (String × Json)}
    (ordered : Json.Ordered (.object members)) :
    ∃ entries, ofJson (.object members) = map entries ∧
      (∀ name, entryAt? entries (keyOfName name) = (lastMeaning name members).map ofJson) ∧
      (entries.length = members.length ↔ ¬ Meeting members) ∧
      (¬ Meeting members → ∀ member ∈ members,
        entryAt? entries (keyOfName member.1) = some (ofJson member.2)) := by
  refine ⟨entriesOf (ofJsonMembers members), rfl,
    fun name => entryAt?_ofJsonMembers name members,
    length_entriesOf_ofJsonMembers_iff ordered, ?_⟩
  intro apart member inside
  have distinct := distinct_ofJsonMembers_iff.mpr ((nodup_keywords_iff ordered).mpr apart)
  have entered : (keyOfName member.1, ofJson member.2) ∈ ofJsonMembers members := by
    rw [ofJsonMembers_eq_map]
    exact List.mem_map_of_mem inside
  have kept := (SortedList.ofList_perm distinct).mem_iff.mpr entered
  exact SortedList.find?_eq_some_of_mem (SortedList.sorted_ofList _) kept

def colons : List (String × Json) :=
  [("::a", .ofInt 1), (":a", .ofInt 2), ("a/b", .null)]

theorem ofJson_keeps_members_colons :
    ∃ entries, ofJson (.object colons) = map entries ∧ entries.length = colons.length ∧
      ∀ member ∈ colons,
        entryAt? entries (keyOfName member.1) = some (ofJson member.2) := by
  have ordered : Json.Ordered (.object colons) := by
    change List.Pairwise _ _
    decide
  have apart : ¬ Meeting colons := by
    unfold Meeting
    decide
  obtain ⟨entries, read, -, length, values⟩ := ofJson_keeps_members ordered
  exact ⟨entries, read, length.mpr apart, values apart⟩

/-- Of a name with a colon and the same name without one only the second is kept. -/
theorem ofJson_loses_colon :
    Json.Ordered (.object [(":a", .ofInt 1), ("a", .ofInt 2)]) ∧
      ofJson (.object [(":a", .ofInt 1), ("a", .ofInt 2)]) =
        map [(keyword ⟨none, "a"⟩, integer 2)] ∧
      entryAt? [(keyword ⟨none, "a"⟩, integer 2)] (keyOfName ":a") = some (integer 2) := by
  refine ⟨?_, rfl, rfl⟩
  change List.Pairwise _ _
  decide

/-! ## Keys with one name -/

theorem forall₂_of_toJsonItems {items : List Term} {jsons : List Json}
    (written : toJsonItems items = .ok jsons) :
    List.Forall₂ (fun item json => item.toJson = .ok json) items jsons := by
  induction items generalizing jsons with
  | nil =>
      cases written
      exact .nil
  | cons item items ih =>
      rw [toJsonItems] at written
      split at written
      · contradiction
      · rename_i first
        obtain ⟨others, rest, rfl⟩ := exists_of_map_ok written
        exact .cons first (ih rest)

theorem forall₂_of_toJsonMembers {entries : List (Term × Term)}
    {members : List (String × Json)} (written : toJsonMembers entries = .ok members) :
    List.Forall₂ Becomes entries members := by
  induction entries generalizing members with
  | nil =>
      cases written
      exact .nil
  | cons entry entries ih =>
      rw [toJsonMembers] at written
      split at written
      · contradiction
      · rename_i name
        split at written
        · contradiction
        · rename_i value
          obtain ⟨others, rest, rfl⟩ := exists_of_map_ok written
          exact .cons ⟨name, value⟩ (ih rest)

def Apart (entries : List (Term × Term)) : Prop :=
  (entries.map fun entry => jsonName entry.1).Nodup

theorem distinct_iff_apart {entries : List (Term × Term)} {members : List (String × Json)}
    (each : List.Forall₂ Becomes entries members) :
    SortedList.Distinct (SortedList.byKey Ord.compare) members ↔ Apart entries := by
  have names : entries.map (fun entry => jsonName entry.1) =
      (members.map (·.1)).map Except.ok := by
    rw [← List.forall₂_eq_eq_eq, List.map_map, List.forall₂_map_left_iff,
      List.forall₂_map_right_iff]
    exact each.imp fun _ _ becomes => becomes.name
  rw [SortedList.distinct_byKey_iff, Apart, names,
    List.nodup_map_iff fun _ _ => Except.ok.inj]

/-- What is said of a map that is written: it becomes an object, which has as many
members as the map has entries exactly if no two keys have one name, and then has a
member for every entry. -/
def KeepsEntries : Term → Prop
  | map entries =>
      ∃ members, (map entries).toJson = .ok (.object members) ∧
        (members.length = entries.length ↔ Apart entries) ∧
        (Apart entries → ∀ entry ∈ entries, ∃ member ∈ members, Becomes entry member)
  | _ => True

theorem keepsEntries_of_toJson {term : Term} {json : Json} (written : term.toJson = .ok json) :
    term.KeepsEntries := by
  cases term with
  | map entries =>
      obtain ⟨members, listed, -⟩ := exists_of_map_ok written
      have each := forall₂_of_toJsonMembers listed
      refine ⟨membersOf members, by rw [toJson, listed]; rfl, ?_, ?_⟩
      · rw [each.length_eq, membersOf, SortedList.length_ofList_eq_iff,
          distinct_iff_apart each]
      · intro apart entry inside
        have sorting := SortedList.ofList_perm ((distinct_iff_apart each).mpr apart)
        obtain ⟨member, entered, becomes⟩ :=
          SortedList.exists_item_of_forall₂ each.flip inside
        exact ⟨member, sorting.mem_iff.mpr entered, becomes⟩
  | _ => trivial

theorem exists_toJson_of_jsonName {key : Term} {name : String} (named : jsonName key = .ok name) :
    ∃ json, key.toJson = .ok json := by
  cases key with
  | string | keyword | integer => exact ⟨_, rfl⟩
  | _ => contradiction

theorem exists_toJson_child {term child : Term} (written : ∃ json, term.toJson = .ok json)
    (member : child ∈ term.children) : ∃ json, child.toJson = .ok json := by
  obtain ⟨json, written⟩ := written
  cases term with
  | list items | set items =>
      obtain ⟨jsons, listed, -⟩ := exists_of_map_ok written
      obtain ⟨json, -, here⟩ :=
        SortedList.exists_item_of_forall₂ (forall₂_of_toJsonItems listed).flip member
      exact ⟨json, here⟩
  | map entries =>
      obtain ⟨members, listed, -⟩ := exists_of_map_ok written
      obtain ⟨entry, inside, same⟩ := mem_children_map.mp member
      obtain ⟨other, -, becomes⟩ :=
        SortedList.exists_item_of_forall₂ (forall₂_of_toJsonMembers listed).flip inside
      rcases same with rfl | rfl
      · exact exists_toJson_of_jsonName becomes.name
      · exact ⟨other.2, becomes.value⟩
  | application => contradiction
  | _ => simp [children] at member

/-- Of every map in a term that is written, at any depth, the object has as many members
as the map has entries exactly if no two keys have one name. -/
theorem toJson_keeps_entries {term : Term} {json : Json} (written : term.toJson = .ok json) :
    Everywhere KeepsEntries term := by
  have here : ∀ term : Term, (∃ json, term.toJson = .ok json) → term.KeepsEntries :=
    fun term ⟨json, written⟩ => keepsEntries_of_toJson written
  have inside : ∀ term child : Term, (∃ json, term.toJson = .ok json) →
      child ∈ term.children → ∃ json, child.toJson = .ok json :=
    fun term child written member => exists_toJson_child written member
  exact .of_passing here inside term ⟨json, written⟩

def invoice : Term :=
  .list [.map [(.string "total", .integer 7),
    (.keyword ⟨none, "items"⟩, .map [(.integer 1, .nil), (.keyword ⟨some "a", "1"⟩, .nil)])]]

theorem toJson_keeps_entries_invoice :
    invoice.toJson = .ok (.array [.object
      [("items", .object [("1", .null), ("a/1", .null)]), ("total", .ofInt 7)]]) ∧
      Everywhere KeepsEntries invoice := by
  have written : invoice.toJson = .ok (.array [.object
      [("items", .object [("1", .null), ("a/1", .null)]), ("total", .ofInt 7)]]) := rfl
  exact ⟨written, toJson_keeps_entries written⟩

/-- A string and a keyword have one name: what the keyword stands for is kept alone. -/
theorem toJson_loses_string :
    SortedList.Sorted (SortedList.byKey compare)
        [(string "a", integer 2), (keyword ⟨none, "a"⟩, integer 1)] ∧
      (map [(string "a", integer 2), (keyword ⟨none, "a"⟩, integer 1)]).toJson =
        .ok (.object [("a", .ofInt 1)]) := by
  constructor
  · change List.Pairwise _ _
    decide
  · rfl

end Term

end TracedEval
