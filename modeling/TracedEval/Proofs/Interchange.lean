import TracedEval.Json.Conversion
import TracedEval.Proofs.SortedList
import TracedEval.Proofs.TermOrder

/-!
# Terms with counterparts in JSON

Of the terms that are made of nothing but what JSON has, each comes back from the JSON
value it becomes.  A map and its object hold the same members in different orders: keys
are ordered by namespace and name, members by their names as a whole.  The names are as
different as the keys, so sorting the members drops none, and sorting the entries that
they become puts these back into place.
-/

namespace TracedEval

/-- The name of the keyword means the keyword. -/
def Keyword.Canonical (keyword : Keyword) : Prop :=
  ofText keyword.qualifiedName = keyword

instance : DecidablePred Keyword.Canonical :=
  fun keyword => decEq (Keyword.ofText keyword.qualifiedName) keyword

theorem Keyword.Canonical.bare {keyword : Keyword} (canonical : keyword.Canonical) :
    keyword.symbol.chars.head? ≠ some ':' := by
  intro colon
  obtain ⟨chars, spelt⟩ := List.head?_eq_some_iff.mp colon
  have read : keyword.symbol.chars = chars := by
    rw [Canonical, ofText, qualifiedName, Symbol.text, String.toList_ofList, spelt] at canonical
    rw [← canonical, ofChars, Symbol.chars_ofChars]
  simp [read] at spelt

namespace Term

/-- Terms that JSON has something of its own for. -/
inductive Portable : Term → Prop
  | nil : Portable nil
  | boolean {value} : Portable (boolean value)
  | integer {value} (least : Numeral.leastInt64 ≤ value)
      (greatest : value ≤ Numeral.greatestInt64) : Portable (integer value)
  | string {value} : Portable (string value)
  | list {items} (inside : ∀ item ∈ items, Portable item) : Portable (list items)
  | map {entries} (ordered : SortedList.Sorted (SortedList.byKey compare) entries)
      (keys : ∀ entry ∈ entries, ∃ key : Keyword, key.Canonical ∧ entry.1 = keyword key)
      (values : ∀ entry ∈ entries, Portable entry.2) : Portable (map entries)

/-- The term comes back from the JSON value that it becomes. -/
def Returns (term : Term) : Prop :=
  ∃ json, term.toJson = .ok json ∧ ofJson json = term

theorem returns_list {items : List Term} (returns : ∀ item ∈ items, item.Returns) :
    (list items).Returns := by
  have each : ∃ jsons, toJsonItems items = .ok jsons ∧ ofJsonItems jsons = items := by
    induction items with
    | nil => exact ⟨[], rfl, rfl⟩
    | cons item items ih =>
        obtain ⟨⟨json, written, read⟩, others⟩ := List.forall_mem_cons.mp returns
        obtain ⟨jsons, written', read'⟩ := ih others
        refine ⟨json :: jsons, ?_, by rw [ofJsonItems, read, read']⟩
        rw [toJsonItems, written, written']
        rfl
  obtain ⟨jsons, written, read⟩ := each
  refine ⟨.array jsons, ?_, by rw [ofJson, read]⟩
  rw [toJson, written]
  rfl

/-! ## Maps -/

theorem ofJsonMembers_eq_map (members : List (String × Json)) :
    ofJsonMembers members =
      members.map fun member => (keyOfName member.1, ofJson member.2) := by
  induction members with
  | nil => rfl
  | cons member members ih => rw [ofJsonMembers, ih, List.map_cons]

theorem exists_members {entries : List (Term × Term)}
    (keys : ∀ entry ∈ entries, ∃ key : Keyword, key.Canonical ∧ entry.1 = keyword key)
    (returns : ∀ entry ∈ entries, entry.2.Returns) :
    ∃ members, toJsonMembers entries = .ok members ∧ ofJsonMembers members = entries := by
  induction entries with
  | nil => exact ⟨[], rfl, rfl⟩
  | cons entry entries ih =>
      obtain ⟨⟨key, canonical, same⟩, keys⟩ := List.forall_mem_cons.mp keys
      obtain ⟨⟨json, written, read⟩, others⟩ := List.forall_mem_cons.mp returns
      obtain ⟨members, written', read'⟩ := ih keys others
      obtain ⟨_, value⟩ := entry
      obtain rfl := same
      refine ⟨(key.qualifiedName, json) :: members, ?_, ?_⟩
      · rw [toJsonMembers, jsonName, written, written']
        rfl
      · rw [ofJsonMembers, keyOfName, canonical, read, read']

theorem distinct_of_sorted {members : List (String × Json)}
    (sorted : SortedList.Sorted (SortedList.byKey compare) (ofJsonMembers members)) :
    SortedList.Distinct (SortedList.byKey Ord.compare) members := by
  rw [ofJsonMembers_eq_map, SortedList.Sorted, List.pairwise_map] at sorted
  refine sorted.imp fun {first second} before same => ?_
  have names : first.1 = second.1 := Std.LawfulEqOrd.eq_of_compare same
  have keys : (keyOfName first.1).compare (keyOfName second.1) = .eq := by
    rw [names]
    exact Std.ReflCmp.compare_self
  have before : (keyOfName first.1).compare (keyOfName second.1) = .lt := before
  rw [keys] at before
  contradiction

theorem returns_map {entries : List (Term × Term)}
    (ordered : SortedList.Sorted (SortedList.byKey compare) entries)
    (keys : ∀ entry ∈ entries, ∃ key : Keyword, key.Canonical ∧ entry.1 = keyword key)
    (returns : ∀ entry ∈ entries, entry.2.Returns) : (map entries).Returns := by
  obtain ⟨members, written, read⟩ := exists_members keys returns
  refine ⟨.objectOf members, ?_, ?_⟩
  · rw [toJson, written]
    rfl
  · have sorting : (Json.membersOf members).Perm members :=
      SortedList.ofList_perm (distinct_of_sorted (read.symm ▸ ordered))
    have mixed : (ofJsonMembers (Json.membersOf members)).Perm entries := by
      rw [← read, ofJsonMembers_eq_map, ofJsonMembers_eq_map]
      exact sorting.map _
    rw [Json.objectOf, ofJson, entriesOf, SortedList.ofList_eq_of_perm ordered mixed]

/-! ## The whole term -/

/-- A term made of what JSON has becomes a JSON value, and that value becomes the term
again. -/
theorem ofJson_toJson {term : Term} (portable : term.Portable) :
    ∃ json, term.toJson = .ok json ∧ ofJson json = term := by
  induction portable with
  | nil => exact ⟨.null, rfl, rfl⟩
  | @boolean value => exact ⟨.boolean value, rfl, rfl⟩
  | @integer value least greatest =>
      refine ⟨.ofInt value, ?_, rfl⟩
      rw [toJson, jsonOfInteger, if_pos ⟨least, greatest⟩]
  | @string value => exact ⟨.string value, rfl, rfl⟩
  | list _ ih => exact returns_list ih
  | map ordered keys _ ih => exact returns_map ordered keys ih

def profile : Term :=
  .map [(.keyword ⟨none, "name"⟩, .list [.string "a\n", .nil]),
    (.keyword ⟨some "account", "id"⟩, .integer (-9223372036854775808)),
    (.keyword ⟨some "account", "open"⟩, .boolean true)]

theorem portable_profile : profile.Portable := by
  have list : Portable (.list [.string "a\n", .nil]) := by
    refine .list fun item member => ?_
    simp only [List.mem_cons, List.not_mem_nil, or_false] at member
    rcases member with rfl | rfl
    · exact .string
    · exact .nil
  refine .map ?_ ?_ ?_
  · change List.Pairwise _ _
    decide
  · simp only [List.forall_mem_cons]
    exact ⟨⟨_, by decide, rfl⟩, ⟨_, by decide, rfl⟩, ⟨_, by decide, rfl⟩, by simp⟩
  · simp only [List.forall_mem_cons]
    exact ⟨list, .integer (by decide) (by decide), .boolean, by simp⟩

theorem ofJson_toJson_profile :
    ∃ json, profile.toJson = .ok json ∧ ofJson json = profile :=
  ofJson_toJson portable_profile

example :
    (Term.map [(.keyword ⟨none, "name"⟩, .string "a"),
      (.keyword ⟨some "account", "id"⟩, .nil)]).toJson =
      .ok (.object [("account/id", .null), ("name", .string "a")]) := by
  rfl

end Term

end TracedEval
