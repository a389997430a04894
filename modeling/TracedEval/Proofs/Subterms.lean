import TracedEval.Term

/-!
# Terms inside terms

What holds everywhere in a term holds of the term itself and, everywhere, of the terms
right inside it.  The keywords of a term are those of its parts.
-/

namespace TracedEval.Term

/-- The terms right inside a term; of a map, each key before its value. -/
def children : Term → List Term
  | list items => items
  | set elements => elements
  | map entries => entries.flatMap (fun entry => [entry.1, entry.2])
  | application _ args => args
  | _ => []

inductive Everywhere (holds : Term → Prop) : Term → Prop
  | intro {term} (here : holds term)
      (inside : ∀ child ∈ term.children, Everywhere holds child) :
      Everywhere holds term

namespace Everywhere

variable {holds holds' : Term → Prop} {term : Term}

theorem here (everywhere : Everywhere holds term) : holds term := by
  cases everywhere
  assumption

theorem inside (everywhere : Everywhere holds term) :
    ∀ child ∈ term.children, Everywhere holds child := by
  cases everywhere
  assumption

theorem mono (everywhere : Everywhere holds term)
    (implied : ∀ term, holds term → holds' term) : Everywhere holds' term := by
  induction everywhere with
  | intro here _ ih => exact .intro (implied _ here) ih

theorem leaf (childless : term.children = []) (here : holds term) :
    Everywhere holds term :=
  .intro here (by simp [childless])

end Everywhere

theorem mem_children_map {entries : List (Term × Term)} {child : Term} :
    child ∈ (map entries).children ↔
      ∃ entry ∈ entries, child = entry.1 ∨ child = entry.2 := by
  simp [children]

/-! ## Constant terms -/

@[simp] theorem isConstant_list {items : List Term} :
    (list items).isConstant = true ↔ ∀ item ∈ items, item.isConstant = true := by
  change allConstant items = true ↔ _
  induction items with
  | nil => simp [allConstant]
  | cons item items ih => simp [allConstant, ih]

@[simp] theorem isConstant_set {elements : List Term} :
    (set elements).isConstant = true ↔ ∀ element ∈ elements, element.isConstant = true :=
  isConstant_list

@[simp] theorem isConstant_map {entries : List (Term × Term)} :
    (map entries).isConstant = true ↔
      ∀ entry ∈ entries, entry.1.isConstant = true ∧ entry.2.isConstant = true := by
  change allEntriesConstant entries = true ↔ _
  induction entries with
  | nil => simp [allEntriesConstant]
  | cons entry entries ih => simp [allEntriesConstant, ih, and_assoc]

theorem isConstant_child {term child : Term} (constant : term.isConstant = true)
    (member : child ∈ term.children) : child.isConstant = true := by
  cases term with
  | list => exact isConstant_list.mp constant child member
  | set => exact isConstant_set.mp constant child member
  | map =>
      obtain ⟨entry, inside, same⟩ := mem_children_map.mp member
      have both := isConstant_map.mp constant entry inside
      rcases same with rfl | rfl
      · exact both.1
      · exact both.2
  | application => contradiction
  | _ => simp [children] at member

theorem sizeOf_lt_of_mem_children {term child : Term} (member : child ∈ term.children) :
    sizeOf child < sizeOf term := by
  cases term with
  | list items =>
      have smaller := List.sizeOf_lt_of_mem member
      simp only [children, list.sizeOf_spec] at smaller ⊢
      omega
  | set elements =>
      have smaller := List.sizeOf_lt_of_mem member
      simp only [children, set.sizeOf_spec] at smaller ⊢
      omega
  | map entries =>
      obtain ⟨⟨key, value⟩, inside, same⟩ := mem_children_map.mp member
      have smaller := List.sizeOf_lt_of_mem inside
      simp only [Prod.mk.sizeOf_spec, map.sizeOf_spec] at smaller ⊢
      rcases same with rfl | rfl <;> omega
  | application head args =>
      have smaller := List.sizeOf_lt_of_mem member
      simp only [children, application.sizeOf_spec] at smaller ⊢
      omega
  | _ => simp [children] at member

@[elab_as_elim]
theorem childrenInduction {holds : Term → Prop}
    (step : ∀ term, (∀ child ∈ term.children, holds child) → holds term) (term : Term) :
    holds term :=
  step term fun child _ => childrenInduction step child
termination_by sizeOf term
decreasing_by exact sizeOf_lt_of_mem_children ‹_›

theorem Everywhere.of_passing {good holds : Term → Prop}
    (here : ∀ term, good term → holds term)
    (inside : ∀ term child, good term → child ∈ term.children → good child)
    (term : Term) (start : good term) : Everywhere holds term :=
  .intro (here term start) fun child member =>
    of_passing here inside child (inside term child start member)
termination_by sizeOf term
decreasing_by exact sizeOf_lt_of_mem_children member

/-! ## Keywords -/

mutual

def keywords : Term → List Keyword
  | keyword value => [value]
  | list items => keywordsOfAll items
  | set elements => keywordsOfAll elements
  | map entries => keywordsOfEntries entries
  | application _ args => keywordsOfAll args
  | _ => []

def keywordsOfAll : List Term → List Keyword
  | [] => []
  | item :: items => keywords item ++ keywordsOfAll items

def keywordsOfEntries : List (Term × Term) → List Keyword
  | [] => []
  | (key, value) :: entries =>
      keywords key ++ keywords value ++ keywordsOfEntries entries

end

theorem keywordsOfAll_eq (items : List Term) :
    keywordsOfAll items = items.flatMap keywords := by
  induction items with
  | nil => rfl
  | cons item items ih => rw [keywordsOfAll, ih, List.flatMap_cons]

theorem keywordsOfEntries_eq (entries : List (Term × Term)) :
    keywordsOfEntries entries =
      entries.flatMap fun entry => entry.1.keywords ++ entry.2.keywords := by
  induction entries with
  | nil => rfl
  | cons entry entries ih => rw [keywordsOfEntries, ih, List.flatMap_cons]

theorem mem_keywords {term : Term} {value : Keyword} :
    value ∈ term.keywords ↔
      term = keyword value ∨ ∃ child ∈ term.children, value ∈ child.keywords := by
  cases term with
  | keyword other => simp [keywords, children, eq_comm]
  | list items => simp [keywords, keywordsOfAll_eq, children]
  | set elements => simp [keywords, keywordsOfAll_eq, children]
  | map entries =>
      simp only [keywords, keywordsOfEntries_eq, List.mem_flatMap, List.mem_append,
        mem_children_map, reduceCtorEq, false_or]
      constructor
      · rintro ⟨entry, member, inside | inside⟩
        · exact ⟨entry.1, ⟨entry, member, .inl rfl⟩, inside⟩
        · exact ⟨entry.2, ⟨entry, member, .inr rfl⟩, inside⟩
      · rintro ⟨_, ⟨entry, member, rfl | rfl⟩, inside⟩
        · exact ⟨entry, member, .inl inside⟩
        · exact ⟨entry, member, .inr inside⟩
  | application head args => simp [keywords, keywordsOfAll_eq, children]
  | _ => simp [keywords, children]

theorem Everywhere.of_mem_keywords {holds : Term → Prop} {term : Term}
    (everywhere : Everywhere holds term) {value : Keyword}
    (inside : value ∈ term.keywords) : holds (keyword value) := by
  induction everywhere with
  | intro here _ ih =>
      rcases mem_keywords.mp inside with rfl | ⟨child, member, inside⟩
      · exact here
      · exact ih child member inside

/-! ## Decimals -/

theorem mem_decimalsOfAll {items : List Term} {value : Decimal} :
    value ∈ decimalsOfAll items ↔ ∃ item ∈ items, value ∈ item.decimals := by
  induction items with
  | nil => simp [decimalsOfAll]
  | cons item items ih => simp [decimalsOfAll, ih]

theorem mem_decimalsOfEntries {entries : List (Term × Term)} {value : Decimal} :
    value ∈ decimalsOfEntries entries ↔
      ∃ entry ∈ entries, value ∈ entry.1.decimals ∨ value ∈ entry.2.decimals := by
  induction entries with
  | nil => simp [decimalsOfEntries]
  | cons entry entries ih => simp [decimalsOfEntries, ih, or_assoc]

theorem mem_decimals {term : Term} {value : Decimal} :
    value ∈ term.decimals ↔
      term = decimal value ∨ ∃ child ∈ term.children, value ∈ child.decimals := by
  cases term with
  | decimal other => simp [decimals, children, eq_comm]
  | list items => simp [decimals, mem_decimalsOfAll, children]
  | set elements => simp [decimals, mem_decimalsOfAll, children]
  | map entries =>
      simp only [decimals, mem_decimalsOfEntries, mem_children_map, reduceCtorEq, false_or]
      constructor
      · rintro ⟨entry, member, inside | inside⟩
        · exact ⟨entry.1, ⟨entry, member, .inl rfl⟩, inside⟩
        · exact ⟨entry.2, ⟨entry, member, .inr rfl⟩, inside⟩
      · rintro ⟨_, ⟨entry, member, rfl | rfl⟩, inside⟩
        · exact ⟨entry, member, .inl inside⟩
        · exact ⟨entry, member, .inr inside⟩
  | application head args => simp [decimals, mem_decimalsOfAll, children]
  | _ => simp [decimals, children]

end TracedEval.Term
