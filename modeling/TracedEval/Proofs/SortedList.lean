import Mathlib.Data.List.Forall2
import Mathlib.Data.List.Perm.Subperm
import TracedEval.SortedList

/-!
# Looking things up in sorted lists

What a sorted list holds after an insertion, for any lawful comparison.  A lookup
goes by the comparison alone, so the laws of `find?` need no sortedness; the order
only matters where a lookup is compared with membership.
-/

namespace TracedEval.SortedList

variable {α κ β : Type}

/-! ## Membership -/

theorem mem_of_mem_insertAll {cmp : α → α → Ordering} {other : α}
    {items additions : List α} (member : other ∈ insertAll cmp items additions) :
    other ∈ items ∨ other ∈ additions := by
  induction additions generalizing items with
  | nil => exact .inl member
  | cons item additions ih =>
      rcases ih member with inserted | later
      · rcases mem_of_mem_insert inserted with rfl | earlier
        · exact .inr List.mem_cons_self
        · exact .inl earlier
      · exact .inr (List.mem_cons_of_mem _ later)

theorem mem_of_mem_ofList {cmp : α → α → Ordering} {other : α} {items : List α}
    (member : other ∈ ofList cmp items) : other ∈ items := by
  rcases mem_of_mem_insertAll member with absent | member
  · contradiction
  · exact member

theorem exists_key_of_find? {cmp : κ → κ → Ordering} {key : κ} {value : β}
    {entries : List (κ × β)} (found : find? cmp key entries = some value) :
    ∃ other, (other, value) ∈ entries := by
  induction entries with
  | nil => contradiction
  | cons head tail ih =>
      rw [find?] at found
      split at found
      · cases found
        exact ⟨head.1, List.mem_cons_self⟩
      · obtain ⟨other, member⟩ := ih found
        exact ⟨other, List.mem_cons_of_mem _ member⟩

/-! ## Lists side by side -/

theorem exists_item_of_forall₂ {related : α → β → Prop} {items : List α}
    {values : List β} (each : List.Forall₂ related items values) {value : β}
    (member : value ∈ values) : ∃ item ∈ items, related item value := by
  induction each with
  | nil => contradiction
  | cons first _ ih =>
      rcases List.mem_cons.mp member with rfl | member
      · exact ⟨_, List.mem_cons_self, first⟩
      · obtain ⟨item, member, relation⟩ := ih member
        exact ⟨item, List.mem_cons_of_mem _ member, relation⟩

theorem exists_forall₂ {related : α → β → Prop} {items : List α}
    (each : ∀ item ∈ items, ∃ value, related item value) :
    ∃ values, List.Forall₂ related items values := by
  induction items with
  | nil => exact ⟨[], .nil⟩
  | cons item items ih =>
      obtain ⟨⟨value, first⟩, others⟩ := List.forall_mem_cons.mp each
      obtain ⟨values, rest⟩ := ih others
      exact ⟨value :: values, .cons first rest⟩

theorem forall₂_congr_of_mem {related related' : α → β → Prop} {items : List α}
    {values : List β}
    (same : ∀ item ∈ items, ∀ value, related item value ↔ related' item value) :
    List.Forall₂ related items values ↔ List.Forall₂ related' items values := by
  induction items generalizing values with
  | nil => cases values <;> simp
  | cons item items ih =>
      obtain ⟨first, rest⟩ := List.forall_mem_cons.mp same
      cases values with
      | nil => simp
      | cons value values => rw [List.forall₂_cons, List.forall₂_cons, first, ih rest]

theorem forall₂_trans {γ : Type} {related : α → β → Prop} {related' : β → γ → Prop}
    {whole : α → γ → Prop}
    (trans : ∀ item value last, related item value → related' value last → whole item last)
    {items : List α} {values : List β} {lasts : List γ}
    (each : List.Forall₂ related items values) (each' : List.Forall₂ related' values lasts) :
    List.Forall₂ whole items lasts := by
  induction each generalizing lasts with
  | nil =>
      cases each'
      exact .nil
  | cons first _ ih =>
      cases each' with
      | cons first' rest => exact .cons (trans _ _ _ first first') (ih rest)

theorem exists_forall₂_iff {related : α → β → Prop} {back : β → α → Prop} {items : List α} :
    (∃ values, List.Forall₂ related items values ∧ List.Forall₂ back values items) ↔
      ∀ item ∈ items, ∃ value, related item value ∧ back value item := by
  constructor
  · rintro ⟨values, there, andBack⟩
    have same : List.Forall₂
        (fun item item' => ∃ value, related item value ∧ back value item') items items :=
      forall₂_trans (fun _ value _ there andBack => ⟨value, there, andBack⟩) there andBack
    exact List.forall₂_same.mp same
  · intro each
    obtain ⟨values, paired⟩ := exists_forall₂ each
    exact ⟨values, paired.imp fun _ _ both => both.1, paired.flip.imp fun _ _ both => both.2⟩

/-! ## Lists that are sorted already -/

theorem insert_eq_append {cmp : α → α → Ordering} [Std.OrientedCmp cmp] {item : α}
    {items : List α} (before : ∀ other ∈ items, cmp other item = .lt) :
    insert cmp item items = items ++ [item] := by
  induction items with
  | nil => rfl
  | cons head tail ih =>
      obtain ⟨first, others⟩ := List.forall_mem_cons.mp before
      rw [insert, Std.OrientedCmp.gt_iff_lt.mpr first]
      dsimp only
      rw [ih others, List.cons_append]

theorem insertAll_eq_append {cmp : α → α → Ordering} [Std.OrientedCmp cmp]
    {items additions : List α} (sorted : Sorted cmp (items ++ additions)) :
    insertAll cmp items additions = items ++ additions := by
  induction additions generalizing items with
  | nil => simp [insertAll]
  | cons item additions ih =>
      have before := (List.pairwise_append.mp sorted).2.2
      have inserted : insert cmp item items = items ++ [item] :=
        insert_eq_append fun other member => before other member item List.mem_cons_self
      change insertAll cmp (insert cmp item items) additions = _
      rw [inserted, ih (by simpa using sorted), List.append_assoc, List.singleton_append]

theorem ofList_eq_self {cmp : α → α → Ordering} [Std.OrientedCmp cmp] {items : List α}
    (sorted : Sorted cmp items) : ofList cmp items = items :=
  insertAll_eq_append sorted

theorem Sorted.of_forall₂ {cmp : α → α → Ordering} [Std.TransCmp cmp]
    {items others : List α}
    (same : List.Forall₂ (fun item other => cmp item other = .eq) items others)
    (sorted : Sorted cmp others) : Sorted cmp items := by
  rw [Sorted, List.pairwise_iff_getElem] at sorted ⊢
  intro first second here there before
  have length := same.length_eq
  have sameFirst : cmp items[first] others[first] = .eq :=
    same.get here (length ▸ here)
  have sameSecond : cmp items[second] others[second] = .eq :=
    same.get there (length ▸ there)
  calc cmp items[first] items[second]
      _ = cmp others[first] items[second] := Std.TransCmp.congr_left sameFirst
      _ = cmp others[first] others[second] := Std.TransCmp.congr_right sameSecond
      _ = .lt := sorted first second _ _ before

/-! ## Sorting items that are all different -/

/-- No two of the items compare equal. -/
def Distinct (cmp : α → α → Ordering) (items : List α) : Prop :=
  items.Pairwise (fun first second => cmp first second ≠ .eq)

section Distinct

open List

variable {cmp : α → α → Ordering} {items others additions : List α}

theorem Sorted.distinct (sorted : Sorted cmp items) : Distinct cmp items :=
  sorted.imp fun before same => by
    rw [before] at same
    contradiction

theorem Distinct.perm [Std.OrientedCmp cmp] (distinct : Distinct cmp items)
    (mixed : items ~ others) : Distinct cmp others :=
  mixed.pairwise distinct fun unlike same => unlike (Std.OrientedCmp.eq_symm same)

theorem insert_perm {item : α} (new : ∀ other ∈ items, cmp item other ≠ .eq) :
    insert cmp item items ~ item :: items := by
  induction items with
  | nil => exact .refl _
  | cons head tail ih =>
      obtain ⟨first, others⟩ := List.forall_mem_cons.mp new
      unfold insert
      split
      · exact .refl _
      · contradiction
      · exact ((ih others).cons head).trans (.swap item head tail)

theorem insertAll_perm [Std.OrientedCmp cmp] (distinct : Distinct cmp (additions ++ items)) :
    insertAll cmp items additions ~ additions ++ items := by
  induction additions generalizing items with
  | nil => exact .refl _
  | cons item additions ih =>
      have new := (List.pairwise_cons.mp distinct).1
      have inserted : insert cmp item items ~ item :: items :=
        insert_perm fun other member => new other (List.mem_append_right _ member)
      have moved : additions ++ insert cmp item items ~ item :: additions ++ items :=
        (inserted.append_left additions).trans perm_middle
      exact (ih (distinct.perm moved.symm)).trans moved

theorem ofList_perm [Std.OrientedCmp cmp] (distinct : Distinct cmp items) :
    ofList cmp items ~ items := by
  rw [← List.append_nil items] at distinct
  exact (insertAll_perm distinct).trans (.of_eq (List.append_nil items))

theorem ofList_eq_of_perm [Std.TransCmp cmp] (sorted : Sorted cmp items)
    (mixed : others ~ items) : ofList cmp others = items := by
  have sorting := (ofList_perm (sorted.distinct.perm mixed.symm)).trans mixed
  refine sorting.eq_of_pairwise ?_ (sorted_ofList others) sorted
  intro first second _ _ before after
  rw [Std.OrientedCmp.gt_iff_lt.mpr after] at before
  contradiction

theorem distinct_byKey_iff {cmp : κ → κ → Ordering} [Std.LawfulEqCmp cmp]
    {entries : List (κ × β)} :
    Distinct (byKey cmp) entries ↔ (entries.map (·.1)).Nodup := by
  simp [Distinct, byKey, List.Nodup, List.pairwise_map, Std.LawfulEqCmp.compare_eq_iff_eq]

end Distinct

/-! ## Lists that have the same items -/

/-- Each of the items compares equal to one of the others. -/
def Covered (cmp : α → α → Ordering) (items others : List α) : Prop :=
  ∀ item ∈ items, ∃ other ∈ others, cmp item other = .eq

section Covered

variable {cmp : α → α → Ordering} [Std.TransCmp cmp] {items others additions : List α}

theorem Covered.trans {third : List α} (covered : Covered cmp items others)
    (covered' : Covered cmp others third) : Covered cmp items third := by
  intro item member
  obtain ⟨other, member, same⟩ := covered item member
  obtain ⟨last, member, same'⟩ := covered' other member
  exact ⟨last, member, Std.TransCmp.eq_trans same same'⟩

theorem covered_insert (item : α) (items : List α) :
    Covered cmp (item :: items) (insert cmp item items) := by
  induction items with
  | nil => exact fun other member => ⟨other, member, Std.ReflCmp.compare_self⟩
  | cons head tail ih =>
      intro other member
      unfold insert
      split
      · exact ⟨other, member, Std.ReflCmp.compare_self⟩
      · rename_i same
        rcases List.mem_cons.mp member with rfl | member
        · exact ⟨other, List.mem_cons_self, Std.ReflCmp.compare_self⟩
        · rcases List.mem_cons.mp member with rfl | later
          · exact ⟨item, List.mem_cons_self, Std.OrientedCmp.eq_symm same⟩
          · exact ⟨other, List.mem_cons_of_mem _ later, Std.ReflCmp.compare_self⟩
      · have inside : other = head ∨ other ∈ item :: tail := by
          simpa [or_left_comm] using member
        rcases inside with rfl | inside
        · exact ⟨other, List.mem_cons_self, Std.ReflCmp.compare_self⟩
        · obtain ⟨found, held, same⟩ := ih other inside
          exact ⟨found, List.mem_cons_of_mem _ held, same⟩

theorem covered_insertAll (items additions : List α) :
    Covered cmp (items ++ additions) (insertAll cmp items additions) := by
  induction additions generalizing items with
  | nil =>
      rw [List.append_nil]
      exact fun item member => ⟨item, member, Std.ReflCmp.compare_self⟩
  | cons item additions ih =>
      have first : Covered cmp (item :: items) (insert cmp item items) :=
        covered_insert item items
      refine Covered.trans (fun other member => ?_) (ih (insert cmp item items))
      have inside : other ∈ item :: items ∨ other ∈ additions := by
        simpa [or_assoc, or_left_comm] using member
      rcases inside with earlier | later
      · obtain ⟨found, held, same⟩ := first other earlier
        exact ⟨found, List.mem_append_left _ held, same⟩
      · exact ⟨other, List.mem_append_right _ later, Std.ReflCmp.compare_self⟩

theorem covered_ofList (items : List α) : Covered cmp items (ofList cmp items) :=
  covered_insertAll [] items

theorem ofList_covered (items : List α) : Covered cmp (ofList cmp items) items :=
  fun item member => ⟨item, mem_of_mem_ofList member, Std.ReflCmp.compare_self⟩

theorem Covered.of_cons {head head' : α} (heads : cmp head head' = .eq)
    (after : ∀ item ∈ items, cmp head item = .lt)
    (covered : Covered cmp (head :: items) (head' :: others)) :
    Covered cmp items others := by
  intro item member
  obtain ⟨other, found, same⟩ := covered item (List.mem_cons_of_mem _ member)
  rcases List.mem_cons.mp found with rfl | later
  · have before := after item member
    rw [Std.TransCmp.congr_left heads, Std.OrientedCmp.eq_symm same] at before
    contradiction
  · exact ⟨other, later, same⟩

theorem Covered.not_lt {head head' : α} (sorted : Sorted cmp (head' :: others))
    (covered : Covered cmp (head :: items) (head' :: others)) : cmp head head' ≠ .lt := by
  intro before
  obtain ⟨other, found, same⟩ := covered head List.mem_cons_self
  have ahead : cmp head other = .lt := by
    rcases List.mem_cons.mp found with rfl | later
    · exact before
    · exact Std.TransCmp.lt_trans before ((List.pairwise_cons.mp sorted).1 other later)
  rw [same] at ahead
  contradiction

theorem Sorted.forall₂_of_covered (sorted : Sorted cmp items) (sorted' : Sorted cmp others)
    (covered : Covered cmp items others) (covered' : Covered cmp others items) :
    List.Forall₂ (fun item other => cmp item other = .eq) items others := by
  induction items generalizing others with
  | nil =>
      cases others with
      | nil => exact .nil
      | cons head' others =>
          obtain ⟨_, absent, -⟩ := covered' head' List.mem_cons_self
          contradiction
  | cons head items ih =>
      cases others with
      | nil =>
          obtain ⟨_, absent, -⟩ := covered head List.mem_cons_self
          contradiction
      | cons head' others =>
          have heads : cmp head head' = .eq := by
            cases order : cmp head head' with
            | eq => rfl
            | lt => exact absurd order (covered.not_lt sorted')
            | gt =>
                exact absurd (Std.OrientedCmp.gt_iff_lt.mp order) (covered'.not_lt sorted)
          have ⟨after, rest⟩ := List.pairwise_cons.mp sorted
          have ⟨after', rest'⟩ := List.pairwise_cons.mp sorted'
          have tails := covered.of_cons heads after
          have tails' := covered'.of_cons (Std.OrientedCmp.eq_symm heads) after'
          exact .cons heads (ih rest rest' tails tails')

theorem ofList_forall₂ (covered : Covered cmp items others)
    (covered' : Covered cmp others items) :
    List.Forall₂ (fun item other => cmp item other = .eq) (ofList cmp items)
      (ofList cmp others) :=
  (sorted_ofList items).forall₂_of_covered (sorted_ofList others)
    (((ofList_covered items).trans covered).trans (covered_ofList others))
    (((ofList_covered others).trans covered').trans (covered_ofList items))

end Covered

/-! ## What insertions keep -/

open List in
theorem insert_subperm (cmp : α → α → Ordering) (item : α) (items : List α) :
    insert cmp item items <+~ item :: items := by
  induction items with
  | nil => exact Subperm.refl _
  | cons head tail ih =>
      unfold insert
      split
      · exact Subperm.refl _
      · exact (subperm_cons item).mpr Subperm.cons_self
      · exact ((subperm_cons head).mpr ih).trans (Perm.swap item head tail).subperm

open List in
theorem insertAll_subperm (cmp : α → α → Ordering) (items additions : List α) :
    insertAll cmp items additions <+~ additions ++ items := by
  induction additions generalizing items with
  | nil => exact Subperm.refl _
  | cons item additions ih =>
      have inserted := (subperm_append_left additions).mpr (insert_subperm cmp item items)
      exact ((ih _).trans inserted).trans perm_middle.subperm

open List in
theorem ofList_subperm (cmp : α → α → Ordering) (items : List α) :
    ofList cmp items <+~ items := by
  have within := insertAll_subperm cmp [] items
  rwa [List.append_nil] at within

theorem length_ofList_eq_iff {cmp : α → α → Ordering} [Std.TransCmp cmp] {items : List α} :
    (ofList cmp items).length = items.length ↔ Distinct cmp items := by
  constructor
  · intro same
    have mixed := (ofList_subperm cmp items).perm_of_length_le (Nat.le_of_eq same.symm)
    exact (sorted_ofList items).distinct.perm mixed
  · intro distinct
    exact (ofList_perm distinct).length_eq

section Members

variable {cmp : α → α → Ordering} [Std.LawfulEqCmp cmp]

theorem mem_insert {item other : α} {items : List α} :
    other ∈ insert cmp item items ↔ other = item ∨ other ∈ items := by
  refine ⟨mem_of_mem_insert, fun member => ?_⟩
  induction items with
  | nil => simpa [insert] using member
  | cons head tail ih =>
      unfold insert
      split
      · simpa using member
      · rename_i same
        rw [← Std.LawfulEqCmp.eq_of_compare same] at member
        simpa using member
      · simp only [List.mem_cons] at member ⊢
        rcases member with same | same | later
        · exact .inr (ih (.inl same))
        · exact .inl same
        · exact .inr (ih (.inr later))

theorem mem_insertAll {other : α} {items additions : List α} :
    other ∈ insertAll cmp items additions ↔
      other ∈ items ∨ other ∈ additions := by
  induction additions generalizing items with
  | nil => simp [insertAll]
  | cons item additions ih =>
      change other ∈ insertAll cmp (insert cmp item items) additions ↔ _
      rw [ih, mem_insert, List.mem_cons, or_assoc, or_left_comm]

theorem mem_ofList {other : α} {items : List α} :
    other ∈ ofList cmp items ↔ other ∈ items := by
  simp [ofList, mem_insertAll]

end Members

/-! ## Lookup -/

section Lookup

variable {cmp : κ → κ → Ordering}

theorem mem_of_find?_eq_some [Std.LawfulEqCmp cmp] {key : κ} {value : β}
    {entries : List (κ × β)} (found : find? cmp key entries = some value) :
    (key, value) ∈ entries := by
  induction entries with
  | nil => contradiction
  | cons head tail ih =>
      simp only [find?] at found
      split at found
      · rename_i same
        cases Std.LawfulEqCmp.eq_of_compare same
        cases found
        exact List.mem_cons_self
      · exact List.mem_cons_of_mem _ (ih found)

theorem find?_eq_none_iff [Std.LawfulEqCmp cmp] {key : κ}
    {entries : List (κ × β)} :
    find? cmp key entries = none ↔ key ∉ entries.map (·.1) := by
  induction entries with
  | nil => simp [find?]
  | cons head tail ih =>
      simp only [find?, List.map_cons, List.mem_cons, not_or]
      split
      · rename_i same
        simp [Std.LawfulEqCmp.eq_of_compare same]
      · rename_i different
        rw [ih, iff_and_self]
        rintro - rfl
        exact different Std.ReflCmp.compare_self

variable (cmp) in
theorem find?_filter_key [Std.LawfulEqCmp cmp] (key : κ) (keep : κ → Bool)
    (entries : List (κ × β)) :
    find? cmp key (entries.filter (fun entry => keep entry.1)) =
      if keep key then find? cmp key entries else none := by
  induction entries with
  | nil => simp [find?]
  | cons head tail ih =>
      rw [List.filter_cons]
      by_cases same : cmp key head.1 = .eq
      · cases Std.LawfulEqCmp.eq_of_compare same
        by_cases kept : keep head.1 <;> simp [kept, find?, ih, same]
      · by_cases kept : keep head.1 <;> simp [kept, find?, ih]

variable (cmp) in
theorem lookup_eq_find? [Std.LawfulEqCmp cmp] [DecidableEq κ] (key : κ)
    (entries : List (κ × β)) :
    entries.lookup key = (entries.find? fun entry => cmp key entry.1 == .eq).map (·.2) := by
  induction entries with
  | nil => rfl
  | cons head tail ih =>
      obtain ⟨other, value⟩ := head
      by_cases same : key = other
      · subst same
        simp [Std.ReflCmp.compare_self]
      · have different : cmp key other ≠ .eq := fun equal =>
          same (Std.LawfulEqCmp.eq_of_compare equal)
        simp [List.lookup_cons, beq_false_of_ne same, different, ih]

theorem lookup_reverse_eq_find? [Std.LawfulEqCmp cmp] [DecidableEq κ] (key : κ)
    {entries : List (κ × β)} (sorted : Sorted (byKey cmp) entries) :
    entries.reverse.lookup key = find? cmp key entries := by
  induction entries with
  | nil => rfl
  | cons head tail ih =>
      obtain ⟨other, value⟩ := head
      have ⟨after, rest⟩ := List.pairwise_cons.mp sorted
      rw [List.reverse_cons, List.lookup_append, ih rest]
      by_cases same : key = other
      · subst same
        have absent : find? cmp key tail = none := by
          rw [find?_eq_none_iff]
          intro member
          obtain ⟨entry, later, keys⟩ := List.mem_map.mp member
          have before : cmp key entry.1 = .lt := after _ later
          have reflexive : cmp key key = .eq := Std.ReflCmp.compare_self
          rw [keys, reflexive] at before
          contradiction
        simp [find?, absent, Std.ReflCmp.compare_self]
      · have different : cmp key other ≠ .eq := fun equal =>
          same (Std.LawfulEqCmp.eq_of_compare equal)
        simp [find?, List.lookup_cons, beq_false_of_ne same]

variable [Std.TransCmp cmp]

variable (cmp) in
theorem find?_insert (key : κ) (entry : κ × β) (entries : List (κ × β)) :
    find? cmp key (insert (byKey cmp) entry entries) =
      if cmp key entry.1 = .eq then some entry.2
      else find? cmp key entries := by
  induction entries with
  | nil =>
      simp only [insert, find?]
      split <;> simp_all
  | cons head tail ih =>
      unfold insert
      split
      · simp only [find?]
        split <;> simp_all
      · rename_i same
        have heads : cmp key entry.1 = cmp key head.1 :=
          Std.TransCmp.congr_right (show cmp entry.1 head.1 = .eq from same)
        simp only [find?, ← heads]
        split <;> simp_all
      · rename_i behind
        have behind : cmp entry.1 head.1 = .gt := behind
        simp only [find?, ih]
        split
        · rename_i found
          have before : cmp entry.1 key = .gt :=
            (Std.TransCmp.congr_right found).trans behind
          have different : cmp key entry.1 ≠ .eq := by
            rw [Std.OrientedCmp.gt_iff_lt.mp before]
            decide
          rw [if_neg different]
        · rfl

variable (cmp) in
theorem find?_insertAll_eq (key : κ) (entries additions : List (κ × β)) :
    find? cmp key (insertAll (byKey cmp) entries additions) =
      ((additions.reverse.find? fun entry => cmp key entry.1 == .eq).map (·.2)).or
        (find? cmp key entries) := by
  induction additions generalizing entries with
  | nil => rfl
  | cons addition additions ih =>
      change find? cmp key (insertAll (byKey cmp)
        (insert (byKey cmp) addition entries) additions) = _
      rw [ih, find?_insert, List.reverse_cons, List.find?_append]
      cases additions.reverse.find? fun entry => cmp key entry.1 == .eq with
      | some found => rfl
      | none =>
          by_cases same : cmp key addition.1 = .eq
          · simp [same]
          · simp [same]

variable (cmp) in
theorem find?_ofList (key : κ) (entries : List (κ × β)) :
    find? cmp key (ofList (byKey cmp) entries) =
      (entries.reverse.find? fun entry => cmp key entry.1 == .eq).map (·.2) := by
  rw [ofList, find?_insertAll_eq, find?, Option.or_none]

theorem find?_eq_some_of_mem {key : κ} {value : β} {entries : List (κ × β)}
    (sorted : Sorted (byKey cmp) entries) (member : (key, value) ∈ entries) :
    find? cmp key entries = some value := by
  induction entries with
  | nil => contradiction
  | cons head tail ih =>
      have ⟨after, rest⟩ := List.pairwise_cons.mp sorted
      rcases List.mem_cons.mp member with same | later
      · subst same
        simp [find?, Std.ReflCmp.compare_self]
      · have before : cmp head.1 key = .lt := after _ later
        simp only [find?, Std.OrientedCmp.gt_iff_lt.mpr before]
        exact ih rest later

variable [Std.LawfulEqCmp cmp]

theorem find?_eq_some_iff {key : κ} {value : β} {entries : List (κ × β)}
    (sorted : Sorted (byKey cmp) entries) :
    find? cmp key entries = some value ↔ (key, value) ∈ entries :=
  ⟨mem_of_find?_eq_some, find?_eq_some_of_mem sorted⟩

variable [DecidableEq κ]

theorem find?_insertAll (key : κ) (entries additions : List (κ × β)) :
    find? cmp key (insertAll (byKey cmp) entries additions) =
      (additions.reverse.lookup key).or (find? cmp key entries) := by
  rw [find?_insertAll_eq, lookup_eq_find? cmp]

end Lookup

end TracedEval.SortedList
