import Mathlib.Data.List.Forall2
import Mathlib.Data.List.Perm.Subperm
import TracedEval.Bindings
import TracedEval.Proofs.SortedList
import TracedEval.Proofs.TermOrder

/-!
# Laws of environments

Every operation on environments is described by what `find?` answers afterwards,
and every operation on sets of symbols by their members.
-/

namespace TracedEval

namespace Bindings

theorem eq_of_entries_eq {first second : Bindings} (same : first.entries = second.entries) :
    first = second := by
  cases first
  cases same
  rfl

@[simp] theorem find?_empty (symbol : Symbol) : empty.find? symbol = none := rfl

theorem binds_eq_false_iff {bindings : Bindings} {symbol : Symbol} :
    bindings.binds symbol = false ↔ bindings.find? symbol = none := by
  simp [binds]

theorem find?_eq_some_iff {bindings : Bindings} {symbol : Symbol} {value : Term} :
    bindings.find? symbol = some value ↔ (symbol, value) ∈ bindings.entries :=
  SortedList.find?_eq_some_iff bindings.sorted

theorem find?_insert (bindings : Bindings) (bound : Symbol) (value : Term)
    (symbol : Symbol) :
    (bindings.insert bound value).find? symbol =
      if symbol = bound then some value else bindings.find? symbol := by
  have found := SortedList.find?_insert Symbol.compare symbol
    (bound, value) bindings.entries
  rw [insert, find?, found]
  by_cases same : symbol = bound <;> simp [same, find?]

theorem find?_extend (bindings : Bindings) (additions : List (Symbol × Term))
    (symbol : Symbol) :
    (bindings.extend additions).find? symbol =
      (additions.reverse.lookup symbol).or (bindings.find? symbol) :=
  SortedList.find?_insertAll symbol bindings.entries additions

theorem find?_extend_of_notMem {additions : List (Symbol × Term)} {symbol : Symbol}
    (other : symbol ∉ additions.map (·.1)) (bindings : Bindings) :
    (bindings.extend additions).find? symbol = bindings.find? symbol := by
  have absent : additions.reverse.lookup symbol = none := by
    rw [List.lookup_eq_none_iff]
    intro addition member
    rw [bne_iff_ne]
    rintro rfl
    exact other (List.mem_map_of_mem (List.mem_reverse.mp member))
  rw [find?_extend, absent, Option.none_or]

theorem find?_extend_isSome {additions : List (Symbol × Term)} {symbol : Symbol}
    (added : symbol ∈ additions.map (·.1)) (bindings : Bindings) :
    ((bindings.extend additions).find? symbol).isSome := by
  obtain ⟨addition, member, rfl⟩ := List.mem_map.mp added
  have present : (additions.reverse.lookup addition.1).isSome := by
    rw [List.lookup_isSome_iff]
    exact ⟨addition, List.mem_reverse.mpr member, by simp⟩
  rw [find?_extend, Option.isSome_or, present, Bool.true_or]

theorem find?_extend_of_mem {additions : List (Symbol × Term)} {symbol : Symbol}
    (added : symbol ∈ additions.map (·.1)) (bindings other : Bindings) :
    (bindings.extend additions).find? symbol =
      (other.extend additions).find? symbol := by
  have present := find?_extend_isSome added .empty
  rw [find?_extend, find?_empty, Option.or_none] at present
  obtain ⟨value, found⟩ := Option.isSome_iff_exists.mp present
  rw [find?_extend, find?_extend, found, Option.some_or, Option.some_or]

theorem find?_ofList_eq_some_iff {entries : List (Symbol × Term)} {symbol : Symbol} {value : Term}
    (distinct : (entries.map (·.1)).Nodup) :
    (ofList entries).find? symbol = some value ↔ (symbol, value) ∈ entries := by
  rw [find?_eq_some_iff]
  exact (SortedList.ofList_perm (SortedList.distinct_byKey_iff.mpr distinct)).mem_iff

@[simp] theorem extend_nil (bindings : Bindings) : bindings.extend [] = bindings :=
  rfl

theorem nodup_symbols (bindings : Bindings) : bindings.symbols.Nodup := by
  refine List.pairwise_map.mpr (bindings.sorted.imp fun {entry other} before same => ?_)
  have before : entry.1.compare other.1 = .lt := before
  have equal : entry.1.compare other.1 = .eq := by
    rw [same]
    exact Std.ReflCmp.compare_self
  rw [equal] at before
  contradiction

theorem nodup_entries (bindings : Bindings) : bindings.entries.Nodup :=
  (List.pairwise_map.mp bindings.nodup_symbols).imp fun unlike same =>
    unlike (congrArg Prod.fst same)

theorem find?_extend_eq_or (bindings : Bindings) (additions : List (Symbol × Term))
    (symbol : Symbol) :
    (bindings.extend additions).find? symbol =
      ((ofList additions).find? symbol).or (bindings.find? symbol) := by
  rw [ofList, find?_extend, find?_extend, find?_empty, Option.or_none]

theorem eq_of_find?_eq {first second : Bindings}
    (same : ∀ symbol, first.find? symbol = second.find? symbol) : first = second := by
  have mixed : first.entries.Perm second.entries := by
    rw [List.perm_ext_iff_of_nodup first.nodup_entries second.nodup_entries]
    intro entry
    rw [← find?_eq_some_iff, ← find?_eq_some_iff, same]
  have sorting := SortedList.ofList_eq_of_perm second.sorted mixed
  rw [SortedList.ofList_eq_self first.sorted] at sorting
  exact eq_of_entries_eq sorting

theorem extend_eq_of_perm {additions others : List (Symbol × Term)}
    (distinct : (additions.map (·.1)).Nodup) (mixed : others.Perm additions)
    (bindings : Bindings) : bindings.extend others = bindings.extend additions := by
  have distinct' : (others.map (·.1)).Nodup := (mixed.map _).nodup_iff.mpr distinct
  refine eq_of_find?_eq fun symbol => ?_
  have same : (ofList others).find? symbol = (ofList additions).find? symbol := by
    ext value
    rw [find?_ofList_eq_some_iff distinct', find?_ofList_eq_some_iff distinct, mixed.mem_iff]
  rw [find?_extend_eq_or, find?_extend_eq_or, same]

theorem find?_supplement (bindings other : Bindings) (symbol : Symbol) :
    (bindings.supplement other).find? symbol =
      (bindings.find? symbol).or (other.find? symbol) := by
  have ordered := other.sorted.filter (fun entry => !bindings.binds entry.1)
  rw [supplement, find?_extend, SortedList.lookup_reverse_eq_find? symbol ordered,
    SortedList.find?_filter_key Symbol.compare symbol
      (fun key => !bindings.binds key)]
  change (if (!bindings.binds symbol) = true then other.find? symbol else none).or _ = _
  cases bound : bindings.find? symbol <;> simp [binds, bound]

theorem find?_merge (first second : Bindings) (symbol : Symbol) :
    (first.merge second).find? symbol =
      if second.size ≤ first.size then
        (first.find? symbol).or (second.find? symbol)
      else (second.find? symbol).or (first.find? symbol) := by
  rw [merge]
  split <;> rw [find?_supplement]

theorem eq_empty_of_isEmpty {bindings : Bindings} (blank : bindings.isEmpty = true) :
    bindings = empty :=
  eq_of_entries_eq (List.isEmpty_iff.mp blank)

theorem union_empty (bindings : Bindings) : bindings.union empty = bindings := rfl

theorem empty_union (bindings : Bindings) : empty.union bindings = bindings := by
  rw [union]
  split
  · rename_i blank
    exact (eq_empty_of_isEmpty blank).symm
  · rfl

theorem union_eq_merge (first second : Bindings) : first.union second = first.merge second := by
  by_cases blank : second.isEmpty = true
  · rw [eq_empty_of_isEmpty blank]
    refine eq_of_find?_eq fun symbol => ?_
    have smaller : empty.size ≤ first.size := Nat.zero_le _
    rw [union_empty, find?_merge, if_pos smaller, find?_empty, Option.or_none]
  · by_cases blank' : first.isEmpty = true
    · rw [eq_empty_of_isEmpty blank', empty_union]
      refine eq_of_find?_eq fun symbol => ?_
      rw [find?_merge, find?_empty, Option.or_none, Option.none_or, ite_self]
    · rw [union, if_neg blank, if_neg blank']

theorem find?_union (first second : Bindings) (symbol : Symbol) :
    (first.union second).find? symbol =
      if second.size ≤ first.size then
        (first.find? symbol).or (second.find? symbol)
      else (second.find? symbol).or (first.find? symbol) := by
  rw [union_eq_merge, find?_merge]

theorem find?_union_cases {first second : Bindings} {symbol : Symbol}
    {value : Term} (found : (first.union second).find? symbol = some value) :
    first.find? symbol = some value ∨ second.find? symbol = some value := by
  rw [find?_union] at found
  split at found
  · exact (Option.or_eq_some_iff.mp found).imp_right And.right
  · exact (Option.or_eq_some_iff.mp found).symm.imp_left And.right

theorem find?_union_isSome (first second : Bindings) (symbol : Symbol) :
    ((first.union second).find? symbol).isSome =
      ((first.find? symbol).isSome || (second.find? symbol).isSome) := by
  rw [find?_union]
  split
  · exact Option.isSome_or
  · rw [Option.isSome_or, Bool.or_comm]

theorem find?_without (bindings : Bindings) (symbols : List Symbol)
    (symbol : Symbol) :
    (bindings.without symbols).find? symbol =
      if symbol ∈ symbols then none else bindings.find? symbol := by
  have found := SortedList.find?_filter_key Symbol.compare symbol
    (fun key => !symbols.contains key) bindings.entries
  rw [without, find?, found]
  by_cases dropped : symbol ∈ symbols <;> simp [dropped, find?]

theorem isSatisfiedBy_iff_le_and {part whole : Bindings} :
    part.isSatisfiedBy whole = true ↔
      part.size ≤ whole.size ∧
        ∀ symbol value, part.find? symbol = some value →
          ∃ found, whole.find? symbol = some found ∧ value.equal found = true := by
  have bound := @find?_eq_some_iff part
  simp only [isSatisfiedBy, Bool.and_eq_true, decide_eq_true_eq, List.all_eq_true,
    bound, Prod.forall]
  refine and_congr_right fun _ => ?_
  refine forall₃_congr fun symbol value _ => ?_
  cases whole.find? symbol <;> simp

/-! ## What entries have in common -/

/-- All symbols have a property, and all values another one. -/
def Consists (names : Symbol → Prop) (values : Term → Prop) (bindings : Bindings) : Prop :=
  ∀ symbol value, bindings.find? symbol = some value → names symbol ∧ values value

section Consists

variable {names names' : Symbol → Prop} {values : Term → Prop} {bindings other : Bindings}

theorem consists_iff :
    bindings.Consists names values ↔
      ∀ entry ∈ bindings.entries, names entry.1 ∧ values entry.2 := by
  constructor
  · exact fun all entry member => all entry.1 entry.2 (find?_eq_some_iff.mpr member)
  · exact fun all symbol value found => all (symbol, value) (find?_eq_some_iff.mp found)

theorem consists_empty : empty.Consists names values :=
  fun _ _ found => by contradiction

namespace Consists

variable (all : bindings.Consists names values)

include all

theorem mono (implied : ∀ symbol, names symbol → names' symbol) :
    bindings.Consists names' values :=
  fun symbol value found => (all symbol value found).imp_left (implied symbol)

theorem insert {symbol : Symbol} {value : Term} (name : names symbol) (added : values value) :
    (bindings.insert symbol value).Consists names values := by
  intro other found result
  rw [find?_insert] at result
  split at result
  · rename_i same
    cases result
    exact ⟨same ▸ name, added⟩
  · exact all other found result

theorem extend {additions : List (Symbol × Term)}
    (added : ∀ addition ∈ additions, names addition.1 ∧ values addition.2) :
    (bindings.extend additions).Consists names values := by
  rw [consists_iff] at all ⊢
  intro entry member
  rcases SortedList.mem_of_mem_insertAll member with earlier | later
  · exact all entry earlier
  · exact added entry later

theorem union (all' : other.Consists names values) :
    (bindings.union other).Consists names values := by
  intro symbol value found
  rcases find?_union_cases found with found | found
  · exact all symbol value found
  · exact all' symbol value found

theorem without (symbols : List Symbol) :
    (bindings.without symbols).Consists names values := by
  intro symbol value found
  rw [find?_without] at found
  split at found
  · contradiction
  · exact all symbol value found

end Consists

end Consists

/-! ## One environment inside another -/

/-- Everything bound in `part` is bound to the very same term in `whole`. -/
def Within (part whole : Bindings) : Prop :=
  ∀ symbol value, part.find? symbol = some value →
    whole.find? symbol = some value

namespace Within

variable {first second whole other : Bindings}

theorem empty : Bindings.empty.Within whole := fun _ _ found => by
  contradiction

theorem insert {symbol : Symbol} {value : Term} (inside : first.Within whole)
    (found : whole.find? symbol = some value) :
    (first.insert symbol value).Within whole := by
  intro symbol' value' found'
  rw [find?_insert] at found'
  split at found'
  · rename_i same
    rw [same, found, found']
  · exact inside symbol' value' found'

theorem union (inside : first.Within whole) (inside' : second.Within whole) :
    (first.union second).Within whole := by
  intro symbol value found
  rcases find?_union_cases found with found | found
  · exact inside symbol value found
  · exact inside' symbol value found

theorem of_union (inside : first.Within whole) (inside' : second.Within whole)
    (both : (first.union second).Within other) :
    first.Within other ∧ second.Within other := by
  have bound : ∀ symbol value, whole.find? symbol = some value →
      ((first.union second).find? symbol).isSome →
      other.find? symbol = some value := by
    intro symbol value found present
    obtain ⟨value', found'⟩ := Option.isSome_iff_exists.mp present
    have same := inside.union inside' symbol value' found'
    rw [found] at same
    cases same
    exact both symbol value found'
  constructor
  · intro symbol value found
    refine bound symbol value (inside symbol value found) ?_
    rw [find?_union_isSome, found]
    rfl
  · intro symbol value found
    refine bound symbol value (inside' symbol value found) ?_
    rw [find?_union_isSome, found, Option.isSome_some, Bool.or_true]

end Within

/-! ## Satisfaction -/

/-- Everything bound in `part` is bound to an equal term in `whole`. -/
def Agrees (part whole : Bindings) : Prop :=
  ∀ symbol value, part.find? symbol = some value →
    ∃ found, whole.find? symbol = some found ∧ value.equal found = true

theorem size_le_of_binds {part whole : Bindings}
    (bound : ∀ symbol, (part.find? symbol).isSome → (whole.find? symbol).isSome) :
    part.size ≤ whole.size := by
  have among : part.symbols ⊆ whole.symbols := by
    intro symbol member
    obtain ⟨⟨symbol, value⟩, entry, rfl⟩ := List.mem_map.mp member
    have present := bound symbol (by rw [find?_eq_some_iff.mpr entry, Option.isSome_some])
    obtain ⟨found, bound⟩ := Option.isSome_iff_exists.mp present
    exact List.mem_map.mpr ⟨(symbol, found), find?_eq_some_iff.mp bound, rfl⟩
  have fewer := (part.nodup_symbols.subperm among).length_le
  simpa only [symbols, List.length_map, size] using fewer

theorem Agrees.size_le {part whole : Bindings} (agrees : part.Agrees whole) :
    part.size ≤ whole.size := by
  refine size_le_of_binds fun symbol present => ?_
  obtain ⟨value, found⟩ := Option.isSome_iff_exists.mp present
  obtain ⟨other, bound, -⟩ := agrees symbol value found
  rw [bound, Option.isSome_some]

theorem size_le_union_first (first second : Bindings) :
    first.size ≤ (first.union second).size :=
  size_le_of_binds fun symbol present => by
    rw [find?_union_isSome, present, Bool.true_or]

theorem size_le_union_second (first second : Bindings) :
    second.size ≤ (first.union second).size :=
  size_le_of_binds fun symbol present => by
    rw [find?_union_isSome, present, Bool.or_true]

theorem isSatisfiedBy_iff {part whole : Bindings} :
    part.isSatisfiedBy whole = true ↔ part.Agrees whole := by
  rw [isSatisfiedBy_iff_le_and]
  exact ⟨And.right, fun agrees => ⟨agrees.size_le, agrees⟩⟩

namespace Agrees

variable {first second whole : Bindings}

theorem empty : Bindings.empty.Agrees whole := fun _ _ found => by
  contradiction

theorem of_within (inside : first.Within whole) : first.Agrees whole :=
  fun symbol value found => ⟨value, inside symbol value found, Term.equal_refl value⟩

theorem union (agrees : first.Agrees whole) (agrees' : second.Agrees whole) :
    (first.union second).Agrees whole := by
  intro symbol value found
  rcases find?_union_cases found with found | found
  · exact agrees symbol value found
  · exact agrees' symbol value found

theorem without {additions : List (Symbol × Term)}
    (agrees : first.Agrees (whole.extend additions)) :
    (first.without (additions.map (·.1))).Agrees whole := by
  intro symbol value found
  rw [find?_without] at found
  split at found
  · contradiction
  · rename_i other
    obtain ⟨found', bound, same⟩ := agrees symbol value found
    rw [find?_extend_of_notMem other] at bound
    exact ⟨found', bound, same⟩

end Agrees

/-! ## Equality -/

theorem equal_iff_forall₂ {first second : Bindings} :
    first.equal second = true ↔
      List.Forall₂ (fun entry other => entry.1 = other.1 ∧ entry.2.equal other.2)
        first.entries second.entries := by
  obtain ⟨entries, _⟩ := first
  obtain ⟨others, _⟩ := second
  rw [equal, beq_iff_eq]
  dsimp only [compare]
  induction entries generalizing others with
  | nil => cases others <;> simp [SortedList.compareLists]
  | cons entry entries ih =>
      cases others with
      | nil => simp [SortedList.compareLists]
      | cons other others =>
          rename_i sorted sorted'
          rw [SortedList.compareLists, Ordering.then_eq_eq, Ordering.then_eq_eq,
            List.forall₂_cons, Std.LawfulEqCmp.compare_eq_iff_eq, Term.equal_iff,
            ih sorted.of_cons others sorted'.of_cons]

@[simp] theorem equal_refl (bindings : Bindings) :
    bindings.equal bindings = true :=
  equal_iff_forall₂.mpr
    (List.forall₂_same.mpr fun entry _ => ⟨rfl, Term.equal_refl entry.2⟩)

theorem equal_symm {first second : Bindings} (same : first.equal second = true) :
    second.equal first = true := by
  rw [equal_iff_forall₂] at same ⊢
  exact same.flip.imp fun _ _ related => ⟨related.1.symm, Term.equal_symm related.2⟩

theorem equal_trans {first second third : Bindings} (same : first.equal second = true)
    (same' : second.equal third = true) : first.equal third = true := by
  rw [equal_iff_forall₂] at same same' ⊢
  refine SortedList.forall₂_trans (fun entry other last related related' => ?_) same same'
  exact ⟨related.1.trans related'.1, Term.equal_trans related.2 related'.2⟩

theorem find?_of_equal {first second : Bindings} {symbol : Symbol} {value : Term}
    (same : first.equal second = true) (found : first.find? symbol = some value) :
    ∃ other, second.find? symbol = some other ∧ value.equal other = true := by
  have entries := equal_iff_forall₂.mp same
  obtain ⟨position, here, entry⟩ :=
    List.mem_iff_getElem.mp (find?_eq_some_iff.mp found)
  obtain ⟨symbols, values⟩ := entries.get here (entries.length_eq ▸ here)
  simp only [List.get_eq_getElem, entry] at symbols values
  refine ⟨_, find?_eq_some_iff.mpr ?_, values⟩
  rw [symbols]
  exact List.getElem_mem _

theorem isSatisfiedBy_of_equal {first second whole : Bindings}
    (same : first.equal second = true)
    (satisfied : second.isSatisfiedBy whole = true) :
    first.isSatisfiedBy whole = true := by
  obtain ⟨smaller, bound⟩ := isSatisfiedBy_iff_le_and.mp satisfied
  refine isSatisfiedBy_iff_le_and.mpr ⟨?_, fun symbol value found => ?_⟩
  · rw [size, (equal_iff_forall₂.mp same).length_eq]
    exact smaller
  · obtain ⟨other, found', same⟩ := find?_of_equal same found
    obtain ⟨found, foundIn, same'⟩ := bound symbol other found'
    exact ⟨found, foundIn, Term.equal_trans same same'⟩

def Plain (bindings : Bindings) : Prop :=
  ∀ symbol value, bindings.find? symbol = some value → value.Plain

theorem Plain.eq_of_equal {first second : Bindings} (plain : first.Plain)
    (same : first.equal second = true) : first = second := by
  have entries : first.entries = second.entries := by
    have spelt : ∀ entry ∈ first.entries, entry.2.Plain :=
      fun entry member => plain entry.1 entry.2 (find?_eq_some_iff.mpr member)
    rw [← List.forall₂_eq_eq_eq]
    refine ((List.forall₂_and_left _ _).mpr
      ⟨spelt, equal_iff_forall₂.mp same⟩).imp fun entry other related => ?_
    obtain ⟨plain, symbols, values⟩ := related
    exact Prod.ext symbols (Term.eq_of_equal plain values)
  exact eq_of_entries_eq entries

theorem within_of_isSatisfiedBy {part whole : Bindings} (plain : whole.Plain)
    (satisfied : part.isSatisfiedBy whole = true) : part.Within whole := by
  intro symbol value found
  obtain ⟨value', found', same⟩ :=
    (isSatisfiedBy_iff_le_and.mp satisfied).2 symbol value found
  rw [found', Term.eq_of_equal (plain symbol value' found') (Term.equal_symm same)]

end Bindings

namespace SymbolSet

instance : Membership Symbol SymbolSet where
  mem set symbol := symbol ∈ set.members

theorem mem_def {set : SymbolSet} {symbol : Symbol} :
    symbol ∈ set ↔ symbol ∈ set.members := Iff.rfl

@[simp] theorem notMem_empty (symbol : Symbol) : symbol ∉ empty := by
  simp [mem_def, empty]

@[simp] theorem mem_ofList {symbols : List Symbol} {symbol : Symbol} :
    symbol ∈ ofList symbols ↔ symbol ∈ symbols :=
  SortedList.mem_ofList

@[simp] theorem mem_union {first second : SymbolSet} {symbol : Symbol} :
    symbol ∈ first.union second ↔ symbol ∈ first ∨ symbol ∈ second :=
  SortedList.mem_insertAll

theorem isUnboundIn_iff {set : SymbolSet} {bindings : Bindings} :
    set.isUnboundIn bindings = true ↔
      ∀ symbol ∈ set, bindings.find? symbol = none := by
  simp [isUnboundIn, mem_def, Bindings.binds]

end SymbolSet

end TracedEval
