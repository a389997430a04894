import TracedEval.Proofs.Expansion.Simultaneous
import TracedEval.Proofs.TotalOrder

/-!
# Substitutions one after the other

Two substitutions in a row are one, by an environment that has the second put into the
values of the first.  On the way elements of a set may become equal and merge, so that the
second substitution meets fewer of them.  Nothing is lost by that: equal elements have
equal results.  Which spelling of its decimals the set keeps may depend on the way.
-/

namespace TracedEval.Expansion

open Term

/-- `both` binds what `first` binds, to its value with `second` put in, and otherwise what
`second` binds. -/
structure Composes (first second both : Bindings) : Prop where
  replaced {symbol value} : first.find? symbol = some value →
    ∃ result, substitute second value = .ok result ∧ both.find? symbol = some result
  kept {symbol} : first.find? symbol = none → both.find? symbol = second.find? symbol

variable {first second both : Bindings}

theorem exists_composes
    (succeeds : ∀ symbol value, first.find? symbol = some value →
      ∃ result, substitute second value = .ok result) :
    ∃ both, Composes first second both := by
  have each : ∀ entry ∈ first.entries, ∃ entry' : Symbol × Term,
      entry.1 = entry'.1 ∧ substitute second entry.2 = .ok entry'.2 := by
    intro entry member
    obtain ⟨result, replaced⟩ := succeeds entry.1 entry.2 (Bindings.find?_eq_some_iff.mpr member)
    exact ⟨(entry.1, result), rfl, replaced⟩
  obtain ⟨entries, paired⟩ := SortedList.exists_forall₂ each
  have sameKeys : List.Forall₂
      (fun entry other => SortedList.byKey Symbol.compare entry other = .eq)
      entries first.entries :=
    paired.flip.imp fun entry other related =>
      show entry.1.compare other.1 = .eq by rw [related.1]; exact Std.ReflCmp.compare_self
  let values : Bindings := ⟨entries, .of_forall₂ sameKeys first.sorted⟩
  refine ⟨values.supplement second, ?_, ?_⟩
  · intro symbol value found
    obtain ⟨⟨symbol', result⟩, member, same, replaced⟩ :=
      SortedList.exists_item_of_forall₂ paired.flip (Bindings.find?_eq_some_iff.mp found)
    obtain rfl : symbol = symbol' := same
    have bound : values.find? symbol = some result := Bindings.find?_eq_some_iff.mpr member
    refine ⟨result, replaced, ?_⟩
    rw [Bindings.find?_supplement, bound, Option.some_or]
  · intro symbol lacks
    have unbound : values.find? symbol = none := by
      refine Option.eq_none_iff_forall_ne_some.mpr fun result bound => ?_
      obtain ⟨⟨symbol', value⟩, member, same, -⟩ :=
        SortedList.exists_item_of_forall₂ paired (Bindings.find?_eq_some_iff.mp bound)
      obtain rfl : symbol' = symbol := same
      rw [Bindings.find?_eq_some_iff.mpr member] at lacks
      contradiction
    rw [Bindings.find?_supplement, unbound, Option.none_or]

theorem Composes.substitute_symbol (composes : Composes first second both) {symbol : Symbol}
    {once twice : Term} (substituted : substitute first (.symbol symbol) = .ok once)
    (again : substitute second once = .ok twice) :
    substitute both (.symbol symbol) = .ok twice := by
  rw [substitute] at substituted
  cases found : first.find? symbol with
  | none =>
      rw [found] at substituted
      cases substituted
      rw [Option.getD_none, substitute] at again
      rw [substitute, composes.kept found, again]
  | some value =>
      rw [found] at substituted
      cases substituted
      obtain ⟨result, replaced, bound⟩ := composes.replaced found
      cases replaced.symm.trans again
      rw [substitute, bound, Option.getD_some]

/-- Whatever the two substitutions make of the term, the joint one makes an equal term of
it. -/
def Joins (first second both : Bindings) (term : Term) : Prop :=
  ∀ once twice, substitute first term = .ok once → substitute second once = .ok twice →
    ∃ result, substitute both term = .ok result ∧ result.Alike twice

theorem exists_alike_of_joins {items onces twices : List Term}
    (joins : ∀ item ∈ items, Joins first second both item)
    (each : List.Forall₂ (fun item once => substitute first item = .ok once) items onces)
    (each' : List.Forall₂ (fun once twice => substitute second once = .ok twice) onces twices) :
    ∃ results, List.Forall₂ (fun item result => substitute both item = .ok result) items results ∧
      List.Forall₂ Alike results twices := by
  induction each generalizing twices with
  | nil =>
      cases each'
      exact ⟨[], .nil, .nil⟩
  | cons substituted _ ih =>
      cases each' with
      | cons again rest =>
          obtain ⟨here, others⟩ := List.forall_mem_cons.mp joins
          obtain ⟨result, joint, alike⟩ := here _ _ substituted again
          obtain ⟨results, joints, alikes⟩ := ih others rest
          exact ⟨result :: results, .cons joint joints, .cons alike alikes⟩

theorem exists_entries_alike_of_joins {entries : List (Term × Term)} {onces twices : List Term}
    (joins : ∀ value ∈ entries.map (·.2), Joins first second both value)
    (each : List.Forall₂ (fun value once => substitute first value = .ok once)
      (entries.map (·.2)) onces)
    (each' : List.Forall₂ (fun once twice => substitute second once = .ok twice) onces twices) :
    ∃ results : List (Term × Term), results.map (·.1) = entries.map (·.1) ∧
      List.Forall₂ (fun value result => substitute both value = .ok result)
        (entries.map (·.2)) (results.map (·.2)) ∧
      List.Forall₂ Alike (results.map (·.2)) twices := by
  obtain ⟨values, joints, alikes⟩ := exists_alike_of_joins joins each each'
  have length : (entries.map (·.1)).length = values.length := by
    rw [← joints.length_eq, List.length_map, List.length_map]
  have valuesAgain : ((entries.map (·.1)).zip values).map (·.2) = values :=
    List.map_snd_zip (Nat.le_of_eq length.symm)
  refine ⟨(entries.map (·.1)).zip values, List.map_fst_zip (Nat.le_of_eq length), ?_⟩
  rw [valuesAgain]
  exact ⟨joints, alikes⟩

theorem exists_setOf_alike_of_joins {elements onces twices : List Term}
    (joins : ∀ element ∈ elements, Joins first second both element)
    (each : List.Forall₂ (fun element once => substitute first element = .ok once)
      elements onces)
    (each' : List.Forall₂ (fun once twice => substitute second once = .ok twice)
      (SortedList.ofList Term.compare onces) twices) :
    ∃ results,
      List.Forall₂ (fun element result => substitute both element = .ok result)
        elements results ∧
      (setOf results).Alike (setOf twices) := by
  have found : ∀ element ∈ elements, ∃ result, substitute both element = .ok result ∧
      ∃ twice ∈ twices, result.Alike twice := by
    intro element member
    obtain ⟨once, held, substituted⟩ := SortedList.exists_item_of_forall₂ each.flip member
    obtain ⟨kept, inSet, same⟩ : ∃ kept ∈ SortedList.ofList Term.compare onces,
        once.compare kept = .eq := SortedList.covered_ofList onces once held
    obtain ⟨twice, last, again⟩ := SortedList.exists_item_of_forall₂ each'.flip inSet
    obtain ⟨twice', again', alike⟩ := substitute_alike (Bindings.equal_refl second) kept once
      twice (Alike.of_compare_eq same).symm again
    obtain ⟨result, joint, alike'⟩ := joins element member once twice' substituted again'
    exact ⟨result, joint, twice, last, equal_trans alike' alike.symm⟩
  obtain ⟨results, joints⟩ := SortedList.exists_forall₂
    fun element member => (found element member).imp fun _ both => both.1
  have covered : SortedList.Covered Term.compare results twices := by
    intro result held
    obtain ⟨element, member, joint⟩ := SortedList.exists_item_of_forall₂ joints held
    obtain ⟨result', joint', twice, last, alike⟩ := found element member
    cases joint.symm.trans joint'
    exact ⟨twice, last, alike.compare_eq⟩
  have covered' : SortedList.Covered Term.compare twices results := by
    intro twice last
    obtain ⟨once, inSet, again⟩ := SortedList.exists_item_of_forall₂ each' last
    obtain ⟨element, member, substituted⟩ :=
      SortedList.exists_item_of_forall₂ each (SortedList.mem_of_mem_ofList inSet)
    obtain ⟨result, joint, alike⟩ := joins element member once twice substituted again
    obtain ⟨result', held, joint'⟩ := SortedList.exists_item_of_forall₂ joints.flip member
    cases joint.symm.trans joint'
    exact ⟨result, held, alike.symm.compare_eq⟩
  refine ⟨results, joints, alike_set_iff.mpr ⟨_, rfl, ?_⟩⟩
  exact (SortedList.ofList_forall₂ covered covered').imp fun _ _ => .of_compare_eq

theorem Composes.joins (composes : Composes first second both) (term : Term) :
    Joins first second both term := by
  induction term using childrenInduction with
  | step term ih =>
      intro once twice substituted again
      cases term with
      | symbol symbol => exact ⟨twice, composes.substitute_symbol substituted again, .refl _⟩
      | list items =>
          obtain ⟨onces, each, rfl⟩ := substitute_list_ok_iff.mp substituted
          obtain ⟨twices, each', rfl⟩ := substitute_list_ok_iff.mp again
          obtain ⟨results, joints, alikes⟩ := exists_alike_of_joins ih each each'
          exact ⟨.list results, substitute_list_ok_iff.mpr ⟨results, joints, rfl⟩,
            alike_list_iff.mpr ⟨twices, rfl, alikes⟩⟩
      | set elements =>
          obtain ⟨onces, each, rfl⟩ := substitute_set_ok_iff.mp substituted
          obtain ⟨twices, each', rfl⟩ := substitute_set_ok_iff.mp again
          obtain ⟨results, joints, alike⟩ := exists_setOf_alike_of_joins ih each each'
          exact ⟨.setOf results, substitute_set_ok_iff.mpr ⟨results, joints, rfl⟩, alike⟩
      | map entries =>
          obtain ⟨onces, ⟨keys, each⟩, rfl⟩ := substitute_map_ok_iff.mp substituted
          obtain ⟨twices, ⟨keys', each'⟩, rfl⟩ := substitute_map_ok_iff.mp again
          have inside : ∀ value ∈ entries.map (·.2), Joins first second both value :=
            fun value (member : value ∈ (Term.map entries).places) =>
              ih value (mem_children_of_mem_places member)
          obtain ⟨results, sameKeys, joints, alikes⟩ :=
            exists_entries_alike_of_joins inside each each'
          refine ⟨.map results, substitute_map_ok_iff.mpr ⟨results, ⟨sameKeys, joints⟩, rfl⟩,
            alike_map_iff.mpr ⟨twices, rfl, alikeEntries_iff.mpr ⟨?_, alikes⟩⟩⟩
          rw [sameKeys, keys', keys]
          exact List.forall₂_same.mpr fun key _ => .refl key
      | application head args =>
          obtain ⟨head', onces, heads, each, rfl⟩ := substitute_call_ok_iff.mp substituted
          obtain ⟨head'', twices, heads', each', rfl⟩ := substitute_call_ok_iff.mp again
          obtain ⟨results, joints, alikes⟩ := exists_alike_of_joins ih each each'
          have jointHeads := composes.substitute_symbol heads heads'
          exact ⟨.application head'' results,
            substitute_call_ok_iff.mpr ⟨head'', results, jointHeads, joints, rfl⟩,
            alike_application_iff.mpr ⟨twices, rfl, alikes⟩⟩
      | _ =>
          cases substituted
          cases again
          exact ⟨_, rfl, .refl _⟩

/-- Two substitutions in a row, where the second succeeds on every value of the first, are
one substitution up to the equality of terms. -/
theorem substitute_substitute {first second : Bindings} {term once twice : Term}
    (substituted : substitute first term = .ok once)
    (again : substitute second once = .ok twice)
    (succeeds : ∀ symbol value, first.find? symbol = some value →
      ∃ result, substitute second value = .ok result) :
    (∃ both, Composes first second both) ∧
      ∀ both, Composes first second both →
        ∃ result, substitute both term = .ok result ∧ result.equal twice = true :=
  ⟨exists_composes succeeds, fun _ composes => composes.joins term once twice substituted again⟩

/-! ## Elements that merge on the way -/

def outerValues : Bindings :=
  ((Bindings.empty.insert ⟨none, "f"⟩ (.symbol ⟨none, "g"⟩)).insert
    ⟨none, "x"⟩ (.symbol ⟨none, "u"⟩)).insert ⟨none, "y"⟩ tenths

def innerValues : Bindings :=
  (Bindings.empty.insert ⟨none, "g"⟩ (.symbol ⟨none, "h"⟩)).insert ⟨none, "u"⟩ hundredths

def jointValues : Bindings :=
  ((innerValues.insert ⟨none, "f"⟩ (.symbol ⟨none, "h"⟩)).insert
    ⟨none, "x"⟩ hundredths).insert ⟨none, "y"⟩ tenths

theorem composes_jointValues : Composes outerValues innerValues jointValues where
  replaced {symbol value} found := by
    simp only [outerValues, Bindings.find?_insert, Bindings.find?_empty] at found
    split at found
    · cases found
      exact ⟨tenths, rfl, by simp [jointValues, Bindings.find?_insert, *]⟩
    · split at found
      · cases found
        exact ⟨hundredths, rfl, by simp [jointValues, Bindings.find?_insert, *]⟩
      · split at found
        · cases found
          exact ⟨.symbol ⟨none, "h"⟩, rfl, by simp [jointValues, Bindings.find?_insert, *]⟩
        · contradiction
  kept {symbol} lacks := by
    simp only [outerValues, Bindings.find?_insert, Bindings.find?_empty] at lacks
    split at lacks
    · contradiction
    · split at lacks
      · contradiction
      · split at lacks
        · contradiction
        · simp [jointValues, Bindings.find?_insert, *]

def mergingCall : Term :=
  .application ⟨none, "f"⟩ [.set [.symbol ⟨none, "x"⟩, .symbol ⟨none, "y"⟩]]

theorem substitute_substitute_mergingCall :
    substitute outerValues mergingCall =
        .ok (.application ⟨none, "g"⟩ [.set [tenths, .symbol ⟨none, "u"⟩]]) ∧
      substitute innerValues (.application ⟨none, "g"⟩ [.set [tenths, .symbol ⟨none, "u"⟩]]) =
        .ok (.application ⟨none, "h"⟩ [.set [hundredths]]) ∧
      substitute jointValues mergingCall =
        .ok (.application ⟨none, "h"⟩ [.set [tenths]]) ∧
      (Term.application ⟨none, "h"⟩ [.set [tenths]]).equal
        (.application ⟨none, "h"⟩ [.set [hundredths]]) = true := by
  have substituted : substitute outerValues mergingCall =
      .ok (.application ⟨none, "g"⟩ [.set [tenths, .symbol ⟨none, "u"⟩]]) := rfl
  have again : substitute innerValues
      (.application ⟨none, "g"⟩ [.set [tenths, .symbol ⟨none, "u"⟩]]) =
        .ok (.application ⟨none, "h"⟩ [.set [hundredths]]) := rfl
  have joint : substitute jointValues mergingCall =
      .ok (.application ⟨none, "h"⟩ [.set [tenths]]) := rfl
  obtain ⟨result, joint', same⟩ := (substitute_substitute substituted again
    fun symbol value found => (composes_jointValues.replaced found).imp fun _ both => both.1).2
      jointValues composes_jointValues
  cases joint.symm.trans joint'
  exact ⟨substituted, again, joint, same⟩

end TracedEval.Expansion
