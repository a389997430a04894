import Mathlib.Algebra.Order.Field.Rat
import Mathlib.Algebra.Ring.Int.Defs
import Mathlib.Data.Int.Cast.Lemmas
import Mathlib.Tactic.NormNum.Basic
import TracedEval.Proofs.Spelling.EqualTerms

/-!
# Terms are totally ordered

The comparison of terms is a total order of terms taken up to equality, where equality
goes part by part and asks of decimals that they stand for the same number.  So what a
set is does not depend on the order in which its elements are given, nor on how often:
sorting brings equal elements into the same places.
-/

namespace TracedEval

/-! ## The numbers that decimals stand for -/

namespace Decimal

def value (decimal : Decimal) : ℚ :=
  decimal.coefficient * 10 ^ (-decimal.scale.toInt)

theorem value_mul_power {scale : Int} {decimal : Decimal}
    (fits : decimal.scale.toInt ≤ scale) :
    decimal.value * 10 ^ scale = decimal.scaledTo scale := by
  have exponent : -decimal.scale.toInt + scale =
      ((scale - decimal.scale.toInt).toNat : Int) := by omega
  rw [value, scaledTo, mul_assoc, ← zpow_add₀ (by norm_num), exponent, zpow_natCast]
  simp [Numeral.powerOfTen]

theorem compare_eq_iff_value {first second : Decimal} :
    first.compare second = .eq ↔ first.value = second.value := by
  have fits := Int.le_max_left first.scale.toInt second.scale.toInt
  have fits' := Int.le_max_right first.scale.toInt second.scale.toInt
  have power : (10 : ℚ) ^ max first.scale.toInt second.scale.toInt ≠ 0 :=
    zpow_ne_zero _ (by norm_num)
  rw [compare_eq_scaledTo fits fits', Int.compare_eq_eq, ← mul_left_inj' power,
    value_mul_power fits, value_mul_power fits']
  exact Int.cast_inj.symm

end Decimal

/-! ## Equality part by part -/

namespace Term

/-- Terms made of the same parts in the same places, where decimals count by their
values. -/
inductive Same : Term → Term → Prop
  | nil : Same nil nil
  | boolean {value} : Same (boolean value) (boolean value)
  | integer {value} : Same (integer value) (integer value)
  | decimal {first second : Decimal} (values : first.value = second.value) :
      Same (decimal first) (decimal second)
  | character {value} : Same (character value) (character value)
  | string {value} : Same (string value) (string value)
  | keyword {value} : Same (keyword value) (keyword value)
  | symbol {value} : Same (symbol value) (symbol value)
  | error {value} : Same (error value) (error value)
  | list {items others} (each : List.Forall₂ Same items others) :
      Same (list items) (list others)
  | set {elements others} (each : List.Forall₂ Same elements others) :
      Same (set elements) (set others)
  | map {entries others : List (Term × Term)}
      (keys : List.Forall₂ Same (entries.map (·.1)) (others.map (·.1)))
      (values : List.Forall₂ Same (entries.map (·.2)) (others.map (·.2))) :
      Same (map entries) (map others)
  | application {head args others} (each : List.Forall₂ Same args others) :
      Same (application head args) (application head others)

section Kinds

variable {other : Term}

theorem same_list_iff {items : List Term} :
    (list items).Same other ↔
      ∃ others, other = list others ∧ List.Forall₂ Same items others := by
  constructor
  · rintro ⟨⟩
    exact ⟨_, rfl, ‹_›⟩
  · rintro ⟨others, rfl, each⟩
    exact .list each

theorem same_set_iff {elements : List Term} :
    (set elements).Same other ↔
      ∃ others, other = set others ∧ List.Forall₂ Same elements others := by
  constructor
  · rintro ⟨⟩
    exact ⟨_, rfl, ‹_›⟩
  · rintro ⟨others, rfl, each⟩
    exact .set each

theorem same_map_iff {entries : List (Term × Term)} :
    (map entries).Same other ↔
      ∃ others, other = map others ∧
        List.Forall₂ Same (entries.map (·.1)) (others.map (·.1)) ∧
        List.Forall₂ Same (entries.map (·.2)) (others.map (·.2)) := by
  constructor
  · rintro ⟨⟩
    exact ⟨_, rfl, ‹_›, ‹_›⟩
  · rintro ⟨others, rfl, keys, values⟩
    exact .map keys values

theorem same_application_iff {head : Symbol} {args : List Term} :
    (application head args).Same other ↔
      ∃ others, other = application head others ∧ List.Forall₂ Same args others := by
  constructor
  · rintro ⟨⟩
    exact ⟨_, rfl, ‹_›⟩
  · rintro ⟨others, rfl, each⟩
    exact .application each

theorem alike_decimal_iff {value : Decimal} :
    (decimal value).Alike other ↔
      ∃ value', other = decimal value' ∧ value.value = value'.value := by
  constructor
  · intro alike
    have kinds := rank_eq_of_compare_eq alike.compare_eq
    cases other <;> cases kinds
    exact ⟨_, rfl, Decimal.compare_eq_iff_value.mp alike.compare_eq⟩
  · rintro ⟨value', rfl, values⟩
    exact .of_compare_eq (Decimal.compare_eq_iff_value.mpr values)

end Kinds

theorem alikeEntries_iff {entries others : List (Term × Term)} :
    List.Forall₂ AlikeEntries entries others ↔
      List.Forall₂ Alike (entries.map (·.1)) (others.map (·.1)) ∧
        List.Forall₂ Alike (entries.map (·.2)) (others.map (·.2)) := by
  induction entries generalizing others with
  | nil => cases others <;> simp
  | cons entry entries ih =>
      cases others with
      | nil => simp
      | cons other others =>
          simp only [List.map_cons, List.forall₂_cons, ih, AlikeEntries]
          exact and_and_and_comm

theorem alike_iff_same {first second : Term} : first.Alike second ↔ first.Same second := by
  induction first using childrenInduction generalizing second with
  | step first ih =>
      have each {items others : List Term} (inside : ∀ item ∈ items, item ∈ first.children) :
          List.Forall₂ Alike items others ↔ List.Forall₂ Same items others :=
        SortedList.forall₂_congr_of_mem fun item member _ => ih item (inside item member)
      cases first with
      | decimal value =>
          rw [alike_decimal_iff]
          constructor
          · rintro ⟨value', rfl, values⟩
            exact .decimal values
          · rintro ⟨⟩
            exact ⟨_, rfl, ‹_›⟩
      | list items =>
          have inside : ∀ item ∈ items, item ∈ (list items).children := fun _ => id
          rw [alike_list_iff, same_list_iff]
          simp only [each inside]
      | set elements =>
          have inside : ∀ element ∈ elements, element ∈ (set elements).children :=
            fun _ => id
          rw [alike_set_iff, same_set_iff]
          simp only [each inside]
      | map entries =>
          have keys : ∀ key ∈ entries.map (·.1), key ∈ (map entries).children := by
            intro key member
            obtain ⟨entry, held, rfl⟩ := List.mem_map.mp member
            exact mem_children_map.mpr ⟨entry, held, .inl rfl⟩
          have values : ∀ value ∈ entries.map (·.2), value ∈ (map entries).children := by
            intro value member
            obtain ⟨entry, held, rfl⟩ := List.mem_map.mp member
            exact mem_children_map.mpr ⟨entry, held, .inr rfl⟩
          rw [alike_map_iff, same_map_iff]
          simp only [alikeEntries_iff, each keys, each values]
      | application head args =>
          have inside : ∀ arg ∈ args, arg ∈ (application head args).children := fun _ => id
          rw [alike_application_iff, same_application_iff]
          simp only [each inside]
      | _ =>
          constructor
          · intro alike
            rw [← alike.eq_of_plain rfl]
            constructor
          · rintro ⟨⟩
            exact .refl _

theorem compare_eq_iff_same {first second : Term} :
    first.compare second = .eq ↔ first.Same second :=
  equal_iff.symm.trans alike_iff_same

/-! ## The order -/

/-- Each of the items is equal to one of the others. -/
def Among (items others : List Term) : Prop :=
  ∀ item ∈ items, ∃ other ∈ others, item.Same other

theorem among_iff_covered {items others : List Term} :
    Among items others ↔ SortedList.Covered compare items others := by
  simp only [Among, SortedList.Covered, compare_eq_iff_same]

theorem setOf_same {items others : List Term} (among : Among items others)
    (among' : Among others items) : (setOf items).Same (setOf others) := by
  rw [← compare_eq_iff_same]
  rw [among_iff_covered] at among among'
  exact compareAll_eq_iff.mpr (SortedList.ofList_forall₂ among among')

/-- The comparison is a total order, the order of terms taken up to equality: it decides
between any two terms, turns round with them, finds equal ones equal and no others, and
is transitive.  So lists with the same elements make equal sets. -/
theorem compare_totalOrder :
    (∀ first second : Term,
      (first.compare second).isLE = true ∨ (second.compare first).isLE = true) ∧
    (∀ first second : Term, first.compare second = (second.compare first).swap) ∧
    (∀ first second : Term, first.compare second = .eq ↔ first.Same second) ∧
    (∀ first second third : Term, (first.compare second).isLE = true →
      (second.compare third).isLE = true → (first.compare third).isLE = true) ∧
    ∀ items others : List Term,
      (∀ item ∈ items, ∃ other ∈ others, item.Same other) →
      (∀ other ∈ others, ∃ item ∈ items, other.Same item) →
      (setOf items).Same (setOf others) := by
  refine ⟨fun first second => ?_, fun first second => compare_swap second first,
    fun _ _ => compare_eq_iff_same, fun _ _ _ => Std.TransCmp.isLE_trans,
    fun _ _ => setOf_same⟩
  rw [compare_swap first second]
  cases first.compare second <;> simp

def tenths : Term :=
  .decimal ⟨10, 1⟩

def hundredths : Term :=
  .decimal ⟨100, 2⟩

theorem compare_totalOrder_respelt :
    Among [tenths, .set [tenths], hundredths] [.set [hundredths], tenths] ∧
      Among [.set [hundredths], tenths] [tenths, .set [tenths], hundredths] ∧
      (setOf [tenths, .set [tenths], hundredths]).Same
        (setOf [.set [hundredths], tenths]) ∧
      (hundredths.compare tenths).isLE = true ∧
      (tenths.compare (.set [hundredths])).isLE = true ∧
      (hundredths.compare (.set [hundredths])).isLE = true := by
  obtain ⟨-, -, same_iff, transitive, sets⟩ := compare_totalOrder
  have number : hundredths.Same tenths := (same_iff _ _).mp (by decide)
  have refl : tenths.Same tenths := (same_iff _ _).mp (by decide)
  have inner : (Term.set [tenths]).Same (.set [hundredths]) := (same_iff _ _).mp (by decide)
  have inner' : (Term.set [hundredths]).Same (.set [tenths]) := (same_iff _ _).mp (by decide)
  have among : Among [tenths, .set [tenths], hundredths] [.set [hundredths], tenths] := by
    simp only [Among, List.forall_mem_cons]
    exact ⟨⟨_, .tail _ (.head _), refl⟩, ⟨_, .head _, inner⟩, ⟨_, .tail _ (.head _), number⟩,
      by simp⟩
  have among' : Among [.set [hundredths], tenths] [tenths, .set [tenths], hundredths] := by
    simp only [Among, List.forall_mem_cons]
    exact ⟨⟨_, .tail _ (.head _), inner'⟩, ⟨_, .head _, refl⟩, by simp⟩
  have first : (hundredths.compare tenths).isLE = true := by decide
  have second : (tenths.compare (.set [hundredths])).isLE = true := by decide
  exact ⟨among, among', sets _ _ among among', first, second, transitive _ _ _ first second⟩

end Term

end TracedEval
