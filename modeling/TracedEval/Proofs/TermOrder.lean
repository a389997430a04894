import Mathlib.Data.List.Forall2
import TracedEval.Term

/-!
# The order of terms

`Term.compare` is a lawful comparison: it turns round when its arguments change
places, and it is transitive, also where decimals of different scales are equal.
Terms without decimals are equal only to themselves.
-/

namespace TracedEval

attribute [ext] Keyword ErrorValue

/-! ## Three comparisons at a time -/

/-- How the comparisons of a first with a second, of the second with a third, and
of the first with the third thing fit together. -/
structure Chained (first second whole : Ordering) : Prop where
  of_eq : first = .eq → whole = second
  of_lt : first = .lt → second.isLE → whole = .lt

namespace Chained

theorem of_transCmp {α : Type} (cmp : α → α → Ordering) [Std.TransCmp cmp]
    (a b c : α) : Chained (cmp a b) (cmp b c) (cmp a c) where
  of_eq same := Std.TransCmp.congr_left same
  of_lt before after := Std.TransCmp.lt_of_lt_of_isLE before after

theorem andThen {first second whole first' second' whole' : Ordering}
    (major : Chained first second whole) (minor : Chained first' second' whole') :
    Chained (first.then first') (second.then second') (whole.then whole') where
  of_eq same := by
    obtain ⟨same, same'⟩ := Ordering.then_eq_eq.mp same
    rw [major.of_eq same, minor.of_eq same']
  of_lt before after := by
    have after' : second.isLE := by
      cases second <;> simp_all
    rcases Ordering.then_eq_lt.mp before with before | ⟨same, before'⟩
    · simp [major.of_lt before after']
    · rw [major.of_eq same]
      cases second with
      | lt => rfl
      | eq => exact minor.of_lt before' after
      | gt => contradiction

end Chained

/-! ## Decimals -/

namespace Decimal

def scaledTo (scale : Int) (decimal : Decimal) : Int :=
  decimal.coefficient * Numeral.powerOfTen (scale - decimal.scale.toInt).toNat

private theorem powerOfTen_add (first second : Nat) :
    Numeral.powerOfTen (first + second) =
      Numeral.powerOfTen first * Numeral.powerOfTen second :=
  Nat.pow_add 10 first second

private theorem powerOfTen_pos (power : Nat) : 0 < Numeral.powerOfTen power :=
  Nat.pow_pos (by decide)

private theorem compare_mul_right (first second : Int) {factor : Int}
    (positive : 0 < factor) :
    Ord.compare (first * factor) (second * factor) = Ord.compare first second := by
  rcases Int.lt_trichotomy first second with less | same | greater
  · rw [Int.compare_eq_lt.mpr less,
      Int.compare_eq_lt.mpr (Int.mul_lt_mul_of_pos_right less positive)]
  · rw [same]
    simp
  · rw [Int.compare_eq_gt.mpr greater,
      Int.compare_eq_gt.mpr (Int.mul_lt_mul_of_pos_right greater positive)]

private theorem compareShifted_scaledTo {scale : Int} {first second : Decimal}
    (scales : first.scale.toInt ≤ second.scale.toInt)
    (fits : second.scale.toInt ≤ scale) :
    compareShifted first.coefficient
        (second.scale.toInt - first.scale.toInt).toNat second.coefficient =
      Ord.compare (first.scaledTo scale) (second.scaledTo scale) := by
  have split : (scale - first.scale.toInt).toNat =
      (second.scale.toInt - first.scale.toInt).toNat +
        (scale - second.scale.toInt).toNat := by omega
  have positive := powerOfTen_pos (scale - second.scale.toInt).toNat
  rw [compareShifted_eq, scaledTo, scaledTo, split, powerOfTen_add,
    Int.natCast_mul, ← Int.mul_assoc, compare_mul_right _ _ (by omega)]

theorem compare_eq_scaledTo {scale : Int} {first second : Decimal}
    (fits : first.scale.toInt ≤ scale) (fits' : second.scale.toInt ≤ scale) :
    first.compare second =
      Ord.compare (first.scaledTo scale) (second.scaledTo scale) := by
  unfold compare
  dsimp only
  split
  · rw [compareShifted_scaledTo (by omega) fits']
  · rw [Int.neg_sub, compareShifted_scaledTo (by omega) fits]
    exact Std.OrientedOrd.eq_swap.symm

private def commonScale (first second third : Decimal) : Int :=
  max first.scale.toInt (max second.scale.toInt third.scale.toInt)

instance : Std.TransCmp Decimal.compare where
  eq_swap {first second} := by
    have fits : first.scale.toInt ≤ commonScale first second second := by
      unfold commonScale; omega
    have fits' : second.scale.toInt ≤ commonScale first second second := by
      unfold commonScale; omega
    rw [compare_eq_scaledTo fits fits', compare_eq_scaledTo fits' fits]
    exact Std.OrientedOrd.eq_swap
  isLE_trans {first second third} := by
    have fits : first.scale.toInt ≤ commonScale first second third := by
      unfold commonScale; omega
    have fits' : second.scale.toInt ≤ commonScale first second third := by
      unfold commonScale; omega
    have fits'' : third.scale.toInt ≤ commonScale first second third := by
      unfold commonScale; omega
    rw [compare_eq_scaledTo fits fits', compare_eq_scaledTo fits' fits'',
      compare_eq_scaledTo fits fits'']
    exact Std.TransOrd.isLE_trans

end Decimal

namespace Term

/-! ## Terms of different kinds -/

theorem compare_of_rank_ne {first second : Term}
    (different : first.rank ≠ second.rank) :
    first.compare second = Ord.compare first.rank second.rank := by
  cases first <;> cases second <;> first | rfl | exact absurd rfl different

theorem rank_eq_of_compare_eq {first second : Term}
    (same : first.compare second = .eq) : first.rank = second.rank := by
  refine Decidable.byContradiction fun different => ?_
  rw [compare_of_rank_ne different] at same
  exact different (Nat.compare_eq_eq.mp same)

theorem rank_le_of_isLE {first second : Term}
    (before : (first.compare second).isLE) : first.rank ≤ second.rank := by
  by_cases same : first.rank = second.rank
  · exact Nat.le_of_eq same
  · rw [compare_of_rank_ne same] at before
    exact Nat.isLE_compare.mp before

private theorem chained_of_rank_ne {first second third : Term}
    (mixed : ¬(first.rank = second.rank ∧ second.rank = third.rank)) :
    Chained (first.compare second) (second.compare third)
      (first.compare third) where
  of_eq same := by
    have kinds := rank_eq_of_compare_eq same
    have different : second.rank ≠ third.rank := fun equal => mixed ⟨kinds, equal⟩
    rw [compare_of_rank_ne different, compare_of_rank_ne (kinds ▸ different), kinds]
  of_lt before after := by
    have kinds := rank_le_of_isLE (Ordering.isLE_of_eq_lt before)
    have kinds' := rank_le_of_isLE after
    have below : first.rank < third.rank := by omega
    rw [compare_of_rank_ne (by omega)]
    exact Nat.compare_eq_lt.mpr below

/-! ## The laws -/

mutual

theorem compare_swap : ∀ first second : Term,
    second.compare first = (first.compare second).swap
  | first, second => by
      by_cases kinds : first.rank = second.rank
      case neg =>
        rw [compare_of_rank_ne kinds, compare_of_rank_ne (Ne.symm kinds)]
        exact Std.OrientedOrd.eq_swap
      case pos =>
        cases first <;> cases second <;> cases kinds
        case nil => rfl
        case boolean => exact Std.OrientedOrd.eq_swap
        case integer => exact Std.OrientedOrd.eq_swap
        case decimal => exact @Std.OrientedCmp.eq_swap _ Decimal.compare _ _ _
        case character => exact Std.OrientedOrd.eq_swap
        case string => exact Std.OrientedOrd.eq_swap
        case keyword => exact @Std.OrientedCmp.eq_swap _ Symbol.compare _ _ _
        case symbol => exact @Std.OrientedCmp.eq_swap _ Symbol.compare _ _ _
        case error =>
          simp only [compare, ErrorValue.compare, Ordering.swap_then]
          rw [← Std.OrientedOrd.eq_swap, ← Std.OrientedOrd.eq_swap]
        case list firsts seconds => exact compareAll_swap firsts seconds
        case set firsts seconds => exact compareAll_swap firsts seconds
        case map firsts seconds => exact compareEntries_swap firsts seconds
        case application head firsts other seconds =>
          simp only [compare, Ordering.swap_then, ← compareAll_swap firsts seconds]
          rw [← @Std.OrientedCmp.eq_swap _ Symbol.compare]

theorem compareAll_swap : ∀ firsts seconds : List Term,
    compareAll seconds firsts = (compareAll firsts seconds).swap
  | [], [] => rfl
  | [], _ :: _ => rfl
  | _ :: _, [] => rfl
  | first :: firsts, second :: seconds => by
      simp only [compareAll, Ordering.swap_then, ← compare_swap first second,
        ← compareAll_swap firsts seconds]

theorem compareEntries_swap : ∀ firsts seconds : List (Term × Term),
    compareEntries seconds firsts = (compareEntries firsts seconds).swap
  | [], [] => rfl
  | [], _ :: _ => rfl
  | _ :: _, [] => rfl
  | (key, value) :: firsts, (key', value') :: seconds => by
      simp only [compareEntries, Ordering.swap_then, ← compare_swap key key',
        ← compare_swap value value', ← compareEntries_swap firsts seconds]

end

mutual

theorem compare_chained : ∀ first second third : Term,
    Chained (first.compare second) (second.compare third) (first.compare third)
  | first, second, third => by
      by_cases kinds : first.rank = second.rank ∧ second.rank = third.rank
      case neg => exact chained_of_rank_ne kinds
      case pos =>
        obtain ⟨kinds, kinds'⟩ := kinds
        cases first <;> cases second <;> cases kinds
        all_goals cases third <;> cases kinds'
        case nil => exact .of_transCmp (Ord.compare : Nat → Nat → _) 0 0 0
        case boolean => exact .of_transCmp Ord.compare _ _ _
        case integer => exact .of_transCmp Ord.compare _ _ _
        case decimal => exact .of_transCmp Decimal.compare _ _ _
        case character => exact .of_transCmp Ord.compare _ _ _
        case string => exact .of_transCmp Ord.compare _ _ _
        case keyword => exact .of_transCmp Symbol.compare _ _ _
        case symbol => exact .of_transCmp Symbol.compare _ _ _
        case error =>
          exact .andThen (.of_transCmp Ord.compare _ _ _)
            (.of_transCmp Ord.compare _ _ _)
        case list firsts seconds thirds =>
          exact compareAll_chained firsts seconds thirds
        case set firsts seconds thirds =>
          exact compareAll_chained firsts seconds thirds
        case map firsts seconds thirds =>
          exact compareEntries_chained firsts seconds thirds
        case application head firsts head' seconds head'' thirds =>
          exact .andThen (.of_transCmp Symbol.compare head head' head'')
            (compareAll_chained firsts seconds thirds)

theorem compareAll_chained : ∀ firsts seconds thirds : List Term,
    Chained (compareAll firsts seconds) (compareAll seconds thirds)
      (compareAll firsts thirds)
  | [], [], thirds => ⟨fun _ => rfl, fun before => by contradiction⟩
  | [], _ :: _, [] => ⟨fun same => by contradiction, fun _ after => by contradiction⟩
  | [], _ :: _, _ :: _ => ⟨fun same => by contradiction, fun _ _ => rfl⟩
  | _ :: _, [], _ =>
      ⟨fun same => by contradiction, fun before => by contradiction⟩
  | _ :: _, _ :: _, [] => ⟨fun _ => rfl, fun _ after => by contradiction⟩
  | first :: firsts, second :: seconds, third :: thirds =>
      .andThen (compare_chained first second third)
        (compareAll_chained firsts seconds thirds)

theorem compareEntries_chained : ∀ firsts seconds thirds : List (Term × Term),
    Chained (compareEntries firsts seconds) (compareEntries seconds thirds)
      (compareEntries firsts thirds)
  | [], [], thirds => ⟨fun _ => rfl, fun before => by contradiction⟩
  | [], _ :: _, [] => ⟨fun same => by contradiction, fun _ after => by contradiction⟩
  | [], _ :: _, _ :: _ => ⟨fun same => by contradiction, fun _ _ => rfl⟩
  | _ :: _, [], _ =>
      ⟨fun same => by contradiction, fun before => by contradiction⟩
  | _ :: _, _ :: _, [] => ⟨fun _ => rfl, fun _ after => by contradiction⟩
  | (key, value) :: firsts, (key', value') :: seconds, (key'', value'') :: thirds =>
      .andThen
        (.andThen (compare_chained key key' key'')
          (compare_chained value value' value''))
        (compareEntries_chained firsts seconds thirds)

end

instance : Std.TransCmp Term.compare where
  eq_swap {first second} := compare_swap second first
  isLE_trans {first second third} before after := by
    have chained := compare_chained first second third
    cases same : first.compare second with
    | lt => exact Ordering.isLE_of_eq_lt (chained.of_lt same after)
    | eq => exact chained.of_eq same ▸ after
    | gt =>
        rw [same] at before
        contradiction

/-! ## Equality -/

theorem equal_iff {first second : Term} :
    first.equal second = true ↔ first.compare second = .eq := by
  rw [equal, beq_iff_eq]

@[simp] theorem equal_refl (term : Term) : term.equal term = true :=
  equal_iff.mpr Std.ReflCmp.compare_self

theorem equal_symm {first second : Term} (same : first.equal second = true) :
    second.equal first = true :=
  equal_iff.mpr (Std.OrientedCmp.eq_symm (equal_iff.mp same))

theorem equal_trans {first second third : Term}
    (same : first.equal second = true) (same' : second.equal third = true) :
    first.equal third = true :=
  equal_iff.mpr (Std.TransCmp.eq_trans (equal_iff.mp same) (equal_iff.mp same'))

theorem equal_congr {first second : Term} (same : first.equal second = true)
    (term : Term) : term.equal first = term.equal second :=
  Bool.eq_iff_iff.mpr
    ⟨fun here => equal_trans here same, fun here => equal_trans here (equal_symm same)⟩

theorem compareAll_eq_iff {firsts seconds : List Term} :
    compareAll firsts seconds = .eq ↔
      List.Forall₂ (fun first second => first.compare second = .eq) firsts seconds := by
  induction firsts generalizing seconds with
  | nil => cases seconds <;> simp [compareAll]
  | cons first firsts ih =>
      cases seconds with
      | nil => simp [compareAll]
      | cons second seconds =>
          rw [compareAll, Ordering.then_eq_eq, ih, List.forall₂_cons]

theorem compareEntries_eq_iff {firsts seconds : List (Term × Term)} :
    compareEntries firsts seconds = .eq ↔
      List.Forall₂
        (fun first second =>
          first.1.compare second.1 = .eq ∧ first.2.compare second.2 = .eq)
        firsts seconds := by
  induction firsts generalizing seconds with
  | nil => cases seconds <;> simp [compareEntries]
  | cons first firsts ih =>
      cases seconds with
      | nil => simp [compareEntries]
      | cons second seconds =>
          rw [compareEntries, Ordering.then_eq_eq, Ordering.then_eq_eq, ih,
            List.forall₂_cons]

mutual

/-- Only the spelling of decimals tells equal terms apart. -/
theorem eq_of_compare_eq : ∀ first second : Term,
    first.decimals = [] → first.compare second = .eq → first = second
  | first, second, plain, same => by
      have kinds := rank_eq_of_compare_eq same
      cases first <;> cases second <;> cases kinds
      case nil => rfl
      case boolean => rw [Std.LawfulEqOrd.eq_of_compare same]
      case integer => rw [Std.LawfulEqOrd.eq_of_compare same]
      case decimal => contradiction
      case character => rw [Std.LawfulEqOrd.eq_of_compare same]
      case string => rw [Std.LawfulEqOrd.eq_of_compare same]
      case keyword keyword keyword' =>
        rw [Keyword.ext (Symbol.eq_of_compare same)]
      case symbol => rw [Symbol.eq_of_compare same]
      case error error error' =>
        obtain ⟨codes, messages⟩ := Ordering.then_eq_eq.mp same
        have codes : error.code = error'.code := Std.LawfulEqOrd.eq_of_compare codes
        have messages : error.message = error'.message :=
          Std.LawfulEqOrd.eq_of_compare messages
        rw [ErrorValue.ext codes messages]
      case list firsts seconds => rw [eq_of_compareAll_eq firsts seconds plain same]
      case set firsts seconds => rw [eq_of_compareAll_eq firsts seconds plain same]
      case map firsts seconds =>
        rw [eq_of_compareEntries_eq firsts seconds plain same]
      case application head firsts head' seconds =>
        obtain ⟨heads, args⟩ := Ordering.then_eq_eq.mp same
        rw [Symbol.eq_of_compare heads, eq_of_compareAll_eq firsts seconds plain args]

theorem eq_of_compareAll_eq : ∀ firsts seconds : List Term,
    decimalsOfAll firsts = [] → compareAll firsts seconds = .eq → firsts = seconds
  | [], [], _, _ => rfl
  | first :: firsts, second :: seconds, plain, same => by
      obtain ⟨plain, plain'⟩ := List.append_eq_nil_iff.mp plain
      obtain ⟨same, same'⟩ := Ordering.then_eq_eq.mp same
      rw [eq_of_compare_eq first second plain same,
        eq_of_compareAll_eq firsts seconds plain' same']

theorem eq_of_compareEntries_eq : ∀ firsts seconds : List (Term × Term),
    decimalsOfEntries firsts = [] → compareEntries firsts seconds = .eq →
      firsts = seconds
  | [], [], _, _ => rfl
  | (key, value) :: firsts, (key', value') :: seconds, plain, same => by
      obtain ⟨plain, rest⟩ := List.append_eq_nil_iff.mp plain
      obtain ⟨plain', plain''⟩ := List.append_eq_nil_iff.mp rest
      obtain ⟨same, same''⟩ := Ordering.then_eq_eq.mp same
      obtain ⟨same, same'⟩ := Ordering.then_eq_eq.mp same
      rw [eq_of_compare_eq key key' plain same,
        eq_of_compare_eq value value' plain' same',
        eq_of_compareEntries_eq firsts seconds plain'' same'']

end

mutual

theorem isConstant_of_compare_eq : ∀ first second : Term,
    first.compare second = .eq → first.isConstant = second.isConstant
  | first, second, same => by
      have kinds := rank_eq_of_compare_eq same
      cases first <;> cases second <;> cases kinds
      case list firsts seconds => exact allConstant_of_compareAll_eq firsts seconds same
      case set firsts seconds => exact allConstant_of_compareAll_eq firsts seconds same
      case map firsts seconds =>
        exact allEntriesConstant_of_compareEntries_eq firsts seconds same
      all_goals rfl

theorem allConstant_of_compareAll_eq : ∀ firsts seconds : List Term,
    compareAll firsts seconds = .eq → allConstant firsts = allConstant seconds
  | [], [], _ => rfl
  | first :: firsts, second :: seconds, same => by
      obtain ⟨same, same'⟩ := Ordering.then_eq_eq.mp same
      rw [allConstant, allConstant, isConstant_of_compare_eq first second same,
        allConstant_of_compareAll_eq firsts seconds same']

theorem allEntriesConstant_of_compareEntries_eq : ∀ firsts seconds : List (Term × Term),
    compareEntries firsts seconds = .eq →
      allEntriesConstant firsts = allEntriesConstant seconds
  | [], [], _ => rfl
  | (key, value) :: firsts, (key', value') :: seconds, same => by
      obtain ⟨same, same''⟩ := Ordering.then_eq_eq.mp same
      obtain ⟨same, same'⟩ := Ordering.then_eq_eq.mp same
      rw [allEntriesConstant, allEntriesConstant, isConstant_of_compare_eq key key' same,
        isConstant_of_compare_eq value value' same',
        allEntriesConstant_of_compareEntries_eq firsts seconds same'']

end

def Plain (term : Term) : Prop :=
  term.decimals = []

theorem eq_of_equal {first second : Term} (plain : first.Plain)
    (same : first.equal second = true) : first = second :=
  eq_of_compare_eq first second plain (equal_iff.mp same)

end Term

end TracedEval
