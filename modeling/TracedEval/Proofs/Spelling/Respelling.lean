import TracedEval.Proofs.NormalForms
import TracedEval.Proofs.Spelling.Writing

/-!
# Texts tell spellings apart

A decimal can always be spelt with a longer text, and a term with decimals in it as well.
So a standard function that writes a decimal does different things for equal arguments:
writing none is what it takes.
-/

namespace TracedEval

variable {ω : Type}

/-! ## A longer way to spell a decimal -/

namespace Numeral

theorem length_naturalChars_shifted {value : Nat} (positive : 0 < value) (shift : Nat) :
    (naturalChars (value * powerOfTen shift)).length = (naturalChars value).length + shift := by
  induction shift with
  | zero =>
      rw [powerOfTen, Nat.pow_eq, Nat.pow_zero, Nat.mul_one]
      rfl
  | succ shift ih =>
      have power : 0 < powerOfTen shift := Nat.pow_pos (by decide)
      have split : value * powerOfTen (shift + 1) = 10 * (value * powerOfTen shift) + 0 := by
        rw [powerOfTen, powerOfTen, Nat.pow_eq, Nat.pow_eq, Nat.pow_succ, ← Nat.mul_assoc,
          Nat.mul_comm _ 10, Nat.add_zero]
      rw [split, naturalChars, ← Nat.toDigits_append_toDigits (by decide)
        (Nat.mul_pos positive power) (by decide), List.length_append]
      exact congrArg (· + 1) ih

theorem length_naturalChars_pos (value : Nat) : 0 < (naturalChars value).length :=
  Nat.length_toDigits_pos

end Numeral

namespace Decimal

def longerScale (decimal : Decimal) : Nat :=
  decimal.scale.toInt.natAbs + 1

/-- The same number with so many zeros after the point that its text gets longer. -/
def respelt (decimal : Decimal) : Decimal :=
  if decimal.isWritable then
    ⟨decimal.coefficient *
        Numeral.powerOfTen (decimal.longerScale - decimal.scale.toInt).toNat,
      .ofInt decimal.longerScale⟩
  else decimal

variable {decimal : Decimal}

theorem natAbs_scale_lt (writable : decimal.isWritable = true) :
    decimal.scale.toInt.natAbs < longestText := by
  have digits := Numeral.length_naturalChars_pos decimal.coefficient.natAbs
  rw [isWritable, decide_eq_true_eq, magnitudeLength] at writable
  split at writable
  · omega
  · split at writable <;> omega

theorem scale_respelt (writable : decimal.isWritable = true) :
    decimal.respelt.scale.toInt = decimal.longerScale := by
  have small := natAbs_scale_lt writable
  rw [respelt, if_pos writable, Int64.toInt_ofInt_of_le]
  all_goals rw [longestText] at small; rw [longerScale]; omega

theorem compare_respelt (decimal : Decimal) : decimal.compare decimal.respelt = .eq := by
  cases writable : decimal.isWritable with
  | false =>
      rw [respelt, writable]
      exact Std.ReflCmp.compare_self
  | true =>
      have scale := scale_respelt writable
      have unit : Numeral.powerOfTen 0 = 1 := rfl
      have fits : decimal.scale.toInt ≤ decimal.longerScale := by
        rw [longerScale]
        omega
      rw [compare_eq_scaledTo fits (by omega), scaledTo, scaledTo, scale, Int.sub_self,
        Int.toNat_zero, unit, respelt, if_pos writable]
      simp

theorem magnitudeLength_of_pos (magnitude : Nat) {scale : Int} (positive : 0 < scale) :
    magnitudeLength magnitude scale =
      max ((Numeral.naturalChars magnitude).length + 1) (scale.toNat + 2) := by
  rw [magnitudeLength, if_neg (by omega)]
  split <;> omega

theorem magnitudeLength_lt (magnitude : Nat) (scale : Int) :
    magnitudeLength magnitude scale <
      magnitudeLength
        (magnitude * Numeral.powerOfTen ((scale.natAbs + 1 : Nat) - scale).toNat)
        (scale.natAbs + 1 : Nat) := by
  rw [magnitudeLength_of_pos _ (by omega : (0 : Int) < (scale.natAbs + 1 : Nat))]
  rcases Nat.eq_zero_or_pos magnitude with rfl | positive
  · have zero : (Numeral.naturalChars 0).length = 1 := rfl
    rw [Nat.zero_mul, magnitudeLength, zero]
    split
    · omega
    · split <;> omega
  · rw [Numeral.length_naturalChars_shifted positive, magnitudeLength]
    split
    · omega
    · split <;> omega

theorem length_chars (decimal : Decimal) :
    decimal.chars.length = (if decimal.coefficient < 0 then 1 else 0) +
      magnitudeLength decimal.coefficient.natAbs decimal.scale.toInt := by
  rw [chars, magnitudeLength_eq]
  split
  · rw [List.length_cons, Nat.add_comm]
  · rw [Nat.zero_add]

theorem length_chars_respelt (decimal : Decimal) :
    decimal.chars.length + (if decimal.isWritable then 1 else 0) ≤
      decimal.respelt.chars.length := by
  cases writable : decimal.isWritable with
  | false => simp [respelt, writable]
  | true =>
      have power : 0 < Numeral.powerOfTen (decimal.longerScale - decimal.scale.toInt).toNat :=
        Nat.pow_pos (by decide)
      have longer := magnitudeLength_lt decimal.coefficient.natAbs decimal.scale.toInt
      rw [length_chars, length_chars, scale_respelt writable, respelt, if_pos writable,
        Int.natAbs_mul, Int.natAbs_natCast]
      have sign : decimal.coefficient *
          Numeral.powerOfTen (decimal.longerScale - decimal.scale.toInt).toNat < 0 ↔
            decimal.coefficient < 0 := by
        rw [← Int.not_le, Int.mul_nonneg_iff_of_pos_right (by omega), Int.not_le]
      simp only [sign, if_true]
      rw [longerScale]
      omega

end Decimal

namespace Term

/-! ## A longer way to write a term -/

mutual

def respelt : Term → Term
  | decimal value => decimal value.respelt
  | list items => list (respeltAll items)
  | set elements => set (respeltAll elements)
  | map entries => map (respeltEntries entries)
  | application head args => application head (respeltAll args)
  | term => term

def respeltAll : List Term → List Term
  | [] => []
  | item :: items => respelt item :: respeltAll items

def respeltEntries : List (Term × Term) → List (Term × Term)
  | [] => []
  | (key, value) :: entries => (respelt key, respelt value) :: respeltEntries entries

end

mutual

theorem alike_respelt : ∀ term : Term, term.Alike term.respelt
  | decimal value => .of_compare_eq (Decimal.compare_respelt value)
  | list items => alike_list_iff.mpr ⟨_, rfl, alike_respeltAll items⟩
  | set elements => alike_set_iff.mpr ⟨_, rfl, alike_respeltAll elements⟩
  | map entries => alike_map_iff.mpr ⟨_, rfl, alike_respeltEntries entries⟩
  | application _ args => alike_application_iff.mpr ⟨_, rfl, alike_respeltAll args⟩
  | nil | boolean _ | integer _ | character _ | string _ | keyword _ | symbol _
  | error _ => .refl _

theorem alike_respeltAll : ∀ items : List Term, List.Forall₂ Alike items (respeltAll items)
  | [] => .nil
  | item :: items => .cons (alike_respelt item) (alike_respeltAll items)

theorem alike_respeltEntries : ∀ entries : List (Term × Term),
    List.Forall₂ AlikeEntries entries (respeltEntries entries)
  | [] => .nil
  | (key, value) :: entries =>
      .cons ⟨alike_respelt key, alike_respelt value⟩ (alike_respeltEntries entries)

end

mutual

theorem length_write_respelt : ∀ (term : Term) (rest rest' : List Char),
    (term.write rest).length + rest'.length + term.decimals.countP Decimal.isWritable ≤
      (term.respelt.write rest').length + rest.length
  | decimal value, rest, rest' => by
      have longer := Decimal.length_chars_respelt value
      rw [respelt, write, write, decimals, List.countP_singleton]
      simp only [List.length_append, List.length_cons]
      omega
  | list [], rest, rest' | set [], rest, rest' | map [], rest, rest' => by
      simp only [respelt, respeltAll, respeltEntries, write, decimals, decimalsOfAll,
        decimalsOfEntries, List.length_cons, List.countP_nil]
      omega
  | list (item :: items), rest, rest' => by
      have first := length_write_respelt item (writeAll items (']' :: rest))
        (writeAll (respeltAll items) (']' :: rest'))
      have others := length_writeAll_respelt items (']' :: rest) (']' :: rest')
      simp only [respelt, respeltAll, write, decimals, decimalsOfAll, List.length_cons,
        List.countP_append] at others ⊢
      omega
  | set (element :: elements), rest, rest' => by
      have first := length_write_respelt element (writeAll elements ('}' :: rest))
        (writeAll (respeltAll elements) ('}' :: rest'))
      have others := length_writeAll_respelt elements ('}' :: rest) ('}' :: rest')
      simp only [respelt, respeltAll, write, decimals, decimalsOfAll, List.length_cons,
        List.countP_append] at others ⊢
      omega
  | map ((key, value) :: entries), rest, rest' => by
      have others := length_writeEntries_respelt entries ('}' :: rest) ('}' :: rest')
      have second := length_write_respelt value (writeEntries entries ('}' :: rest))
        (writeEntries (respeltEntries entries) ('}' :: rest'))
      have first := length_write_respelt key
        (' ' :: write value (writeEntries entries ('}' :: rest)))
        (' ' :: write value.respelt (writeEntries (respeltEntries entries) ('}' :: rest')))
      simp only [respelt, respeltEntries, write, decimals, decimalsOfEntries,
        List.length_cons, List.countP_append] at first others ⊢
      omega
  | application head args, rest, rest' => by
      have inside := length_writeAll_respelt args (')' :: rest) (')' :: rest')
      simp only [respelt, write, decimals, List.length_cons, List.length_append] at inside ⊢
      omega
  | nil, _, _ | boolean true, _, _ | boolean false, _, _ | integer _, _, _
  | character _, _, _ | string _, _, _ | keyword _, _, _ | symbol _, _, _
  | error _, _, _ => by
      simp only [respelt, write, decimals, List.length_cons, List.length_append,
        List.countP_nil]
      omega

theorem length_writeAll_respelt : ∀ (items : List Term) (rest rest' : List Char),
    (writeAll items rest).length + rest'.length +
        (decimalsOfAll items).countP Decimal.isWritable ≤
      (writeAll (respeltAll items) rest').length + rest.length
  | [], rest, rest' => by
      simp only [respeltAll, writeAll, decimalsOfAll, List.countP_nil]
      omega
  | item :: items, rest, rest' => by
      have first := length_write_respelt item (writeAll items rest)
        (writeAll (respeltAll items) rest')
      have others := length_writeAll_respelt items rest rest'
      simp only [respeltAll, writeAll, decimalsOfAll, List.length_cons, List.countP_append]
      omega

theorem length_writeEntries_respelt :
    ∀ (entries : List (Term × Term)) (rest rest' : List Char),
    (writeEntries entries rest).length + rest'.length +
        (decimalsOfEntries entries).countP Decimal.isWritable ≤
      (writeEntries (respeltEntries entries) rest').length + rest.length
  | [], rest, rest' => by
      simp only [respeltEntries, writeEntries, decimalsOfEntries, List.countP_nil]
      omega
  | (key, value) :: entries, rest, rest' => by
      have others := length_writeEntries_respelt entries rest rest'
      have second := length_write_respelt value (writeEntries entries rest)
        (writeEntries (respeltEntries entries) rest')
      have first := length_write_respelt key (' ' :: write value (writeEntries entries rest))
        (' ' :: write value.respelt (writeEntries (respeltEntries entries) rest'))
      simp only [respeltEntries, writeEntries, decimalsOfEntries, List.length_cons,
        List.countP_append] at first ⊢
      omega

end

theorem length_chars_respelt (term : Term) :
    term.chars.length + term.decimals.countP Decimal.isWritable ≤ term.respelt.chars.length :=
  length_write_respelt term [] []

theorem plain_of_countP_eq_zero {term : Term} (writable : term.isWritable = true)
    (none : term.decimals.countP Decimal.isWritable = 0) : term.Plain := by
  rw [isWritable, List.all_eq_true] at writable
  rw [List.countP_eq_zero] at none
  exact List.eq_nil_iff_forall_not_mem.mpr fun value member =>
    none value member (writable value member)

theorem alike_respelt_args (args : List Term) : List.Forall₂ Alike args (args.map respelt) := by
  rw [List.forall₂_map_right_iff]
  exact List.forall₂_same.mpr fun arg _ => alike_respelt arg

end Term

/-! ## Longer messages -/

namespace Failure

def respelt : Failure → Failure
  | unexpected expected received => unexpected expected received.respelt
  | invalidListIndex key => invalidListIndex key.respelt
  | noField key target => noField key.respelt target.respelt
  | tooLong term => tooLong term.respelt
  | failure => failure

theorem plain_of_text_respelt {before : String} {term : Term}
    (writable : term.isWritable = true)
    (same : before ++ term.respelt.text = before ++ term.text) : term.Plain := by
  have longer := term.length_chars_respelt
  rw [String.append_right_inj, Term.text, Term.text, String.ofList_inj] at same
  rw [same] at longer
  exact Term.plain_of_countP_eq_zero writable (by omega)

theorem plain_of_texts_respelt {before between : String} {first second : Term}
    (writable : first.isWritable = true) (writable' : second.isWritable = true)
    (same : before ++ first.respelt.text ++ between ++ second.respelt.text =
      before ++ first.text ++ between ++ second.text) : first.Plain ∧ second.Plain := by
  have longer := first.length_chars_respelt
  have longer' := second.length_chars_respelt
  have lengths := congrArg String.length same
  simp only [Term.text, String.length_append, String.length_ofList] at lengths
  exact ⟨Term.plain_of_countP_eq_zero writable (by omega),
    Term.plain_of_countP_eq_zero writable' (by omega)⟩

theorem plain_of_message_respelt {failure : Failure} (writable : failure.isWritable = true)
    (same : failure.respelt.message = failure.message) :
    ∀ term ∈ failure.quoted, term.Plain := by
  rw [isWritable, List.all_eq_true] at writable
  cases failure with
  | unexpected _ term | invalidListIndex term | tooLong term =>
      have plain := plain_of_text_respelt (writable term List.mem_cons_self) same
      exact fun other member => List.mem_singleton.mp member ▸ plain
  | noField key target =>
      have writable' := writable target (List.mem_cons_of_mem _ List.mem_cons_self)
      obtain ⟨first, second⟩ :=
        plain_of_texts_respelt (writable key List.mem_cons_self) writable' same
      exact List.forall_mem_cons.mpr ⟨first, List.forall_mem_singleton.mpr second⟩
  | _ => exact fun _ member => absurd member List.not_mem_nil

theorem plain_of_alike_ofFailure {failure : Failure} (short : Plan.ofFailure failure ≠ .overlong)
    (alike : (Plan.ofFailure failure).Alike (.ofFailure failure.respelt)) :
    ∀ term ∈ failure.quoted, term.Plain := by
  unfold Plan.ofFailure at short alike
  split at alike
  · rename_i writable
    split at alike
    · generalize reported : Plan.fail failure.value = plan at alike
      generalize reported' : Plan.fail failure.respelt.value = plan' at alike
      cases alike with
      | fail =>
          cases reported
          injection reported' with values
          exact plain_of_message_respelt writable (congrArg ErrorValue.message values)
      | _ => contradiction
    · contradiction
  · rename_i tooLong
    rw [if_neg tooLong] at short
    contradiction

end Failure

/-! ## What the functions do -/

namespace Builtin

theorem getFrom_respelt {target key : Term} {failure : Failure}
    (failed : getFrom target key = .error failure) :
    getFrom target.respelt key.respelt = .error failure.respelt := by
  cases target with
  | list items =>
      cases key with
      | integer => contradiction
      | _ =>
          cases failed
          rfl
  | map => contradiction
  | _ =>
      cases failed
      rfl

theorem getResult_respelt {args : List Term} {failure : Failure}
    (failed : getResult args = .error failure) :
    getResult (args.map Term.respelt) = .error failure.respelt := by
  rcases args with _ | ⟨target, _ | ⟨key, rest⟩⟩
  · cases failed
    rfl
  · cases failed
    rfl
  · exact getFrom_respelt failed

theorem declaration_respelt {item : Term} {failure : Failure}
    (failed : declaration item = .error failure) :
    declaration item.respelt = .error failure.respelt := by
  unfold declaration at failed
  split at failed
  · contradiction
  · rename_i other value notSymbol
    cases failed
    cases other with
    | symbol => exact absurd rfl (notSymbol _)
    | _ => rfl
  · rename_i notSymbol notPair
    cases failed
    cases item with
    | list items =>
        rcases items with _ | ⟨first, _ | ⟨second, _ | ⟨third, rest⟩⟩⟩
        · rfl
        · exact declaration.eq_3 (.list [first.respelt]) (by simp) (by simp)
        · exact absurd rfl (notPair _ _)
        · exact declaration.eq_3 (.list (_ :: _ :: _ :: _)) (by simp) (by simp)
    | _ => rfl

theorem mapM_declaration_respelt {items : List Term} {failure : Failure}
    (failed : items.mapM declaration = .error failure) :
    (Term.respeltAll items).mapM declaration = .error failure.respelt := by
  induction items with
  | nil => contradiction
  | cons item items ih =>
      rw [List.mapM_cons] at failed
      rw [Term.respeltAll, List.mapM_cons]
      cases first : declaration item with
      | error =>
          rw [first] at failed
          cases failed
          rw [declaration_respelt first]
          rfl
      | ok addition =>
          have alike := declaration_alike (by rw [first]; nofun) item.alike_respelt
          rw [first] at failed alike
          generalize declaration item.respelt = first' at alike
          cases alike
          cases rest : items.mapM declaration with
          | error =>
              rw [rest] at failed
              cases failed
              change (Term.respeltAll items).mapM declaration >>= _ = _
              rw [ih rest]
              rfl
          | ok additions =>
              rw [rest] at failed
              contradiction

theorem declarations_respelt {first : Term} {failure : Failure}
    (failed : declarations first = .error failure) :
    declarations first.respelt = .error failure.respelt := by
  cases first with
  | list items => exact mapM_declaration_respelt failed
  | _ =>
      cases failed
      rfl

theorem text_of_concatChars {term : Term} {chars : List Char}
    (kept : concatChars term =
      if !term.isConstant then .error (.unexpected "constant value" term)
      else if term.isWritable then .ok term.chars
      else .error (.tooLong term))
    (joined : concatChars term = .ok chars) : term.isWritable = true ∧ chars = term.chars := by
  rw [kept] at joined
  split at joined
  · contradiction
  split at joined
  · rename_i writable
    cases joined
    exact ⟨writable, rfl⟩
  · contradiction

theorem concatChars_respelt {arg : Term} {chars chars' : List Char}
    (joined : concatChars arg = .ok chars) (joined' : concatChars arg.respelt = .ok chars') :
    arg.isWritable = true ∧
      chars.length + arg.decimals.countP Decimal.isWritable ≤ chars'.length := by
  cases arg with
  | string | character | nil =>
      cases joined
      cases joined'
      exact ⟨rfl, Nat.le_refl _⟩
  | _ =>
      obtain ⟨writable, rfl⟩ := text_of_concatChars rfl joined
      obtain ⟨-, rfl⟩ := text_of_concatChars rfl joined'
      exact ⟨writable, Term.length_chars_respelt _⟩

theorem concatAll_respelt {args : List Term} {chars chars' : List Char}
    (joined : concatAll args = .ok chars)
    (joined' : concatAll (args.map Term.respelt) = .ok chars') :
    (Term.list args).isWritable = true ∧
      chars.length + (Term.list args).decimals.countP Decimal.isWritable ≤ chars'.length := by
  induction args generalizing chars chars' with
  | nil =>
      cases joined
      cases joined'
      exact ⟨rfl, Nat.le_refl _⟩
  | cons arg args ih =>
      rw [List.map_cons, concatAll] at joined'
      rw [concatAll] at joined
      split at joined
      · contradiction
      rename_i first
      split at joined'
      · contradiction
      rename_i first'
      obtain ⟨rest, others, rfl⟩ := exists_of_map_ok joined
      obtain ⟨rest', others', rfl⟩ := exists_of_map_ok joined'
      obtain ⟨writable, longer⟩ := concatChars_respelt first first'
      obtain ⟨each, longer'⟩ := ih others others'
      have decimals : (Term.list (arg :: args)).decimals =
          arg.decimals ++ (Term.list args).decimals := rfl
      rw [Term.isWritable, decimals, List.all_append, List.countP_append, List.length_append,
        List.length_append]
      exact ⟨Bool.and_eq_true_iff.mpr ⟨writable, each⟩, by omega⟩

theorem unwritable_of_concatAll {args : List Term} {failure : Failure}
    (constant : ∀ arg ∈ args, arg.isConstant = true)
    (failed : concatAll args = .error failure) : failure.isWritable = false := by
  induction args with
  | nil => contradiction
  | cons arg args ih =>
      rw [List.forall_mem_cons] at constant
      rw [concatAll] at failed
      split at failed
      · rename_i refused
        cases failed
        unfold concatChars at refused
        split at refused
        · contradiction
        · contradiction
        · contradiction
        rw [constant.1] at refused
        cases writable : arg.isWritable with
        | true =>
            rw [writable] at refused
            contradiction
        | false =>
            rw [writable] at refused
            cases refused
            simp [Failure.isWritable, Failure.quoted, writable]
      · exact ih constant.2 (error_of_map failed)

/-! ## Writing no decimals is necessary -/

theorem exists_of_answer_alike {result : Term} {outcome : Except Failure Term}
    (alike : (Plan.answer result).Alike (.ofResult outcome)) :
    ∃ result', outcome = .ok result' ∧ result.Alike result' := by
  generalize planned : Plan.ofResult outcome = plan at alike
  cases alike with
  | answer same => exact ⟨_, eq_ok_of_ofResult planned.symm, same⟩

theorem plain_of_concat_alike {args : List Term}
    (constant : ∀ arg ∈ args, arg.isConstant = true)
    (short : Plan.ofResult (concatResult args) ≠ .overlong)
    (alike : (Plan.ofResult (concatResult args)).Alike
      (.ofResult (concatResult (args.map Term.respelt)))) :
    ∀ arg ∈ if args.any Term.isError then [] else args, arg.Plain := by
  have found := find?_isError_alike (Term.alike_respelt_args args)
  cases errors : args.find? Term.isError with
  | some error =>
      have any : args.any Term.isError = true := by
        rw [List.any_eq_true, ← List.find?_isSome, errors, Option.isSome_some]
      rw [any]
      exact fun _ none => absurd none List.not_mem_nil
  | none =>
      rw [errors] at found
      have errors' := found.eq_none
      rw [concatResult, errors] at short alike
      rw [concatResult, errors'] at alike
      cases joined : concatAll args with
      | error failure =>
          rw [joined] at short
          have unwritable := unwritable_of_concatAll constant joined
          exact absurd (if_neg (by simp [unwritable])) short
      | ok chars =>
          rw [joined] at alike
          obtain ⟨result, ended, same⟩ := exists_of_answer_alike alike
          obtain ⟨chars', joined', rfl⟩ := exists_of_map_ok ended
          obtain ⟨writable, longer⟩ := concatAll_respelt joined joined'
          injection same.eq_of_plain rfl with texts
          rw [String.ofList_inj.mp texts] at longer
          intro arg member
          have arg_in : arg ∈ args := by
            split at member
            · contradiction
            · exact member
          have plain := Term.plain_of_countP_eq_zero writable (by omega)
          exact Term.plain_list.mp plain arg arg_in

theorem plain_of_letPlan_alike {args : List Term} (short : letPlan args ≠ .overlong)
    (alike : (letPlan args).Alike (letPlan (args.map Term.respelt))) :
    ∀ text ∈ letQuoted args, text.Plain := by
  rcases args with _ | ⟨first, _ | ⟨body, rest⟩⟩
  · exact fun _ none => absurd none List.not_mem_nil
  · exact fun _ none => absurd none List.not_mem_nil
  · rw [letQuoted]
    rw [List.map_cons, List.map_cons, letPlan, letPlan] at alike
    rw [letPlan] at short
    cases ended : declarations first with
    | ok => exact fun _ none => absurd none List.not_mem_nil
    | error failure =>
        rw [ended] at short alike
        rw [declarations_respelt ended] at alike
        exact failure.plain_of_alike_ofFailure short alike

theorem plain_of_respectsSpelling {function : Planned ω}
    (member : function ∈ (standardLibrary : List (Planned ω))) {args : List Term}
    (constant : function.arity.IsStrict → ∀ arg ∈ args, arg.isConstant = true)
    (short : function.plan args ≠ .overlong) (respects : function.RespectsSpelling args) :
    ∀ text ∈ written function.symbol args, text.Plain := by
  have alike := respects _ (Term.alike_respelt_args args)
  simp only [standardLibrary, List.mem_cons, List.not_mem_nil, or_false] at member
  rcases member with rfl | rfl | rfl | rfl
  · have strict : Arity.anyStrict.IsStrict := by
      simp [Arity.IsStrict, Arity.anyStrict]
    exact plain_of_concat_alike (constant strict) short alike
  · change ∀ text ∈ quoted (getResult args), text.Plain
    change Plan.ofResult (getResult args) ≠ _ at short
    change (Plan.ofResult (getResult args)).Alike (.ofResult (getResult _)) at alike
    cases ended : getResult args with
    | ok => exact fun _ none => absurd none List.not_mem_nil
    | error failure =>
        rw [ended] at short alike
        rw [getResult_respelt ended] at alike
        exact failure.plain_of_alike_ofFailure short alike
  · exact plain_of_letPlan_alike short alike
  · exact fun _ none => absurd none List.not_mem_nil

/-- Where a standard function has a plan at all, it comes to equal things for all equal
arguments exactly if it writes no decimal. -/
theorem respectsSpelling_iff {function : Planned ω}
    (member : function ∈ (standardLibrary : List (Planned ω))) {args : List Term}
    (constant : function.arity.IsStrict → ∀ arg ∈ args, arg.isConstant = true)
    (short : function.plan args ≠ .overlong) :
    function.RespectsSpelling args ↔ ∀ text ∈ written function.symbol args, text.Plain :=
  ⟨plain_of_respectsSpelling member constant short, respectsSpelling_of_written_plain member⟩

end Builtin

end TracedEval
