import TracedEval.Proofs.Spelling.EqualTerms

/-!
# Satisfaction and union

An environment is satisfied by another one that binds all its symbols to equal terms,
which is how a stored result is found again; what a result relied on is put together
from unions.  A union says what both its sides say where these agree with each other.
Where they do not, the side with more symbols is preferred: a union follows its first
side only if that one is not outnumbered, and how three environments are grouped counts.
-/

namespace TracedEval

namespace Bindings

variable {first second third whole : Bindings}

/-! ## Satisfaction as an order -/

theorem Agrees.refl (bindings : Bindings) : bindings.Agrees bindings :=
  .of_within fun _ _ found => found

theorem Agrees.trans (agrees : first.Agrees second) (agrees' : second.Agrees third) :
    first.Agrees third := by
  intro symbol value found
  obtain ⟨other, found', same⟩ := agrees symbol value found
  obtain ⟨last, found'', same'⟩ := agrees' symbol other found'
  exact ⟨last, found'', Term.equal_trans same same'⟩

theorem Agrees.covered (agrees : first.Agrees second) :
    SortedList.Covered (SortedList.byKey Symbol.compare) first.entries second.entries := by
  rintro ⟨symbol, value⟩ member
  obtain ⟨other, found, -⟩ := agrees symbol value (find?_eq_some_iff.mpr member)
  exact ⟨(symbol, other), find?_eq_some_iff.mp found, Std.ReflCmp.compare_self⟩

theorem Agrees.antisymm (agrees : first.Agrees second) (back : second.Agrees first) :
    first.equal second = true := by
  have places := first.sorted.forall₂_of_covered second.sorted agrees.covered back.covered
  rw [equal_iff_forall₂, List.forall₂_iff_get]
  refine ⟨places.length_eq, fun place here there => ?_⟩
  have symbols : (first.entries.get ⟨place, here⟩).1 = (second.entries.get ⟨place, there⟩).1 :=
    Std.LawfulEqCmp.eq_of_compare (places.get here there)
  have found : first.find? (first.entries.get ⟨place, here⟩).1 =
      some (first.entries.get ⟨place, here⟩).2 :=
    find?_eq_some_iff.mpr (List.get_mem _ _)
  have found' : second.find? (second.entries.get ⟨place, there⟩).1 =
      some (second.entries.get ⟨place, there⟩).2 :=
    find?_eq_some_iff.mpr (List.get_mem _ _)
  obtain ⟨other, bound, same⟩ := agrees _ _ found
  rw [symbols, found'] at bound
  cases bound
  exact ⟨symbols, same⟩

theorem agrees_of_alikeFound
    (alike : ∀ symbol, Term.AlikeFound (first.find? symbol) (second.find? symbol)) :
    first.Agrees second := by
  intro symbol value found
  have related := alike symbol
  rw [found] at related
  exact related.exists_of_some

theorem equal_iff_alikeFound :
    first.equal second = true ↔
      ∀ symbol, Term.AlikeFound (first.find? symbol) (second.find? symbol) := by
  constructor
  · exact find?_alike
  · intro alike
    apply Agrees.antisymm
    · exact agrees_of_alikeFound alike
    · exact agrees_of_alikeFound fun symbol => (alike symbol).symm

/-! ## Which side a union follows -/

/-- Symbols that both sides bind are bound to equal terms. -/
def Concurs (first second : Bindings) : Prop :=
  ∀ symbol value other, first.find? symbol = some value →
    second.find? symbol = some other → value.Alike other

/-- The union binds what its first side binds, and all else as its second side does. -/
def Leads (first second : Bindings) : Prop :=
  ∀ symbol, Term.AlikeFound ((first.union second).find? symbol)
    ((first.find? symbol).or (second.find? symbol))

theorem concurs_iff_entries :
    first.Concurs second ↔ ∀ entry ∈ first.entries, ∀ other ∈ second.entries,
      entry.1 = other.1 → entry.2.equal other.2 = true := by
  simp only [Concurs, find?_eq_some_iff]
  constructor
  · rintro concurs ⟨symbol, value⟩ member ⟨_, other⟩ member' rfl
    exact concurs symbol value other member member'
  · intro concurs symbol value other member member'
    exact concurs (symbol, value) member (symbol, other) member' rfl

instance : Decidable (first.Concurs second) :=
  decidable_of_iff _ concurs_iff_entries.symm

theorem Concurs.symm (concurs : first.Concurs second) : second.Concurs first :=
  fun symbol value other found found' => (concurs symbol other value found' found).symm

theorem Concurs.union (concurs : first.Concurs third) (concurs' : second.Concurs third) :
    (first.union second).Concurs third := by
  intro symbol value other found found'
  rcases find?_union_cases found with found | found
  · exact concurs symbol value other found found'
  · exact concurs' symbol value other found found'

theorem concurs_iff_or_alike :
    first.Concurs second ↔
      ∀ symbol, Term.AlikeFound ((second.find? symbol).or (first.find? symbol))
        ((first.find? symbol).or (second.find? symbol)) := by
  refine forall_congr' fun symbol => ?_
  cases first.find? symbol with
  | none => simp [Term.AlikeFound.refl]
  | some value =>
      cases second.find? symbol with
      | none => simp [Term.Alike.refl]
      | some other =>
          simp only [Option.some.injEq, Option.some_or]
          constructor
          · intro same
            exact .some (same value other rfl rfl).symm
          · rintro (same | _) _ _ rfl rfl
            exact Term.Alike.symm same

/-- The first side leads exactly if it is not outnumbered or both sides concur. -/
theorem leads_iff : first.Leads second ↔ second.size ≤ first.size ∨ first.Concurs second := by
  by_cases larger : second.size ≤ first.size
  · simp only [larger, true_or, iff_true]
    intro symbol
    rw [find?_union, if_pos larger]
    exact .refl _
  · simp only [Leads, find?_union, larger, if_false, false_or, concurs_iff_or_alike]

theorem Concurs.leads (concurs : first.Concurs second) : first.Leads second :=
  leads_iff.mpr (.inr concurs)

theorem Leads.agrees (leads : first.Leads second) : first.Agrees (first.union second) := by
  intro symbol value found
  have related := (leads symbol).symm
  rw [found, Option.some_or] at related
  exact related.exists_of_some

theorem Concurs.agrees_second (concurs : first.Concurs second) :
    second.Agrees (first.union second) := by
  intro symbol value found
  have either := concurs_iff_or_alike.mp concurs symbol
  have related := either.trans (concurs.leads symbol).symm
  rw [found, Option.some_or] at related
  exact related.exists_of_some

theorem Concurs.of_agrees (concurs : first.Concurs whole) (agrees : second.Agrees whole) :
    first.Concurs second := by
  intro symbol value other found found'
  obtain ⟨other', bound, same⟩ := agrees symbol other found'
  exact Term.equal_trans (concurs symbol value other' found bound) (Term.equal_symm same)

/-! ## How unions are grouped -/

theorem Leads.regroup (inner : second.Leads third) (outer : first.Leads (second.union third)) :
    first.Leads second ∧ (first.union second).Leads third := by
  have larger := size_le_union_first first second
  have larger' := size_le_union_second first second
  have part := size_le_union_first second third
  have part' := size_le_union_second second third
  rcases leads_iff.mp outer with smaller | concurs
  · constructor
    · exact leads_iff.mpr (.inl (by omega))
    · exact leads_iff.mpr (.inl (by omega))
  · have beside : first.Concurs second := concurs.of_agrees inner.agrees
    refine ⟨beside.leads, ?_⟩
    rcases leads_iff.mp inner with smaller | concurs'
    · exact leads_iff.mpr (.inl (by omega))
    · have apart : first.Concurs third := concurs.of_agrees concurs'.agrees_second
      exact (apart.union concurs').leads

theorem union_alike_left (inner : first.Leads second) (outer : (first.union second).Leads third)
    (symbol : Symbol) :
    Term.AlikeFound (((first.union second).union third).find? symbol)
      ((first.find? symbol).or ((second.find? symbol).or (third.find? symbol))) := by
  rw [← Option.or_assoc]
  exact (outer symbol).trans ((inner symbol).or (.refl _))

theorem union_assoc_of_leads (inner : second.Leads third)
    (outer : first.Leads (second.union third)) :
    ((first.union second).union third).equal (first.union (second.union third)) = true := by
  obtain ⟨inner', outer'⟩ := inner.regroup outer
  rw [equal_iff_alikeFound]
  intro symbol
  have right : Term.AlikeFound ((first.union (second.union third)).find? symbol)
      ((first.find? symbol).or ((second.find? symbol).or (third.find? symbol))) :=
    (outer symbol).trans (.or (.refl _) (inner symbol))
  exact (union_alike_left inner' outer' symbol).trans right.symm

theorem leads_of_union_assoc (inner : first.Leads second)
    (outer : (first.union second).Leads third) (inner' : second.Leads third)
    (grouped : ((first.union second).union third).equal
      (first.union (second.union third)) = true) :
    first.Leads (second.union third) := by
  intro symbol
  have same := equal_iff_alikeFound.mp grouped symbol
  have left := union_alike_left inner outer symbol
  exact (same.symm.trans left).trans (.or (.refl _) (inner' symbol).symm)

theorem union_assoc_of_concurs (concurs : first.Concurs second) (concurs' : first.Concurs third)
    (concurs'' : second.Concurs third) :
    ((first.union second).union third).equal (first.union (second.union third)) = true := by
  apply union_assoc_of_leads
  · exact concurs''.leads
  · exact (concurs.symm.union concurs'.symm).symm.leads

/-! ## Satisfying a union -/

theorem Concurs.isSatisfiedBy_union_iff (concurs : first.Concurs second) :
    (first.union second).isSatisfiedBy whole = true ↔
      first.isSatisfiedBy whole = true ∧ second.isSatisfiedBy whole = true := by
  simp only [isSatisfiedBy_iff]
  constructor
  · intro agrees
    exact ⟨concurs.leads.agrees.trans agrees, concurs.agrees_second.trans agrees⟩
  · rintro ⟨agrees, agrees'⟩
    exact agrees.union agrees'

/-- Satisfaction is an order, for the test of sizes takes nothing away from it.  A union
answers as its larger side does, and its first side leads exactly if it is not outnumbered
or both concur.  The grouping of three does not count where the first side leads when they
are grouped to the right, and if it leads when they are grouped to the left, only there; so
it does not count if all three concur.  Concurring sides have their union for least upper
bound. -/
theorem subset_algebra (first second third : Bindings) :
    (first.isSatisfiedBy second = true ↔
      ∀ symbol value, first.find? symbol = some value →
        ∃ found, second.find? symbol = some found ∧ value.equal found = true) ∧
    first.isSatisfiedBy first = true ∧
    (first.isSatisfiedBy second = true → second.isSatisfiedBy third = true →
      first.isSatisfiedBy third = true) ∧
    (∀ symbol, (first.union second).find? symbol =
      if second.size ≤ first.size then (first.find? symbol).or (second.find? symbol)
      else (second.find? symbol).or (first.find? symbol)) ∧
    (first.Leads second ↔ second.size ≤ first.size ∨ first.Concurs second) ∧
    (second.Leads third → first.Leads (second.union third) →
      ((first.union second).union third).equal (first.union (second.union third)) = true) ∧
    (first.Leads second → (first.union second).Leads third → second.Leads third →
      (((first.union second).union third).equal (first.union (second.union third)) = true ↔
        first.Leads (second.union third))) ∧
    (first.Concurs second → first.Concurs third → second.Concurs third →
      ((first.union second).union third).equal (first.union (second.union third)) = true) ∧
    (first.Concurs second →
      ((first.union second).isSatisfiedBy third = true ↔
        first.isSatisfiedBy third = true ∧ second.isSatisfiedBy third = true)) := by
  refine ⟨isSatisfiedBy_iff, ?_, fun before after => ?_, find?_union first second, leads_iff,
    union_assoc_of_leads, fun inner outer inner' => ?_, union_assoc_of_concurs,
    Concurs.isSatisfiedBy_union_iff⟩
  · rw [isSatisfiedBy_iff]
    exact .refl first
  · rw [isSatisfiedBy_iff] at before after ⊢
    exact before.trans after
  · constructor
    · exact leads_of_union_assoc inner outer inner'
    · exact union_assoc_of_leads inner'

def rate : Bindings :=
  .ofList [(⟨none, "rate"⟩, .decimal ⟨15, 1⟩)]

def quote : Bindings :=
  .ofList [(⟨none, "rate"⟩, .decimal ⟨150, 2⟩), (⟨none, "base"⟩, .integer 7)]

def reducedRate : Bindings :=
  .ofList [(⟨none, "rate"⟩, .integer 1)]

def fee : Bindings :=
  .ofList [(⟨none, "fee"⟩, .integer 2)]

def offer : Bindings :=
  .ofList [(⟨none, "rate"⟩, .decimal ⟨1500, 3⟩), (⟨none, "base"⟩, .integer 7),
    (⟨none, "fee"⟩, .integer 2)]

theorem subset_algebra_quotes :
    rate.isSatisfiedBy offer = true ∧ (rate.union quote).isSatisfiedBy offer = true ∧
      ((rate.union quote).union fee).equal (rate.union (quote.union fee)) = true ∧
      ¬quote.Concurs reducedRate ∧
      ((quote.union reducedRate).union fee).equal (quote.union (reducedRate.union fee)) =
        true ∧
      ((rate.union fee).union reducedRate).equal (rate.union (fee.union reducedRate)) =
        false := by
  have concurs : rate.Concurs quote := by decide
  have part : rate.isSatisfiedBy quote = true := by decide
  have whole : quote.isSatisfiedBy offer = true := by decide
  have both := (subset_algebra rate quote offer).2.2.1 part whole
  obtain ⟨-, -, -, -, -, -, -, -, bound⟩ := subset_algebra rate quote offer
  obtain ⟨-, -, -, -, -, -, -, grouped, -⟩ := subset_algebra rate quote fee
  obtain ⟨-, -, -, -, -, grouped', -⟩ := subset_algebra quote reducedRate fee
  obtain ⟨-, -, -, -, leads, -, grouped'', -⟩ := subset_algebra rate fee reducedRate
  refine ⟨both, (bound concurs).mpr ⟨both, whole⟩, ?_, by decide, ?_, ?_⟩
  · exact grouped concurs (by decide) (by decide)
  · exact grouped' (leads_iff.mpr (by decide)) (leads_iff.mpr (by decide))
  · have outnumbered : ¬rate.Leads (fee.union reducedRate) := by
      rw [leads_iff]
      decide
    have needed := grouped'' (leads.mpr (by decide)) (leads_iff.mpr (by decide))
      (leads_iff.mpr (by decide))
    exact Bool.eq_false_iff.mpr fun same => outnumbered (needed.mp same)

/-- A reduced rate with a fee outnumbers the rate, so the rate does not lead their union, and
it matters whether the fee is added to the rate or to the reduced rate. -/
theorem not_leads_outnumbered :
    ¬(∀ first second : Bindings, first.Leads second) ∧
      ¬∀ first second third : Bindings,
        ((first.union second).union third).equal (first.union (second.union third)) = true := by
  constructor
  · intro leads
    have either := leads_iff.mp (leads rate (fee.union reducedRate))
    revert either
    decide
  · intro grouped
    have same := grouped rate fee reducedRate
    revert same
    decide

end Bindings

end TracedEval
