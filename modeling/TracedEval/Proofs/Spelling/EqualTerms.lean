import TracedEval.Proofs.Environment
import TracedEval.Proofs.Hereditary

/-!
# Terms that differ in the spelling of decimals

Terms are equal if they differ at most in the scales of their decimals.  Whatever is done
with terms short of writing them makes equal things of equal things: sorting elements,
looking up keys, extending environments and expanding macros.
-/

namespace TracedEval

/-! ## Sorted lists side by side -/

namespace SortedList

variable {α β κ : Type} {related : α → β → Prop} {cmp : α → α → Ordering}
  {cmp' : β → β → Ordering}

section Respects

variable (respects : ∀ item item' other other', related item other → related item' other' →
  cmp item item' = cmp' other other')

include respects

theorem forall₂_insert {item : α} {other : β} {items : List α} {others : List β}
    (first : related item other) (each : List.Forall₂ related items others) :
    List.Forall₂ related (insert cmp item items) (insert cmp' other others) := by
  induction each with
  | nil => exact .cons first .nil
  | cons head tail ih =>
      rw [insert, insert, respects _ _ _ _ first head]
      split
      · exact .cons first (.cons head tail)
      · exact .cons first tail
      · exact .cons head ih

theorem forall₂_insertAll {items additions : List α} {others additions' : List β}
    (each : List.Forall₂ related items others)
    (each' : List.Forall₂ related additions additions') :
    List.Forall₂ related (insertAll cmp items additions)
      (insertAll cmp' others additions') := by
  induction each' generalizing items others with
  | nil => exact each
  | cons head _ ih => exact ih (forall₂_insert respects head each)

theorem forall₂_ofList {items : List α} {others : List β}
    (each : List.Forall₂ related items others) :
    List.Forall₂ related (ofList cmp items) (ofList cmp' others) :=
  forall₂_insertAll respects .nil each

end Respects

end SortedList

namespace Term

/-! ## Equal terms -/

def Alike (first second : Term) : Prop :=
  first.equal second = true

namespace Alike

variable {first first' second second' : Term}

@[refl] theorem refl (term : Term) : term.Alike term :=
  equal_refl term

@[symm] theorem symm (alike : first.Alike second) : second.Alike first :=
  equal_symm alike

theorem compare_eq (alike : first.Alike second) : first.compare second = .eq :=
  equal_iff.mp alike

theorem of_compare_eq (same : first.compare second = .eq) : first.Alike second :=
  equal_iff.mpr same

theorem compare_congr (alike : first.Alike second) (alike' : first'.Alike second') :
    first.compare first' = second.compare second' := by
  rw [Std.TransCmp.congr_left alike.compare_eq, Std.TransCmp.congr_right alike'.compare_eq]

theorem isConstant_eq (alike : first.Alike second) :
    first.isConstant = second.isConstant :=
  isConstant_of_compare_eq first second alike.compare_eq

theorem eq_of_plain (alike : first.Alike second) (plain : first.Plain) : first = second :=
  eq_of_equal plain alike

end Alike

abbrev AlikeFound : Option Term → Option Term → Prop :=
  Option.Rel Alike

namespace AlikeFound

variable {found found' other other' last : Option Term} {value : Term}

theorem refl (found : Option Term) : AlikeFound found found := by
  cases found with
  | none => exact .none
  | some value => exact .some (.refl value)

theorem symm (alike : AlikeFound found other) : AlikeFound other found := by
  cases alike with
  | none => exact .none
  | some same => exact .some same.symm

theorem trans (alike : AlikeFound found other) (alike' : AlikeFound other last) :
    AlikeFound found last := by
  cases alike with
  | none => exact alike'
  | some same =>
      cases alike' with
      | some same' => exact .some (equal_trans same same')

theorem or (alike : AlikeFound found found') (alike' : AlikeFound other other') :
    AlikeFound (found.or other) (found'.or other') := by
  cases alike with
  | none => exact alike'
  | some same => exact .some same

theorem getD (alike : AlikeFound found found') (default : Term) :
    (found.getD default).Alike (found'.getD default) := by
  cases alike with
  | none => exact .refl default
  | some same => exact same

theorem exists_of_some (alike : AlikeFound (some value) other) :
    ∃ value', other = some value' ∧ value.Alike value' := by
  cases alike with
  | some same => exact ⟨_, rfl, same⟩

theorem eq_none (alike : AlikeFound none other) : other = none := by
  cases alike
  rfl

end AlikeFound

theorem compareAll_eq_iff_alike {firsts seconds : List Term} :
    compareAll firsts seconds = .eq ↔ List.Forall₂ Alike firsts seconds := by
  simp only [compareAll_eq_iff, ← equal_iff]
  rfl

def AlikeEntries (entry other : Term × Term) : Prop :=
  entry.1.Alike other.1 ∧ entry.2.Alike other.2

theorem compareEntries_eq_iff_alike {firsts seconds : List (Term × Term)} :
    compareEntries firsts seconds = .eq ↔ List.Forall₂ AlikeEntries firsts seconds := by
  simp only [compareEntries_eq_iff, ← equal_iff]
  rfl

/-! ## What is equal to a term of some kind -/

section Kinds

variable {other : Term}

theorem alike_symbol_iff {symbol : Symbol} :
    (Term.symbol symbol).Alike other ↔ other = .symbol symbol :=
  ⟨fun alike => (alike.eq_of_plain rfl).symm, fun same => same ▸ .refl _⟩

theorem alike_list_iff {items : List Term} :
    (list items).Alike other ↔ ∃ items', other = list items' ∧
      List.Forall₂ Alike items items' := by
  constructor
  · intro alike
    have kinds := rank_eq_of_compare_eq alike.compare_eq
    cases other <;> cases kinds
    exact ⟨_, rfl, compareAll_eq_iff_alike.mp alike.compare_eq⟩
  · rintro ⟨items', rfl, each⟩
    exact .of_compare_eq (compareAll_eq_iff_alike.mpr each)

theorem alike_set_iff {elements : List Term} :
    (set elements).Alike other ↔ ∃ elements', other = set elements' ∧
      List.Forall₂ Alike elements elements' := by
  constructor
  · intro alike
    have kinds := rank_eq_of_compare_eq alike.compare_eq
    cases other <;> cases kinds
    exact ⟨_, rfl, compareAll_eq_iff_alike.mp alike.compare_eq⟩
  · rintro ⟨elements', rfl, each⟩
    exact .of_compare_eq (compareAll_eq_iff_alike.mpr each)

theorem alike_map_iff {entries : List (Term × Term)} :
    (map entries).Alike other ↔ ∃ entries', other = map entries' ∧
      List.Forall₂ AlikeEntries entries entries' := by
  constructor
  · intro alike
    have kinds := rank_eq_of_compare_eq alike.compare_eq
    cases other <;> cases kinds
    exact ⟨_, rfl, compareEntries_eq_iff_alike.mp alike.compare_eq⟩
  · rintro ⟨entries', rfl, each⟩
    exact .of_compare_eq (compareEntries_eq_iff_alike.mpr each)

theorem alike_application_iff {head : Symbol} {args : List Term} :
    (application head args).Alike other ↔ ∃ args', other = application head args' ∧
      List.Forall₂ Alike args args' := by
  constructor
  · intro alike
    have same := alike.compare_eq
    have kinds := rank_eq_of_compare_eq same
    cases other <;> cases kinds
    obtain ⟨heads, args⟩ := Ordering.then_eq_eq.mp same
    exact ⟨_, by rw [Symbol.eq_of_compare heads], compareAll_eq_iff_alike.mp args⟩
  · rintro ⟨args', rfl, each⟩
    refine .of_compare_eq (Ordering.then_eq_eq.mpr ⟨Std.ReflCmp.compare_self, ?_⟩)
    exact compareAll_eq_iff_alike.mpr each

theorem Alike.isError_eq {first second : Term} (alike : first.Alike second) :
    first.isError = second.isError := by
  have kinds := rank_eq_of_compare_eq alike.compare_eq
  cases first <;> cases second <;> first | rfl | contradiction

end Kinds

/-! ## Collections built anew -/

theorem setOf_alike {items items' : List Term} (each : List.Forall₂ Alike items items') :
    (setOf items).Alike (setOf items') := by
  refine alike_set_iff.mpr ⟨_, rfl, ?_⟩
  refine SortedList.forall₂_ofList (fun item item' other other' alike alike' => ?_) each
  exact alike.compare_congr alike'

theorem entryAt?_alike {entries entries' : List (Term × Term)} {key key' : Term}
    (each : List.Forall₂ AlikeEntries entries entries') (alike : key.Alike key') :
    AlikeFound (entryAt? entries key) (entryAt? entries' key') := by
  unfold entryAt?
  induction each with
  | nil => exact .none
  | cons head _ ih =>
      rw [SortedList.find?, SortedList.find?, alike.compare_congr head.1]
      split
      · exact .some head.2
      · exact ih

end Term

/-! ## Equal environments -/

namespace Bindings

variable {bindings other : Bindings} {symbol : Symbol}

def AlikeBinding (entry other : Symbol × Term) : Prop :=
  entry.1 = other.1 ∧ entry.2.Alike other.2

theorem equal_iff_alike :
    bindings.equal other = true ↔
      List.Forall₂ AlikeBinding bindings.entries other.entries :=
  equal_iff_forall₂

theorem find?_alike (same : bindings.equal other = true) (symbol : Symbol) :
    Term.AlikeFound (bindings.find? symbol) (other.find? symbol) := by
  cases found : bindings.find? symbol with
  | some value =>
      obtain ⟨value', found', alike⟩ := find?_of_equal same found
      rw [found']
      exact .some alike
  | none =>
      cases found' : other.find? symbol with
      | none => exact .none
      | some value =>
          obtain ⟨value', bound, -⟩ := find?_of_equal (equal_symm same) found'
          rw [found] at bound
          contradiction

theorem find?_eq_none_of_equal (same : bindings.equal other = true)
    (lacks : bindings.find? symbol = none) : other.find? symbol = none := by
  have related := find?_alike same symbol
  rw [lacks] at related
  exact related.eq_none

theorem extend_equal {additions additions' : List (Symbol × Term)}
    (same : bindings.equal other = true)
    (added : List.Forall₂ AlikeBinding additions additions') :
    (bindings.extend additions).equal (other.extend additions') = true := by
  rw [equal_iff_alike] at same ⊢
  refine SortedList.forall₂_insertAll ?_ same added
  rintro ⟨first, _⟩ ⟨second, _⟩ ⟨_, _⟩ ⟨_, _⟩ ⟨rfl, -⟩ ⟨rfl, -⟩
  rfl

end Bindings

structure Application.Alike (application other : Application) : Prop where
  head : application.head = other.head
  args : List.Forall₂ Term.Alike application.args other.args

theorem Application.Alike.term {application other : Application}
    (alike : application.Alike other) : application.term.Alike other.term := by
  refine Term.alike_application_iff.mpr ⟨other.args, ?_, alike.args⟩
  rw [alike.head]
  rfl

theorem Application.exists_of_alike {application : Application} {term : Term}
    (alike : application.term.Alike term) :
    ∃ other : Application, term = other.term ∧ application.Alike other := by
  obtain ⟨args, rfl, each⟩ := Term.alike_application_iff.mp alike
  exact ⟨⟨application.head, args⟩, rfl, rfl, each⟩

namespace Bindings

variable {bindings other : Bindings} {symbol : Symbol}

theorem application?_alike {body : Application} (same : bindings.equal other = true)
    (found : bindings.application? symbol = some body) :
    ∃ body', other.application? symbol = some body' ∧ body.Alike body' := by
  obtain ⟨value, found', equal⟩ := find?_of_equal same (find?_of_application? found)
  obtain ⟨body', rfl, alike⟩ := Application.exists_of_alike equal
  exact ⟨body', application?_of_find? found', alike⟩

theorem application?_eq_none_of_equal (same : bindings.equal other = true)
    (free : bindings.application? symbol = none) : other.application? symbol = none := by
  cases found : other.application? symbol with
  | none => rfl
  | some body =>
      obtain ⟨body', bound, -⟩ := application?_alike (equal_symm same) found
      rw [free] at bound
      contradiction

end Bindings

/-! ## Expansion -/

namespace Expansion

theorem forall₂_numbered {args args' : List Term} (each : List.Forall₂ Term.Alike args args')
    (start : Nat) :
    List.Forall₂ Bindings.AlikeBinding
      ((args.zipIdx start).map fun (arg, index) => (parameter index, arg))
      ((args'.zipIdx start).map fun (arg, index) => (parameter index, arg)) := by
  induction each generalizing start with
  | nil => exact .nil
  | cons head _ ih => exact .cons ⟨rfl, head⟩ (ih (start + 1))

theorem parameters_equal {source source' : Application} (alike : source.Alike source') :
    (parameters source).equal (parameters source') = true := by
  have numbered : (Bindings.ofList _).equal (Bindings.ofList _) = true :=
    Bindings.extend_equal (Bindings.equal_refl .empty) (forall₂_numbered alike.args 0)
  rw [parameters, parameters, alike.head]
  exact Bindings.extend_equal numbered (.cons ⟨rfl, .refl _⟩ .nil)

variable {values values' : Bindings}

theorem substituteHead_of_equal (same : values.equal values' = true) {head result : Symbol}
    (substituted : substituteHead values head = .ok result) :
    substituteHead values' head = .ok result := by
  have related := Bindings.find?_alike same head
  rw [substituteHead] at substituted ⊢
  generalize values.find? head = found at related substituted
  generalize values'.find? head = found' at related
  cases related with
  | none => exact substituted
  | some alike =>
      split at substituted
      · contradiction
      · rename_i same
        cases same
        cases substituted
        cases Term.alike_symbol_iff.mp alike
        rfl
      · contradiction

mutual

theorem substitute_alike (same : values.equal values' = true) :
    ∀ term term' result : Term, term.Alike term' → substitute values term = .ok result →
      ∃ result', substitute values' term' = .ok result' ∧ result.Alike result'
  | .symbol symbol, term', result, alike, substituted => by
      obtain rfl := Term.alike_symbol_iff.mp alike
      rw [substitute] at substituted
      cases substituted
      exact ⟨_, rfl, (Bindings.find?_alike same symbol).getD _⟩
  | .list items, term', result, alike, substituted => by
      obtain ⟨items', rfl, each⟩ := Term.alike_list_iff.mp alike
      obtain ⟨results, replaced, rfl⟩ := exists_of_map_ok substituted
      obtain ⟨results', replaced', each⟩ := substituteAll_alike same items items' results each
        replaced
      refine ⟨.list results', ?_, Term.alike_list_iff.mpr ⟨results', rfl, each⟩⟩
      rw [substitute, replaced']
      rfl
  | .set elements, term', result, alike, substituted => by
      obtain ⟨elements', rfl, each⟩ := Term.alike_set_iff.mp alike
      obtain ⟨results, replaced, rfl⟩ := exists_of_map_ok substituted
      obtain ⟨results', replaced', each⟩ := substituteAll_alike same elements elements'
        results each replaced
      refine ⟨.setOf results', ?_, Term.setOf_alike each⟩
      rw [substitute, replaced']
      rfl
  | .map entries, term', result, alike, substituted => by
      obtain ⟨entries', rfl, each⟩ := Term.alike_map_iff.mp alike
      obtain ⟨results, replaced, rfl⟩ := exists_of_map_ok substituted
      obtain ⟨results', replaced', each⟩ := substituteEntries_alike same entries entries'
        results each replaced
      refine ⟨.map results', ?_, Term.alike_map_iff.mpr ⟨results', rfl, each⟩⟩
      rw [substitute, replaced']
      rfl
  | .application head args, term', result, alike, substituted => by
      obtain ⟨args', rfl, each⟩ := Term.alike_application_iff.mp alike
      obtain ⟨head', results, kept, replaced, rfl⟩ :=
        substitute_application_ok_iff.mp substituted
      obtain ⟨results', replaced', each⟩ := substituteAll_alike same args args' results each
        replaced
      have kept' := substituteHead_of_equal same kept
      exact ⟨.application head' results',
        substitute_application_ok_iff.mpr ⟨head', results', kept', replaced', rfl⟩,
        Term.alike_application_iff.mpr ⟨results', rfl, each⟩⟩
  | .decimal value, term', result, alike, substituted => by
      cases substituted
      have kinds := Term.rank_eq_of_compare_eq alike.compare_eq
      cases term' <;> cases kinds
      exact ⟨_, rfl, alike⟩
  | .nil, term', _, alike, rfl | .boolean _, term', _, alike, rfl
  | .integer _, term', _, alike, rfl | .character _, term', _, alike, rfl
  | .string _, term', _, alike, rfl | .keyword _, term', _, alike, rfl
  | .error _, term', _, alike, rfl => by
      obtain rfl := alike.eq_of_plain rfl
      exact ⟨_, rfl, .refl _⟩

theorem substituteAll_alike (same : values.equal values' = true) :
    ∀ items items' results : List Term, List.Forall₂ Term.Alike items items' →
      substituteAll values items = .ok results →
      ∃ results', substituteAll values' items' = .ok results' ∧
        List.Forall₂ Term.Alike results results'
  | [], _, _, .nil, rfl => ⟨[], rfl, .nil⟩
  | item :: items, item' :: items', results, .cons head tail, substituted => by
      obtain ⟨first, others, replaced, rest, rfl⟩ := substituteAll_cons_ok_iff.mp substituted
      obtain ⟨first', replaced', alike⟩ := substitute_alike same item item' first head replaced
      obtain ⟨others', rest', each⟩ := substituteAll_alike same items items' others tail rest
      exact ⟨first' :: others',
        substituteAll_cons_ok_iff.mpr ⟨first', others', replaced', rest', rfl⟩,
        .cons alike each⟩

theorem substituteEntries_alike (same : values.equal values' = true) :
    ∀ entries entries' results : List (Term × Term),
      List.Forall₂ Term.AlikeEntries entries entries' →
      substituteEntries values entries = .ok results →
      ∃ results', substituteEntries values' entries' = .ok results' ∧
        List.Forall₂ Term.AlikeEntries results results'
  | [], _, _, .nil, rfl => ⟨[], rfl, .nil⟩
  | (key, value) :: entries, (key', value') :: entries', results, .cons head tail,
      substituted => by
      obtain ⟨first, others, replaced, rest, rfl⟩ :=
        substituteEntries_cons_ok_iff.mp substituted
      obtain ⟨first', replaced', alike⟩ := substitute_alike same value value' first head.2
        replaced
      obtain ⟨others', rest', each⟩ := substituteEntries_alike same entries entries' others
        tail rest
      exact ⟨(key', first') :: others',
        substituteEntries_cons_ok_iff.mpr ⟨first', others', replaced', rest', rfl⟩,
        .cons ⟨head.1, alike⟩ each⟩

end

theorem expand_alike {source source' body body' expansion : Application}
    (given : source.Alike source') (alike : body.Alike body')
    (expands : expand source body = .ok expansion) :
    ∃ expansion', expand source' body' = .ok expansion' ∧ expansion.Alike expansion' := by
  obtain ⟨term, replaced, same⟩ := substitute_alike (parameters_equal given) _ _ _ alike.term
    (expand_ok_iff.mp expands)
  obtain ⟨expansion', rfl, alike'⟩ := Application.exists_of_alike same
  exact ⟨expansion', expand_ok_iff.mpr replaced, alike'⟩

end Expansion

end TracedEval
