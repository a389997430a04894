import TracedEval.Proofs.PlainTerms
import TracedEval.Proofs.Spelling.EqualTerms

/-!
# Functions that write terms

Some functions put the texts of terms together, be it for a string they answer with or for
the message of a failure.  As long as no decimal is in these terms, equal arguments make
such a function do equal things.
-/

namespace TracedEval

variable {ω : Type}

/-! ## Plans that come to equal things -/

inductive Plan.Alike : Plan → Plan → Prop
  | overlong : Alike .overlong .overlong
  | fail {error} : Alike (.fail error) (.fail error)
  | answer {result result'} (alike : result.Alike result') :
      Alike (.answer result) (.answer result')
  | ask {additions additions' body body'}
      (added : List.Forall₂ Bindings.AlikeBinding additions additions')
      (alike : body.Alike body') : Alike (.ask additions body) (.ask additions' body')

theorem Plan.Alike.ofFailure (failure : Failure) :
    Alike (.ofFailure failure) (.ofFailure failure) := by
  unfold Plan.ofFailure
  split
  · exact .fail
  · exact .overlong

/-- Whatever equal arguments are put in place of these, the plan comes to equal things. -/
def Planned.RespectsSpelling (function : Planned ω) (args : List Term) : Prop :=
  ∀ args', List.Forall₂ Term.Alike args args' →
    (function.plan args).Alike (function.plan args')

inductive AlikeResults {α : Type} (related : α → α → Prop) :
    Except Failure α → Except Failure α → Prop
  | ok {value value'} (alike : related value value') :
      AlikeResults related (.ok value) (.ok value')
  | error {failure} : AlikeResults related (.error failure) (.error failure)

theorem AlikeResults.refl (result : Except Failure Term) :
    AlikeResults Term.Alike result result := by
  cases result with
  | ok value => exact .ok (.refl value)
  | error failure => exact .error

theorem AlikeResults.plan {result result' : Except Failure Term}
    (alike : AlikeResults Term.Alike result result') :
    (Plan.ofResult result).Alike (Plan.ofResult result') := by
  cases alike with
  | ok alike => exact .answer alike
  | error => exact .ofFailure _

theorem AlikeResults.bind {α β : Type} {related : α → α → Prop} {related' : β → β → Prop}
    {first first' : Except Failure α} {next next' : α → Except Failure β}
    (alike : AlikeResults related first first')
    (rest : ∀ value value', first = .ok value → related value value' →
      AlikeResults related' (next value) (next' value')) :
    AlikeResults related' (first >>= next) (first' >>= next') := by
  cases alike with
  | ok alike => exact rest _ _ rfl alike
  | error => exact .error

theorem eq_of_alike_of_plain {items items' : List Term}
    (each : List.Forall₂ Term.Alike items items') (plain : ∀ item ∈ items, item.Plain) :
    items = items' := by
  rw [← List.forall₂_eq_eq_eq]
  refine ((List.forall₂_and_left _ _).mpr ⟨plain, each⟩).imp fun item item' both => ?_
  exact both.2.eq_of_plain both.1

namespace Builtin

/-! ## What is written -/

def quoted {α : Type} : Except Failure α → List Term
  | .ok _ => []
  | .error failure => failure.quoted

def letQuoted : List Term → List Term
  | first :: _ :: _ => quoted (declarations first)
  | _ => []

/-- The terms whose texts a standard function needs, by its symbol. -/
def written : Symbol → List Term → List Term
  | ⟨some "sys.string", "concat"⟩, args => if args.any Term.isError then [] else args
  | ⟨some "sys", "get"⟩, args => quoted (getResult args)
  | ⟨some "sys", "let"⟩, args => letQuoted args
  | _, _ => []

theorem quoted_bind {α β : Type} {first : Except Failure α} {next : α → Except Failure β}
    {good : Term → Prop} (holds : ∀ term ∈ quoted (first >>= next), good term) :
    (∀ term ∈ quoted first, good term) ∧
      ∀ value, first = .ok value → ∀ term ∈ quoted (next value), good term := by
  cases first with
  | ok value =>
      refine ⟨nofun, ?_⟩
      rintro _ ⟨⟩
      exact holds
  | error failure => exact ⟨holds, nofun⟩

/-! ## Texts put together -/

theorem find?_isError_alike {args args' : List Term}
    (each : List.Forall₂ Term.Alike args args') :
    Term.AlikeFound (args.find? Term.isError) (args'.find? Term.isError) := by
  induction each with
  | nil => exact .none
  | cons head _ ih =>
      rw [List.find?_cons, List.find?_cons, head.isError_eq]
      split
      · exact .some head
      · exact ih

theorem concatResult_alike {args args' : List Term}
    (plain : ∀ arg ∈ if args.any Term.isError then [] else args, arg.Plain)
    (each : List.Forall₂ Term.Alike args args') :
    AlikeResults Term.Alike (concatResult args) (concatResult args') := by
  cases errors : args.any Term.isError with
  | false =>
      rw [errors] at plain
      obtain rfl := eq_of_alike_of_plain each plain
      exact .refl _
  | true =>
      have found := find?_isError_alike each
      rw [List.any_eq_true, ← List.find?_isSome, Option.isSome_iff_exists] at errors
      obtain ⟨error, first⟩ := errors
      rw [concatResult, concatResult]
      rw [first] at found
      obtain ⟨error', first', alike⟩ := found.exists_of_some
      rw [first, first']
      exact .ok alike

/-! ## Looking into collections -/

theorem getElem?_alike {items items' : List Term}
    (each : List.Forall₂ Term.Alike items items') (index : Nat) :
    (items[index]?.getD .nil).Alike (items'[index]?.getD .nil) := by
  induction each generalizing index with
  | nil => exact .refl _
  | cons head _ ih =>
      cases index with
      | zero => exact head
      | succ index => exact ih index

theorem getFrom_alike {target target' key key' : Term}
    (plain : ∀ term ∈ quoted (getFrom target key), term.Plain)
    (targets : target.Alike target') (keys : key.Alike key') :
    AlikeResults Term.Alike (getFrom target key) (getFrom target' key') := by
  unfold getFrom at plain
  split at plain
  · rename_i items index
    obtain ⟨items', rfl, each⟩ := Term.alike_list_iff.mp targets
    obtain rfl := keys.eq_of_plain rfl
    refine .ok ?_
    split
    · exact .refl _
    · exact getElem?_alike each _
  · rename_i items notIndex
    obtain ⟨items', rfl, -⟩ := Term.alike_list_iff.mp targets
    obtain rfl := keys.eq_of_plain (plain key List.mem_cons_self)
    rw [getFrom.eq_2 _ _ notIndex, getFrom.eq_2 _ _ notIndex]
    exact .error
  · obtain ⟨entries', rfl, each⟩ := Term.alike_map_iff.mp targets
    exact .ok ((Term.entryAt?_alike each keys).getD .nil)
  · obtain rfl := keys.eq_of_plain (plain key List.mem_cons_self)
    obtain rfl := targets.eq_of_plain
      (plain target (List.mem_cons_of_mem _ List.mem_cons_self))
    exact .refl _

theorem getResult_alike {args args' : List Term}
    (plain : ∀ term ∈ quoted (getResult args), term.Plain)
    (each : List.Forall₂ Term.Alike args args') :
    AlikeResults Term.Alike (getResult args) (getResult args') := by
  cases each with
  | nil => exact .refl _
  | cons target rest =>
      cases rest with
      | nil => exact .error
      | cons key rest => exact getFrom_alike plain target key

/-! ## Local bindings -/

theorem declaration_alike {item item' : Term}
    (plain : ∀ term ∈ quoted (declaration item), term.Plain) (alike : item.Alike item') :
    AlikeResults Bindings.AlikeBinding (declaration item) (declaration item') := by
  unfold declaration at plain
  split at plain
  · obtain ⟨parts, rfl, each⟩ := Term.alike_list_iff.mp alike
    obtain ⟨name, _, same, rest, rfl⟩ := List.forall₂_cons_left_iff.mp each
    obtain ⟨value, _, values, none, rfl⟩ := List.forall₂_cons_left_iff.mp rest
    obtain rfl := List.forall₂_nil_left_iff.mp none
    obtain rfl := Term.alike_symbol_iff.mp same
    exact .ok ⟨rfl, values⟩
  · rename_i other value notSymbol
    obtain ⟨parts, rfl, each⟩ := Term.alike_list_iff.mp alike
    obtain ⟨other', _, same, rest, rfl⟩ := List.forall₂_cons_left_iff.mp each
    obtain ⟨value', _, -, none, rfl⟩ := List.forall₂_cons_left_iff.mp rest
    obtain rfl := List.forall₂_nil_left_iff.mp none
    obtain rfl := same.eq_of_plain (plain other List.mem_cons_self)
    rw [declaration.eq_2 _ _ notSymbol, declaration.eq_2 _ _ notSymbol]
    exact .error
  · obtain rfl := alike.eq_of_plain (plain item List.mem_cons_self)
    cases declaration item with
    | ok addition => exact .ok ⟨rfl, .refl _⟩
    | error failure => exact .error

theorem mapM_declaration_alike {items items' : List Term}
    (plain : ∀ term ∈ quoted (items.mapM declaration), term.Plain)
    (each : List.Forall₂ Term.Alike items items') :
    AlikeResults (List.Forall₂ Bindings.AlikeBinding) (items.mapM declaration)
      (items'.mapM declaration) := by
  induction each with
  | nil => exact .ok .nil
  | cons head _ ih =>
      rw [List.mapM_cons] at plain ⊢
      rw [List.mapM_cons]
      obtain ⟨first, others⟩ := quoted_bind plain
      refine (declaration_alike first head).bind fun addition addition' declared same => ?_
      refine (ih (quoted_bind (others addition declared)).1).bind ?_
      exact fun additions additions' _ each => .ok (.cons same each)

theorem declarations_alike {first first' : Term}
    (plain : ∀ term ∈ quoted (declarations first), term.Plain) (alike : first.Alike first') :
    AlikeResults (List.Forall₂ Bindings.AlikeBinding) (declarations first)
      (declarations first') := by
  unfold declarations at plain
  split at plain
  · obtain ⟨items', rfl, each⟩ := Term.alike_list_iff.mp alike
    exact mapM_declaration_alike plain each
  · rename_i notList
    obtain rfl := alike.eq_of_plain (plain first List.mem_cons_self)
    rw [declarations.eq_2 _ notList]
    exact .error

theorem letPlan_alike {args args' : List Term}
    (plain : ∀ term ∈ letQuoted args, term.Plain)
    (each : List.Forall₂ Term.Alike args args') :
    (letPlan args).Alike (letPlan args') := by
  cases each with
  | nil => exact .ofFailure _
  | cons first rest =>
      cases rest with
      | nil => exact .ofFailure _
      | cons body rest =>
          have alike := declarations_alike plain first
          rw [letPlan, letPlan]
          generalize declarations _ = additions at alike
          generalize declarations _ = additions' at alike
          cases alike with
          | ok added => exact .ask added body
          | error => exact .ofFailure _

theorem respectsSpelling_of_written_plain {function : Planned ω}
    (member : function ∈ (standardLibrary : List (Planned ω))) {args : List Term}
    (plain : ∀ term ∈ written function.symbol args, term.Plain) :
    function.RespectsSpelling args := by
  intro args' each
  simp only [standardLibrary, List.mem_cons, List.not_mem_nil, or_false] at member
  rcases member with rfl | rfl | rfl | rfl
  · exact (concatResult_alike plain each).plan
  · exact (getResult_alike plain each).plan
  · exact letPlan_alike plain each
  · exact .answer (Term.alike_list_iff.mpr ⟨args', rfl, each⟩)

end Builtin

end TracedEval
