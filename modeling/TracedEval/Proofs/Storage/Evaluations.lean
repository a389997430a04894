import Mathlib.Data.List.Nodup
import TracedEval.Proofs.Honesty
import TracedEval.Proofs.Storage.Terms

/-!
# Stored evaluations are read back

An evaluation comes back if all its parts do: its terms, the values of its environments
and the symbols they bind, and its steps.  The members of an object are sorted by their
names, and an environment by its symbols, so entries change places when they are stored
and change back when they are read.
-/

namespace TracedEval

open Stored

namespace Stored

/-! ## Members of a record -/

variable {members : List (String × Json)} {name : String} {value : Json}

theorem uniqueMember_of_mem (distinct : (members.map (·.1)).Nodup)
    (member : (name, value) ∈ members) : uniqueMember members name = some (some value) := by
  have only : members.filter (·.1 == name) = [(name, value)] := by
    induction members with
    | nil => contradiction
    | cons head tail ih =>
        rw [List.map_cons, List.nodup_cons] at distinct
        rcases List.mem_cons.mp member with rfl | member
        · have others : tail.filter (·.1 == name) = [] := by
            rw [List.filter_eq_nil_iff]
            intro other inside same
            exact distinct.1 (List.mem_map.mpr ⟨other, inside, beq_iff_eq.mp same⟩)
          rw [List.filter_cons_of_pos (by simp), others]
        · have unlike : head.1 ≠ name := fun same =>
            distinct.1 (List.mem_map.mpr ⟨_, member, same.symm⟩)
          rw [List.filter_cons_of_neg (by simpa using unlike), ih distinct.2 member]
  rw [uniqueMember, only]
  rfl

theorem uniqueMember_of_notMem (absent : name ∉ members.map (·.1)) :
    uniqueMember members name = some none := by
  have nothing : members.filter (·.1 == name) = [] := by
    rw [List.filter_eq_nil_iff]
    intro other inside same
    exact absent (List.mem_map.mpr ⟨other, inside, beq_iff_eq.mp same⟩)
  rw [uniqueMember, nothing]
  rfl

open List in
theorem membersOf_perm (distinct : (members.map (·.1)).Nodup) :
    Json.membersOf members ~ members :=
  SortedList.ofList_perm (SortedList.distinct_byKey_iff.mpr distinct)

section Sorted

variable (distinct : (members.map (·.1)).Nodup)

include distinct

theorem uniqueMember_membersOf_of_mem (member : (name, value) ∈ members) :
    uniqueMember (Json.membersOf members) name = some (some value) := by
  have mixed := membersOf_perm distinct
  exact uniqueMember_of_mem ((mixed.map _).nodup_iff.mpr distinct) (mixed.mem_iff.mpr member)

theorem uniqueMember_membersOf_of_notMem (absent : name ∉ members.map (·.1)) :
    uniqueMember (Json.membersOf members) name = some none :=
  uniqueMember_of_notMem fun inside =>
    absent (((membersOf_perm distinct).map _).mem_iff.mp inside)

theorem required_membersOf (member : (name, value) ∈ members) :
    required (Json.membersOf members) name = some value := by
  rw [required, uniqueMember_membersOf_of_mem distinct member]
  rfl

end Sorted

end Stored

/-! ## Terms -/

/-- The text of the symbol means the symbol, but it may be empty. -/
def Symbol.Canonical (symbol : Symbol) : Prop :=
  ofText symbol.text = symbol

namespace Term

def Restored (term : Term) : Prop :=
  ∃ read, ofStored? term.toStored = some read ∧ read.equal term = true

/-- What is true of every term inside of those that evaluations are made of. -/
structure Regular (term : Term) : Prop where
  ordered : Ordered term
  named : Named Symbol.Storable (fun keyword => keyword.symbol.Canonical) term

abbrev RegularThroughout (term : Term) : Prop :=
  Everywhere Regular term

theorem RegularThroughout.storable {term : Term} (regular : term.RegularThroughout)
    (unambiguous : ∀ keyword ∈ term.keywords, keyword.Unambiguous) : term.Storable where
  ordered := regular.mono fun _ regular => regular.ordered
  named := by
    induction regular with
    | @intro term here inside ih =>
        constructor
        · have named := here.named
          cases term with
          | keyword value =>
              have unambiguous := unambiguous value (mem_keywords.mpr (.inl rfl))
              exact ⟨unambiguous.qualifiedName_ne_empty, unambiguous.bare,
                unambiguous.parsed named⟩
          | symbol value => exact named
          | application head args => exact named
          | _ => trivial
        · intro child member
          apply ih child member
          intro keyword inner
          exact unambiguous keyword (mem_keywords.mpr (.inr ⟨child, member, inner⟩))

theorem RegularThroughout.restored_iff {term : Term} (regular : term.RegularThroughout) :
    term.Restored ↔ ∀ keyword ∈ term.keywords, keyword.Unambiguous := by
  constructor
  · rintro ⟨read, found, same⟩
    exact RestoredWithin.unambiguous ⟨read, found, equal_iff.mp same⟩
  · intro unambiguous
    obtain ⟨read, found, same⟩ := (regular.storable unambiguous).restored (Nat.lt_succ_self _)
    exact ⟨read, found, equal_iff.mpr same⟩

end Term

/-! ## Environments and sets of symbols -/

namespace Bindings

def Restored (bindings : Bindings) : Prop :=
  ∃ read, ofStored? bindings.toStored = some read ∧ read.equal bindings = true

abbrev Regular (bindings : Bindings) : Prop :=
  bindings.Consists Symbol.Canonical Term.RegularThroughout

abbrev Referable (bindings : Bindings) : Prop :=
  bindings.Consists Symbol.Storable Term.RegularThroughout

variable {bindings : Bindings}

def ReadAs (entry read : Symbol × Term) : Prop :=
  entry.1.text ≠ "" ∧ read.1 = entry.1 ∧ Term.ofStored? entry.2.toStored = some read.2

def memberOf (entry : Symbol × Term) : String × Json :=
  (entry.1.text, entry.2.toStored)

def entryOf (member : String × Json) : Option (Symbol × Term) := do
  return (← symbolOf (.string member.1), ← Term.ofStored? member.2)

theorem entryOf_memberOf_eq_some_iff {entry read : Symbol × Term}
    (canonical : entry.1.Canonical) :
    entryOf (memberOf entry) = some read ↔ ReadAs entry read := by
  simp only [entryOf, memberOf, Option.bind_eq_bind, Option.bind_eq_some_iff,
    symbolOf_text_eq_some_iff, Option.pure_def, Option.some.injEq]
  rw [Symbol.Canonical] at canonical
  rw [canonical]
  constructor
  · rintro ⟨symbol, ⟨nonempty, rfl⟩, value, found, rfl⟩
    exact ⟨nonempty, rfl, found⟩
  · rintro ⟨nonempty, same, found⟩
    exact ⟨read.1, ⟨nonempty, same⟩, read.2, found, rfl⟩

theorem nodup_members (canonical : ∀ entry ∈ bindings.entries, entry.1.Canonical) :
    ((bindings.entries.map memberOf).map (·.1)).Nodup := by
  have texts : (bindings.entries.map memberOf).map (·.1) = bindings.symbols.map Symbol.text := by
    simp [memberOf, symbols]
  rw [texts]
  refine List.Nodup.map_on (fun symbol member other member' same => ?_) bindings.nodup_symbols
  obtain ⟨entry, entered, rfl⟩ := List.mem_map.mp member
  obtain ⟨entry', entered', rfl⟩ := List.mem_map.mp member'
  rw [← canonical entry entered, same, canonical entry' entered']

theorem sorted_of_readAs {reads : List (Symbol × Term)}
    (each : List.Forall₂ ReadAs bindings.entries reads) :
    SortedList.Sorted (SortedList.byKey Symbol.compare) reads := by
  refine bindings.sorted.of_forall₂ (each.flip.imp fun read entry readAs => ?_)
  rw [SortedList.byKey, readAs.2.1]
  exact Std.ReflCmp.compare_self

theorem ofStored_toStored_eq_some_iff {read : Bindings}
    (canonical : ∀ entry ∈ bindings.entries, entry.1.Canonical) :
    ofStored? bindings.toStored = some read ↔
      List.Forall₂ ReadAs bindings.entries read.entries := by
  have mixed := membersOf_perm (nodup_members canonical)
  have meaning (reads : List (Symbol × Term)) :
      List.Forall₂ (fun member read => entryOf member = some read)
          (bindings.entries.map memberOf) reads ↔
        List.Forall₂ ReadAs bindings.entries reads := by
    rw [List.forall₂_map_left_iff]
    exact SortedList.forall₂_congr_of_mem fun entry member _ =>
      entryOf_memberOf_eq_some_iff (canonical entry member)
  have reading : ofStored? bindings.toStored =
      ((Json.membersOf (bindings.entries.map memberOf)).mapM entryOf).map ofList := by
    rw [Option.map_eq_bind]
    rfl
  rw [reading, Option.map_eq_some_iff]
  constructor
  · rintro ⟨reads, founds, rfl⟩
    obtain ⟨placed, each, same⟩ :=
      List.perm_comp_forall₂ mixed.symm (mapM_eq_some_iff.mp founds)
    have each := (meaning placed).mp each
    have entries : (ofList reads).entries = placed :=
      SortedList.ofList_eq_of_perm (sorted_of_readAs each) same.symm
    rwa [entries]
  · intro each
    obtain ⟨reads, founds, same⟩ :=
      List.perm_comp_forall₂ mixed ((meaning read.entries).mpr each)
    refine ⟨reads, mapM_eq_some_iff.mpr founds, ?_⟩
    have entries : (ofList reads).entries = read.entries :=
      SortedList.ofList_eq_of_perm read.sorted same
    exact eq_of_entries_eq entries

def Kept (bindings : Bindings) : Prop :=
  ∀ entry ∈ bindings.entries,
    entry.1.text ≠ "" ∧ ∀ keyword ∈ entry.2.keywords, keyword.Unambiguous

theorem restored_iff (regular : bindings.Regular) : bindings.Restored ↔ bindings.Kept := by
  have regular := consists_iff.mp regular
  have reading (read : Bindings) :=
    @ofStored_toStored_eq_some_iff bindings read fun entry member => (regular entry member).1
  have matched : bindings.Restored ↔ ∀ entry ∈ bindings.entries, ∃ read : Symbol × Term,
      ReadAs entry read ∧ read.1 = entry.1 ∧ read.2.equal entry.2 = true := by
    rw [← SortedList.exists_forall₂_iff]
    constructor
    · rintro ⟨read, found, same⟩
      exact ⟨read.entries, (reading read).mp found, equal_iff_forall₂.mp same⟩
    · rintro ⟨reads, each, sames⟩
      exact ⟨⟨reads, sorted_of_readAs each⟩, (reading _).mpr each, equal_iff_forall₂.mpr sames⟩
  rw [matched]
  refine forall₂_congr fun entry member => ?_
  constructor
  · rintro ⟨read, ⟨nonempty, -, found⟩, -, same⟩
    exact ⟨nonempty, (regular entry member).2.restored_iff.mp ⟨read.2, found, same⟩⟩
  · rintro ⟨nonempty, unambiguous⟩
    obtain ⟨value, found, same⟩ := (regular entry member).2.restored_iff.mpr unambiguous
    exact ⟨(entry.1, value), ⟨nonempty, rfl, found⟩, rfl, same⟩

end Bindings

namespace SymbolSet

theorem read_toStored {symbols : SymbolSet}
    (storable : ∀ symbol ∈ symbols, symbol.Storable) :
    ofStored? symbols.toStored = some symbols := by
  obtain ⟨members, sorted⟩ := symbols
  have read : (members.map fun symbol => Json.string symbol.text).mapM symbolOf =
      some members := by
    rw [mapM_eq_some_iff, List.forall₂_map_left_iff, List.forall₂_same]
    exact fun symbol member => symbolOf_text (storable symbol member)
  simp only [toStored, ofStored?, read, Option.map_some, ofList,
    SortedList.ofList_eq_self sorted]

theorem eq_empty_of_isEmpty {symbols : SymbolSet} (none : symbols.isEmpty = true) :
    symbols = empty := by
  obtain ⟨members, sorted⟩ := symbols
  cases List.isEmpty_iff.mp none
  rfl

end SymbolSet

/-! ## Evaluations -/

namespace Evaluation

theorem operationOf_text (operation : Operation) :
    operationOf (.string operation.text) = some operation := by
  cases operation <;> decide

theorem toStoredAll_eq (steps : List Evaluation) : toStoredAll steps = steps.map toStored := by
  induction steps with
  | nil => rfl
  | cons step steps ih => rw [toStoredAll, ih, List.map_cons]

def members (evaluation : Evaluation) : List (String × Json) :=
  [("input", evaluation.input.toStored), ("result", evaluation.result.toStored),
    ("operation", .string evaluation.operation.text),
    ("dependencies", evaluation.dependencies.toStored),
    ("bindings", evaluation.bindings.toStored),
    ("sub_steps", .array (toStoredAll evaluation.subSteps))] ++
  evaluation.cachedDependencies.toList.map
    (fun stored => ("cached_dependencies", stored.toStored)) ++
  if evaluation.unboundSymbols.isEmpty then []
  else [("unbound_symbols", evaluation.unboundSymbols.toStored)]

theorem toStored_eq (evaluation : Evaluation) :
    evaluation.toStored = .objectOf evaluation.members := by
  cases evaluation
  rw [toStored]
  rfl

theorem nodup_members (evaluation : Evaluation) : (evaluation.members.map (·.1)).Nodup := by
  unfold members
  cases evaluation.cachedDependencies <;> split <;> simp

theorem required_members (evaluation : Evaluation) (name : String) (value : Json)
    (member : (name, value) ∈ evaluation.members) :
    required (Json.membersOf evaluation.members) name = some value :=
  required_membersOf evaluation.nodup_members member

theorem uniqueMember_cached (evaluation : Evaluation) :
    uniqueMember (Json.membersOf evaluation.members) "cached_dependencies" =
      some (evaluation.cachedDependencies.map Bindings.toStored) := by
  cases cached : evaluation.cachedDependencies with
  | none =>
      apply uniqueMember_membersOf_of_notMem evaluation.nodup_members
      unfold members
      rw [cached]
      split <;> simp
  | some stored =>
      apply uniqueMember_membersOf_of_mem evaluation.nodup_members
      simp [members, cached]

theorem uniqueMember_unbound (evaluation : Evaluation) :
    uniqueMember (Json.membersOf evaluation.members) "unbound_symbols" =
      some (if evaluation.unboundSymbols.isEmpty then none
        else some evaluation.unboundSymbols.toStored) := by
  cases empty : evaluation.unboundSymbols.isEmpty with
  | true =>
      apply uniqueMember_membersOf_of_notMem evaluation.nodup_members
      unfold members
      rw [empty]
      cases evaluation.cachedDependencies <;> simp
  | false =>
      apply uniqueMember_membersOf_of_mem evaluation.nodup_members
      simp [members, empty]

def rereadCached : Option Bindings → Option (Option Bindings)
  | none => some none
  | some stored => (Bindings.ofStored? stored.toStored).map some

theorem rereadCached_eq_some_iff {cached read : Option Bindings} :
    rereadCached cached = some read ↔
      List.Forall₂ (fun around around' => Bindings.ofStored? around.toStored = some around')
        cached.toList read.toList := by
  cases cached <;> cases read <;> simp [rereadCached]

theorem ofStoredWithin_toStored (depth : Nat) {evaluation : Evaluation}
    (storable : ∀ symbol ∈ evaluation.unboundSymbols, symbol.Storable) :
    ofStoredWithin (depth + 1) evaluation.toStored = (do
      let input ← Term.ofStored? evaluation.input.toStored
      let result ← Term.ofStored? evaluation.result.toStored
      let dependencies ← Bindings.ofStored? evaluation.dependencies.toStored
      let bindings ← Bindings.ofStored? evaluation.bindings.toStored
      let subSteps ← (toStoredAll evaluation.subSteps).mapM (ofStoredWithin depth)
      let cached ← rereadCached evaluation.cachedDependencies
      return mk input result evaluation.operation dependencies bindings subSteps cached
        evaluation.unboundSymbols) := by
  have input := evaluation.required_members "input" evaluation.input.toStored
    (by simp [members])
  have result := evaluation.required_members "result" evaluation.result.toStored
    (by simp [members])
  have operation := evaluation.required_members "operation" (.string evaluation.operation.text)
    (by simp [members])
  have dependencies := evaluation.required_members "dependencies" evaluation.dependencies.toStored
    (by simp [members])
  have bindings := evaluation.required_members "bindings" evaluation.bindings.toStored
    (by simp [members])
  have subSteps := evaluation.required_members "sub_steps"
    (.array (toStoredAll evaluation.subSteps)) (by simp [members])
  rw [toStored_eq, Json.objectOf, ofStoredWithin]
  simp only [input, result, operation, dependencies, bindings, subSteps, Option.bind_eq_bind,
    Option.bind_some, operationOf_text, uniqueMember_cached, uniqueMember_unbound]
  cases empty : evaluation.unboundSymbols.isEmpty with
  | true =>
      simp only [if_true, SymbolSet.eq_empty_of_isEmpty empty]
      cases evaluation.cachedDependencies <;> rfl
  | false =>
      simp only [Bool.false_eq_true, if_false, SymbolSet.read_toStored storable,
        Option.bind_some]
      cases evaluation.cachedDependencies <;> rfl

theorem equalAll_iff {steps others : List Evaluation} :
    equalAll steps others = true ↔
      List.Forall₂ (fun step other => step.equal other = true) steps others := by
  induction steps generalizing others with
  | nil => cases others <;> simp [equalAll]
  | cons step steps ih => cases others <;> simp [equalAll, ih]

def environments (node : Evaluation) : List Bindings :=
  node.dependencies :: node.bindings :: node.cachedDependencies.toList

theorem exists_parts_of_forall₂ {relates : Bindings → Bindings → Prop} {evaluation : Evaluation}
    {around : List Bindings} (each : List.Forall₂ relates evaluation.environments around) :
    ∃ (dependencies bindings : Bindings) (cached : Option Bindings),
      around = dependencies :: bindings :: cached.toList := by
  obtain ⟨dependencies, _, -, later, rfl⟩ := List.forall₂_cons_left_iff.mp each
  obtain ⟨bindings, rest, -, last, rfl⟩ := List.forall₂_cons_left_iff.mp later
  cases held : evaluation.cachedDependencies with
  | none =>
      rw [held] at last
      cases last
      exact ⟨dependencies, bindings, none, rfl⟩
  | some stored =>
      rw [held] at last
      obtain ⟨cached, _, -, nothing, rfl⟩ := List.forall₂_cons_left_iff.mp last
      cases nothing
      exact ⟨dependencies, bindings, some cached, rfl⟩

theorem equal_iff_parts {evaluation other : Evaluation} :
    evaluation.equal other = true ↔
      evaluation.input.equal other.input = true ∧
      evaluation.result.equal other.result = true ∧
      evaluation.operation = other.operation ∧
      List.Forall₂ (fun around around' => around.equal around' = true)
        evaluation.environments other.environments ∧
      List.Forall₂ (fun step step' => step.equal step' = true)
        evaluation.subSteps other.subSteps ∧
      evaluation.unboundSymbols = other.unboundSymbols := by
  rcases evaluation with ⟨_, _, _, _, _, _, cached, _⟩
  rcases other with ⟨_, _, _, _, _, _, cached', _⟩
  simp only [equal, Evaluation.input, Evaluation.result, Evaluation.operation,
    Evaluation.dependencies, Evaluation.bindings, Evaluation.subSteps,
    Evaluation.cachedDependencies, Evaluation.unboundSymbols, environments, equalAll_iff,
    Bool.and_eq_true, and_assoc, List.forall₂_cons, beq_iff_eq]
  cases cached <;> cases cached' <;> simp
  exact fun _ _ _ _ _ => and_left_comm

theorem ofStoredWithin_eq_some_iff {depth : Nat} {evaluation read : Evaluation}
    (storable : ∀ symbol ∈ evaluation.unboundSymbols, symbol.Storable) :
    ofStoredWithin (depth + 1) evaluation.toStored = some read ↔
      Term.ofStored? evaluation.input.toStored = some read.input ∧
      Term.ofStored? evaluation.result.toStored = some read.result ∧
      evaluation.operation = read.operation ∧
      List.Forall₂ (fun around around' => Bindings.ofStored? around.toStored = some around')
        evaluation.environments read.environments ∧
      List.Forall₂ (fun step step' => ofStoredWithin depth step.toStored = some step')
        evaluation.subSteps read.subSteps ∧
      evaluation.unboundSymbols = read.unboundSymbols := by
  simp only [ofStoredWithin_toStored depth storable, toStoredAll_eq, Option.bind_eq_bind,
    Option.bind_eq_some_iff, mapM_eq_some_iff, List.forall₂_map_left_iff, Option.pure_def,
    Option.some.injEq, rereadCached_eq_some_iff]
  constructor
  · rintro ⟨_, foundInput, _, foundResult, _, foundDependencies, _, foundBindings, _, foundSteps,
      _, foundCached, rfl⟩
    exact ⟨foundInput, foundResult, rfl, .cons foundDependencies (.cons foundBindings foundCached),
      foundSteps, rfl⟩
  · rintro ⟨foundInput, foundResult, sameOperation, around, foundSteps, sameUnbound⟩
    obtain ⟨foundDependencies, foundBindings, foundCached⟩ :=
      (List.forall₂_cons.mp around).imp_right List.forall₂_cons.mp
    refine ⟨_, foundInput, _, foundResult, _, foundDependencies, _, foundBindings, _, foundSteps,
      _, foundCached, ?_⟩
    rw [sameOperation, sameUnbound]
    cases read
    rfl

/-- The stored evaluation, read at most `depth` steps deep, is equal to the evaluation. -/
def RestoredWithin (depth : Nat) (evaluation : Evaluation) : Prop :=
  ∃ read, ofStoredWithin depth evaluation.toStored = some read ∧ read.equal evaluation = true

structure Restored (node : Evaluation) : Prop where
  input : node.input.Restored
  result : node.result.Restored
  environments : ∀ bindings ∈ node.environments, bindings.Restored

theorem restoredWithin_succ_iff {depth : Nat} {evaluation : Evaluation}
    (storable : ∀ symbol ∈ evaluation.unboundSymbols, symbol.Storable) :
    evaluation.RestoredWithin (depth + 1) ↔
      evaluation.Restored ∧ ∀ step ∈ evaluation.subSteps, step.RestoredWithin depth := by
  constructor
  · rintro ⟨read, found, same⟩
    obtain ⟨foundInput, foundResult, -, foundAround, foundSteps, -⟩ :=
      (ofStoredWithin_eq_some_iff storable).mp found
    obtain ⟨sameInput, sameResult, -, sameAround, sameSteps, -⟩ := equal_iff_parts.mp same
    refine ⟨⟨⟨_, foundInput, sameInput⟩, ⟨_, foundResult, sameResult⟩, ?_⟩, ?_⟩
    · exact SortedList.exists_forall₂_iff.mp ⟨_, foundAround, sameAround⟩
    · exact SortedList.exists_forall₂_iff.mp ⟨_, foundSteps, sameSteps⟩
  · rintro ⟨⟨⟨input, foundInput, sameInput⟩, ⟨result, foundResult, sameResult⟩, restored⟩, inside⟩
    obtain ⟨around, foundAround, sameAround⟩ := SortedList.exists_forall₂_iff.mpr restored
    obtain ⟨steps, foundSteps, sameSteps⟩ := SortedList.exists_forall₂_iff.mpr inside
    obtain ⟨dependencies, bindings, cached, rfl⟩ := exists_parts_of_forall₂ foundAround
    refine ⟨mk input result evaluation.operation dependencies bindings steps cached
      evaluation.unboundSymbols, ?_, ?_⟩
    · exact (ofStoredWithin_eq_some_iff storable).mpr
        ⟨foundInput, foundResult, rfl, foundAround, foundSteps, rfl⟩
    · exact equal_iff_parts.mpr ⟨sameInput, sameResult, rfl, sameAround, sameSteps, rfl⟩

theorem depth_toStored_step {evaluation step : Evaluation}
    (taken : step ∈ evaluation.subSteps) :
    step.toStored.depth < evaluation.toStored.depth := by
  have member : ("sub_steps", Json.array (toStoredAll evaluation.subSteps)) ∈
      Json.membersOf evaluation.members :=
    (membersOf_perm evaluation.nodup_members).mem_iff.mpr (by simp [members])
  have outer := Json.depth_le_depthMembers member
  have inner := Json.depth_le_depthAll (List.mem_map_of_mem (f := toStored) taken)
  rw [← toStoredAll_eq] at inner
  rw [toStored_eq evaluation, Json.objectOf]
  simp only [Json.depth] at outer ⊢
  omega

theorem restoredWithin_iff {depth : Nat} {evaluation : Evaluation}
    (storable : ∀ node ∈ evaluation.nodes, ∀ symbol ∈ node.unboundSymbols, symbol.Storable)
    (room : evaluation.toStored.depth < depth) :
    evaluation.RestoredWithin depth ↔ ∀ node ∈ evaluation.nodes, node.Restored := by
  induction depth generalizing evaluation with
  | zero => contradiction
  | succ depth ih =>
      have below (step : Evaluation) (taken : step ∈ evaluation.subSteps) :
          step.RestoredWithin depth ↔ ∀ node ∈ step.nodes, node.Restored :=
        ih (fun node inside => storable node (mem_nodes.mpr (.inr ⟨step, taken, inside⟩)))
          (Nat.lt_of_lt_of_le (depth_toStored_step taken) (Nat.le_of_lt_succ room))
      rw [restoredWithin_succ_iff (storable evaluation (mem_nodes.mpr (.inl rfl)))]
      constructor
      · rintro ⟨here, inside⟩ node member
        rcases mem_nodes.mp member with rfl | ⟨step, taken, member⟩
        · exact here
        · exact (below step taken).mp (inside step taken) node member
      · intro restored
        refine ⟨restored evaluation (mem_nodes.mpr (.inl rfl)), fun step taken => ?_⟩
        exact (below step taken).mpr fun node inside =>
          restored node (mem_nodes.mpr (.inr ⟨step, taken, inside⟩))

/-! ## Parts that are kept -/

def terms (node : Evaluation) : List Term :=
  node.input :: node.result ::
    node.environments.flatMap fun bindings => bindings.entries.map (·.2)

theorem mem_terms {node : Evaluation} {term : Term} :
    term ∈ node.terms ↔ term = node.input ∨ term = node.result ∨
      ∃ bindings ∈ node.environments, ∃ entry ∈ bindings.entries, entry.2 = term := by
  simp [terms]

/-- What evaluations are made of. -/
structure Regular (node : Evaluation) : Prop where
  input : node.input.RegularThroughout
  result : node.result.RegularThroughout
  bindings : node.bindings.Regular
  dependencies : node.dependencies.Referable
  cached : ∀ stored ∈ node.cachedDependencies, stored.Referable
  unbound : ∀ symbol ∈ node.unboundSymbols, symbol.Storable

def RegularThroughout (evaluation : Evaluation) : Prop :=
  ∀ node ∈ evaluation.nodes, node.Regular

/-- Keywords come back unless they are empty or begin with a colon, and bound symbols
unless they are empty. -/
structure Kept (node : Evaluation) : Prop where
  keywords : ∀ term ∈ node.terms, ∀ keyword ∈ term.keywords, keyword.Unambiguous
  symbols : ∀ symbol ∈ node.bindings.symbols, symbol.text ≠ ""

instance (node : Evaluation) : Decidable node.Kept :=
  decidable_of_iff
    ((∀ term ∈ node.terms, ∀ keyword ∈ term.keywords, keyword.Unambiguous) ∧
      ∀ symbol ∈ node.bindings.symbols, symbol.text ≠ "")
    ⟨fun ⟨keywords, symbols⟩ => ⟨keywords, symbols⟩,
      fun ⟨keywords, symbols⟩ => ⟨keywords, symbols⟩⟩

namespace Regular

variable {node : Evaluation} (regular : node.Regular)

include regular

theorem environment {around : Bindings} (member : around ∈ node.environments) :
    around.Regular ∧
      (around = node.bindings ∨ ∀ entry ∈ around.entries, entry.1.text ≠ "") := by
  have relied (around : Bindings) (referable : around.Referable) :
      around.Regular ∧ ∀ entry ∈ around.entries, entry.1.text ≠ "" :=
    ⟨referable.mono fun _ storable => storable.parsed, fun entry member =>
      (Bindings.consists_iff.mp referable entry member).1.nonempty⟩
  rcases List.mem_cons.mp member with rfl | member
  · exact (relied _ regular.dependencies).imp_right .inr
  · rcases List.mem_cons.mp member with rfl | held
    · exact ⟨regular.bindings, .inl rfl⟩
    · exact (relied _ (regular.cached around (Option.mem_toList.mp held))).imp_right .inr

theorem restored_iff : node.Restored ↔ node.Kept := by
  constructor
  · intro restored
    have kept (around : Bindings) (member : around ∈ node.environments) : around.Kept :=
      (Bindings.restored_iff (regular.environment member).1).mp
        (restored.environments around member)
    constructor
    · intro term member
      rcases mem_terms.mp member with rfl | rfl | ⟨around, among, entry, entered, rfl⟩
      · exact regular.input.restored_iff.mp restored.input
      · exact regular.result.restored_iff.mp restored.result
      · exact (kept around among entry entered).2
    · intro symbol member
      obtain ⟨entry, entered, rfl⟩ := List.mem_map.mp member
      exact (kept node.bindings (by simp [environments]) entry entered).1
  · intro kept
    constructor
    · exact regular.input.restored_iff.mpr (kept.keywords _ (mem_terms.mpr (.inl rfl)))
    · exact regular.result.restored_iff.mpr (kept.keywords _ (mem_terms.mpr (.inr (.inl rfl))))
    · intro around member
      obtain ⟨consists, nonempty⟩ := regular.environment member
      refine (Bindings.restored_iff consists).mpr fun entry entered => ⟨?_, ?_⟩
      · rcases nonempty with rfl | nonempty
        · exact kept.symbols _ (List.mem_map_of_mem entered)
        · exact nonempty entry entered
      · exact kept.keywords _
          (mem_terms.mpr (.inr (.inr ⟨around, member, entry, entered, rfl⟩)))

end Regular

/-! ## Stored evaluations -/

theorem forall_terms_isWritable_iff {node : Evaluation} :
    (∀ term ∈ node.terms, term.isWritable = true) ↔
      node.input.isWritable = true ∧ node.result.isWritable = true ∧
        ∀ bindings ∈ node.environments, bindings.isWritable = true := by
  simp only [terms, List.forall_mem_cons, List.forall_mem_flatMap, List.forall_mem_map,
    Bindings.isWritable, List.all_eq_true]

mutual

theorem isStorable_iff : ∀ evaluation : Evaluation, evaluation.isStorable = true ↔
    ∀ node ∈ evaluation.nodes, ∀ term ∈ node.terms, term.isWritable = true
  | mk input result operation dependencies bindings subSteps cached unbound => by
      have stored : cached.all Bindings.isWritable = true ↔
          ∀ bindings ∈ cached.toList, bindings.isWritable = true := by cases cached <;> simp
      rw [nodes, List.forall_mem_cons, ← isStorableAll_iff subSteps,
        forall_terms_isWritable_iff, isStorable]
      simp only [environments, List.forall_mem_cons, Bool.and_eq_true, and_assoc, stored]
      exact and_congr_right fun _ => and_congr_right fun _ => and_congr_right fun _ =>
        and_congr_right fun _ => and_comm

theorem isStorableAll_iff : ∀ steps : List Evaluation, isStorableAll steps = true ↔
    ∀ node ∈ nodesOfAll steps, ∀ term ∈ node.terms, term.isWritable = true
  | [] => by simp [isStorableAll, nodesOfAll]
  | step :: steps => by
      rw [isStorableAll, nodesOfAll, List.forall_mem_append, ← isStorable_iff step,
        ← isStorableAll_iff steps, Bool.and_eq_true]

end

theorem store_iff {evaluation : Evaluation} (regular : evaluation.RegularThroughout) :
    (∃ json read, evaluation.store? = some json ∧ ofStored? json = some read ∧
        read.equal evaluation = true) ↔
      ∀ node ∈ evaluation.nodes,
        (∀ term ∈ node.terms, term.isWritable = true) ∧ node.Kept := by
  have restored : (∃ read, ofStored? evaluation.toStored = some read ∧
      read.equal evaluation = true) ↔ ∀ node ∈ evaluation.nodes, node.Kept := by
    refine (restoredWithin_iff (fun node member => (regular node member).unbound)
      (Nat.lt_succ_self _)).trans (forall₂_congr fun node member => ?_)
    exact (regular node member).restored_iff
  rw [forall₂_and, ← restored, ← isStorable_iff]
  constructor
  · rintro ⟨json, read, stored, found, same⟩
    rw [store?] at stored
    split at stored
    · rename_i storable
      cases stored
      exact ⟨storable, read, found, same⟩
    · contradiction
  · rintro ⟨storable, read, found, same⟩
    exact ⟨evaluation.toStored, read, by rw [store?, if_pos storable], found, same⟩

end Evaluation

end TracedEval
