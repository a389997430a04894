import Mathlib.Data.Finset.Card
import Mathlib.Data.Set.Function
import TracedEval.Proofs.Record
import TracedEval.Proofs.Table

/-!
# The table as a finite map

Whatever is stored and cleared, a table holds one entry for each key, that is a term and
conditions, under which something was stored since it was cleared last, and each entry
has the result that was stored last.  Keys are taken up to equality, so that different
spellings of decimals make one key.  The count of entries is that of the keys, and a
lookup finds an entry with as many conditions as any key has that serves the request.
-/

namespace TracedEval.Cache

/-! ## Keys -/

/-- What a result is stored for. -/
structure Key where
  term : Term
  dependencies : Bindings
  unboundSymbols : SymbolSet

namespace Key

structure Same (key other : Key) : Prop where
  term : key.term.equal other.term = true
  dependencies : key.dependencies.equal other.dependencies = true
  unboundSymbols : key.unboundSymbols = other.unboundSymbols

instance setoid : Setoid Key where
  r := Same
  iseqv :=
    { refl := fun _ => ⟨Term.equal_refl _, Bindings.equal_refl _, rfl⟩
      symm := fun same => ⟨Term.equal_symm same.term, Bindings.equal_symm same.dependencies,
        same.unboundSymbols.symm⟩
      trans := fun same same' => ⟨Term.equal_trans same.term same'.term,
        Bindings.equal_trans same.dependencies same'.dependencies,
        same.unboundSymbols.trans same'.unboundSymbols⟩ }

instance (key other : Key) : Decidable (key ≈ other) :=
  decidable_of_iff (key.term.equal other.term = true ∧
      key.dependencies.equal other.dependencies = true ∧
      key.unboundSymbols = other.unboundSymbols)
    ⟨fun same => ⟨same.1, same.2.1, same.2.2⟩,
      fun same => ⟨same.term, same.dependencies, same.unboundSymbols⟩⟩

end Key

/-- The key of a stored entry, up to equality. -/
def keyOf (stored : Term × Entry) : Quotient Key.setoid :=
  ⟦⟨stored.1, stored.2.dependencies, stored.2.unboundSymbols⟩⟧

theorem keyOf_eq_iff {stored other : Term × Entry} :
    keyOf stored = keyOf other ↔
      stored.1.equal other.1 = true ∧
        stored.2.dependencies.equal other.2.dependencies = true ∧
        stored.2.unboundSymbols = other.2.unboundSymbols := by
  rw [keyOf, keyOf, Quotient.eq]
  exact ⟨fun same => ⟨same.term, same.dependencies, same.unboundSymbols⟩,
    fun same => ⟨same.1, same.2.1, same.2.2⟩⟩

theorem holds_iff {term : Term} {entry : Entry} {stored : Term × Entry} :
    Table.holds term entry stored = true ↔ keyOf stored = keyOf (term, entry) := by
  simp [Table.holds, Entry.sameConditions, keyOf_eq_iff]

theorem fitsIn_of_keyOf_eq {stored other : Term × Entry} (same : keyOf stored = keyOf other)
    {bindings : Bindings} (fits : other.2.FitsIn bindings) : stored.2.FitsIn bindings := by
  obtain ⟨-, dependencies, unbound⟩ := keyOf_eq_iff.mp same
  rw [← Entry.isSatisfiedBy_iff, Entry.isSatisfiedBy, Bool.and_eq_true] at fits ⊢
  exact ⟨Bindings.isSatisfiedBy_of_equal dependencies fits.1, unbound ▸ fits.2⟩

theorem specificity_eq_of_keyOf_eq {stored other : Term × Entry}
    (same : keyOf stored = keyOf other) : stored.2.specificity = other.2.specificity := by
  obtain ⟨-, dependencies, unbound⟩ := keyOf_eq_iff.mp same
  have sizes := (Bindings.equal_iff_forall₂.mp dependencies).length_eq
  rw [Entry.specificity, Entry.specificity, Bindings.size, Bindings.size, sizes, unbound]

/-! ## Changes -/

inductive Change where
  | store (term : Term) (entry : Entry)
  | clear

namespace Change

def after (stores : List (Term × Entry)) : Change → List (Term × Entry)
  | store term entry => stores ++ [(term, entry)]
  | clear => []

def stores (changes : List Change) : List (Term × Entry) :=
  changes.foldl after []

end Change

def lastResult? (stores : List (Term × Entry)) (key : Quotient Key.setoid) : Option Term :=
  (stores.reverse.find? (fun stored => keyOf stored = key)).map (·.2.result)

theorem lastResult?_append (stores : List (Term × Entry)) (stored : Term × Entry)
    (key : Quotient Key.setoid) :
    lastResult? (stores ++ [stored]) key =
      if keyOf stored = key then some stored.2.result else lastResult? stores key := by
  rw [lastResult?, List.reverse_append, List.reverse_singleton, List.singleton_append,
    List.find?_cons]
  split <;> simp_all [lastResult?]

namespace Table

variable {table : Table} {term : Term} {entry : Entry} {bindings : Bindings}

def change (table : Table) : Change → Table
  | .store term entry => table.store term entry
  | .clear => table.clear

/-! ## Replacing a result -/

def updated (term : Term) (entry : Entry) (stored : Term × Entry) : Term × Entry :=
  if keyOf stored = keyOf (term, entry) then
    (stored.1, { stored.2 with result := entry.result })
  else stored

@[simp] theorem keyOf_updated (stored : Term × Entry) :
    keyOf (updated term entry stored) = keyOf stored := by
  rw [updated]
  split <;> rfl

theorem replaceResult_eq_map {entries : List (Term × Entry)}
    (distinct : (entries.map keyOf).Nodup) :
    replaceResult term entry entries = entries.map (updated term entry) := by
  induction entries with
  | nil => rfl
  | cons stored entries ih =>
      rw [List.map_cons, List.nodup_cons] at distinct
      obtain ⟨absent, distinct⟩ := distinct
      rw [replaceResult, List.map_cons, updated]
      by_cases same : keyOf stored = keyOf (term, entry)
      · have rest : entries.map (updated term entry) = entries := by
          refine List.map_congr_left (fun other member => ?_) |>.trans (List.map_id entries)
          rw [updated, if_neg]
          · rfl
          · intro same'
            rw [same, ← same'] at absent
            exact absent (List.mem_map_of_mem member)
        rw [if_pos (holds_iff.mpr same), if_pos same, rest]
      · rw [if_neg (fun held => same (holds_iff.mp held)), if_neg same, ih distinct]

/-! ## The entries and what was stored -/

/-- The table holds what was stored: an entry for each key, under different keys, with
the results that were stored last. -/
structure Reflects (table : Table) (stores : List (Term × Entry)) : Prop where
  keys : ∀ key, key ∈ table.entries.map keyOf ↔ key ∈ stores.map keyOf
  distinct : (table.entries.map keyOf).Nodup
  results : ∀ stored ∈ table.entries,
    lastResult? stores (keyOf stored) = some stored.2.result
  count : table.entryCount = table.entries.length

namespace Reflects

variable {stores : List (Term × Entry)}

theorem clear (table : Table) : table.clear.Reflects [] where
  keys := by simp [Table.clear]
  distinct := List.nodup_nil
  results := by simp [Table.clear]
  count := rfl

theorem replace (reflects : table.Reflects stores)
    (held : keyOf (term, entry) ∈ table.entries.map keyOf) :
    Reflects { table with entries := replaceResult term entry table.entries }
      (stores ++ [(term, entry)]) := by
  rw [replaceResult_eq_map reflects.distinct]
  have kept : (table.entries.map (updated term entry)).map keyOf = table.entries.map keyOf := by
    simp [Function.comp_def]
  constructor
  · intro key
    dsimp only
    rw [kept, reflects.keys, List.map_append, List.mem_append]
    refine ⟨.inl, fun stored => stored.elim id fun new => ?_⟩
    rw [List.mem_singleton.mp new]
    exact (reflects.keys _).mp held
  · dsimp only
    rw [kept]
    exact reflects.distinct
  · intro stored member
    obtain ⟨earlier, inside, rfl⟩ := List.mem_map.mp member
    rw [lastResult?_append, keyOf_updated, updated]
    by_cases same : keyOf (term, entry) = keyOf earlier
    · rw [if_pos same, if_pos same.symm]
    · rw [if_neg same, if_neg (Ne.symm same)]
      exact reflects.results earlier inside
  · dsimp only
    rw [List.length_map]
    exact reflects.count

theorem extend (reflects : table.Reflects stores)
    (new : keyOf (term, entry) ∉ table.entries.map keyOf) :
    Reflects
      { table with
        entries := table.entries ++ [(term, entry)]
        entryCount := table.entryCount + 1 }
      (stores ++ [(term, entry)]) := by
  constructor
  · intro key
    simp only [List.map_append, List.mem_append, reflects.keys]
  · dsimp only
    rw [List.map_append, List.nodup_append]
    refine ⟨reflects.distinct, List.nodup_singleton _, fun key member other last same => ?_⟩
    rw [same, List.mem_singleton.mp last] at member
    exact new member
  · intro stored member
    rw [lastResult?_append]
    rcases List.mem_append.mp member with earlier | last
    · rw [if_neg]
      · exact reflects.results stored earlier
      · intro same
        rw [same] at new
        exact new (List.mem_map_of_mem earlier)
    · rw [List.mem_singleton.mp last, if_pos rfl]
  · dsimp only
    rw [List.length_append, reflects.count]
    rfl

theorem store (reflects : table.Reflects stores) (term : Term) (entry : Entry) :
    (table.store term entry).Reflects (stores ++ [(term, entry)]) := by
  have any_iff : table.entries.any (holds term entry) = true ↔
      keyOf (term, entry) ∈ table.entries.map keyOf := by
    simp only [List.any_eq_true, holds_iff, List.mem_map]
  rw [Table.store]
  split
  · rename_i held
    exact reflects.replace (any_iff.mp held)
  · rename_i absent
    exact reflects.extend fun held => absent (any_iff.mpr held)

theorem change (reflects : table.Reflects stores) (change : Change) :
    (table.change change).Reflects (change.after stores) := by
  cases change with
  | store term entry => exact reflects.store term entry
  | clear => exact clear table

theorem changes (reflects : table.Reflects stores) (changes : List Change) :
    (changes.foldl Table.change table).Reflects (changes.foldl Change.after stores) := by
  induction changes generalizing table stores with
  | nil => exact reflects
  | cons change changes ih => exact ih (reflects.change change)

end Reflects

/-! ## Looking up -/

theorem specificity_le_of_mostSpecific {entries : List Entry} {best : Entry}
    (found : mostSpecific entries = some best) :
    ∀ entry ∈ entries, entry.specificity ≤ best.specificity := by
  induction entries generalizing best with
  | nil => simp
  | cons first entries ih =>
      rw [mostSpecific] at found
      cases rest : mostSpecific entries with
      | none =>
          have empty : entries = [] := by
            by_contra nonempty
            obtain ⟨entry, member⟩ := List.exists_mem_of_ne_nil _ nonempty
            have some := mostSpecific_isSome member
            rw [rest] at some
            contradiction
          rw [rest] at found
          cases found
          simp [empty]
      | some other =>
          have below := ih rest
          rw [rest] at found
          dsimp only at found
          rw [List.forall_mem_cons]
          split at found
          · cases found
            exact ⟨Nat.le_refl _, fun entry member => by have := below entry member; omega⟩
          · cases found
            exact ⟨by omega, below⟩

theorem specificity_le_of_lookup {best : Entry}
    (found : table.lookup term bindings = some best) {stored : Term × Entry}
    (held : stored ∈ table.entries) (same : stored.1.equal term = true)
    (fits : stored.2.FitsIn bindings) : stored.2.specificity ≤ best.specificity := by
  apply specificity_le_of_mostSpecific found
  rw [List.mem_filter, Entry.isSatisfiedBy_iff, entriesOf, List.mem_map]
  exact ⟨⟨stored, List.mem_filter.mpr ⟨held, same⟩, rfl⟩, fits⟩

namespace Reflects

variable {stores : List (Term × Entry)}

theorem bijOn (reflects : table.Reflects stores) :
    Set.BijOn keyOf {stored | stored ∈ table.entries}
      {key | ∃ stored ∈ stores, keyOf stored = key} := by
  refine ⟨fun stored member => ?_, fun stored member other member' => ?_, fun key kept => ?_⟩
  · exact List.mem_map.mp ((reflects.keys _).mp (List.mem_map_of_mem member))
  · exact List.inj_on_of_nodup_map reflects.distinct member member'
  · exact List.mem_map.mp ((reflects.keys key).mpr (List.mem_map.mpr kept))

theorem card_keys (reflects : table.Reflects stores) :
    (stores.map keyOf).toFinset.card = table.entryCount := by
  have same : (stores.map keyOf).toFinset = (table.entries.map keyOf).toFinset := by
    ext key
    rw [List.mem_toFinset, List.mem_toFinset, reflects.keys]
  rw [same, List.toFinset_card_of_nodup reflects.distinct, List.length_map, reflects.count]

theorem exists_entry (reflects : table.Reflects stores) {stored : Term × Entry}
    (member : stored ∈ stores) : ∃ held ∈ table.entries, keyOf held = keyOf stored :=
  List.mem_map.mp ((reflects.keys _).mpr (List.mem_map_of_mem member))

theorem lookup_isSome_iff (reflects : table.Reflects stores) :
    (table.lookup term bindings).isSome = true ↔
      ∃ stored ∈ stores, stored.1.equal term = true ∧ stored.2.FitsIn bindings := by
  constructor
  · intro served
    obtain ⟨entry, found⟩ := Option.isSome_iff_exists.mp served
    obtain ⟨key, held, same, satisfied⟩ := exists_of_lookup found
    obtain ⟨stored, member, keys⟩ := reflects.bijOn.mapsTo held
    refine ⟨stored, member, Term.equal_trans (keyOf_eq_iff.mp keys).1 same, ?_⟩
    exact fitsIn_of_keyOf_eq keys (Entry.isSatisfiedBy_iff.mp satisfied)
  · rintro ⟨stored, member, same, fits⟩
    obtain ⟨held, inside, keys⟩ := reflects.exists_entry member
    have satisfied := Entry.isSatisfiedBy_iff.mpr (fitsIn_of_keyOf_eq keys fits)
    exact lookup_isSome inside (Term.equal_trans (keyOf_eq_iff.mp keys).1 same) satisfied

theorem of_lookup (reflects : table.Reflects stores)
    (found : table.lookup term bindings = some entry) :
    (∃ stored ∈ stores, keyOf stored = keyOf (term, entry)) ∧
      lastResult? stores (keyOf (term, entry)) = some entry.result ∧
      entry.FitsIn bindings := by
  obtain ⟨key, held, same, satisfied⟩ := exists_of_lookup found
  have keys : keyOf (key, entry) = keyOf (term, entry) :=
    keyOf_eq_iff.mpr ⟨same, Bindings.equal_refl _, rfl⟩
  rw [← keys]
  exact ⟨reflects.bijOn.mapsTo held, reflects.results _ held,
    Entry.isSatisfiedBy_iff.mp satisfied⟩

theorem specificity_le (reflects : table.Reflects stores)
    (found : table.lookup term bindings = some entry) {stored : Term × Entry}
    (member : stored ∈ stores) (same : stored.1.equal term = true)
    (fits : stored.2.FitsIn bindings) : stored.2.specificity ≤ entry.specificity := by
  obtain ⟨held, inside, keys⟩ := reflects.exists_entry member
  rw [← specificity_eq_of_keyOf_eq keys]
  exact specificity_le_of_lookup found inside
    (Term.equal_trans (keyOf_eq_iff.mp keys).1 same) (fitsIn_of_keyOf_eq keys fits)

end Reflects

/-! ## Every history -/

def afterChanges (changes : List Change) : Table :=
  changes.foldl change empty

/-- Whatever was stored and cleared, the entries of a table and the keys under which
something was stored since the last clearing correspond one to one, each entry has the
result stored last under its key, and the table counts these keys.  A lookup finds
something exactly if one of the keys belongs to the term and has conditions that hold,
and what it finds is under such a key with the most conditions. -/
theorem afterChanges_isMap (changes : List Change) :
    Set.BijOn keyOf {stored | stored ∈ (afterChanges changes).entries}
        {key | ∃ stored ∈ Change.stores changes, keyOf stored = key} ∧
      (∀ stored ∈ (afterChanges changes).entries,
        lastResult? (Change.stores changes) (keyOf stored) = some stored.2.result) ∧
      (afterChanges changes).entryCount = (afterChanges changes).entries.length ∧
      (afterChanges changes).entryCount =
        ((Change.stores changes).map keyOf).toFinset.card ∧
      ∀ term bindings,
        (((afterChanges changes).lookup term bindings).isSome = true ↔
          ∃ stored ∈ Change.stores changes,
            stored.1.equal term = true ∧ stored.2.FitsIn bindings) ∧
        ∀ entry, (afterChanges changes).lookup term bindings = some entry →
          (∃ stored ∈ Change.stores changes, keyOf stored = keyOf (term, entry)) ∧
          lastResult? (Change.stores changes) (keyOf (term, entry)) = some entry.result ∧
          entry.FitsIn bindings ∧
          ∀ stored ∈ Change.stores changes, stored.1.equal term = true →
            stored.2.FitsIn bindings → stored.2.specificity ≤ entry.specificity := by
  have reflects : (afterChanges changes).Reflects (Change.stores changes) :=
    (Reflects.clear empty).changes changes
  refine ⟨reflects.bijOn, reflects.results, reflects.count, reflects.card_keys.symm, ?_⟩
  intro term bindings
  refine ⟨reflects.lookup_isSome_iff, fun entry found => ?_⟩
  obtain ⟨stored, last, fits⟩ := reflects.of_lookup found
  exact ⟨stored, last, fits, fun _ => reflects.specificity_le found⟩

def listCall : Term :=
  .application ⟨some "sys", "list"⟩ [.symbol ⟨none, "x"⟩]

def entryForOne (spelling : Decimal) (result : Int) : Entry :=
  ⟨.ofList [(⟨none, "x"⟩, .decimal spelling)], .empty, .integer result⟩

def storedTwice : List Change :=
  [.store listCall (entryForOne ⟨1, 0⟩ 1), .clear, .store listCall (entryForOne ⟨10, 1⟩ 2),
    .store listCall ⟨.empty, .empty, .integer 3⟩,
    .store listCall (entryForOne ⟨100, 2⟩ 4)]

theorem afterChanges_isMap_storedTwice :
    (afterChanges storedTwice).entryCount = 2 ∧
      ((Change.stores storedTwice).map keyOf).toFinset.card = 2 ∧
      ∃ entry,
        (afterChanges storedTwice).lookup listCall
            (.ofList [(⟨none, "x"⟩, .decimal ⟨1, 0⟩)]) = some entry ∧
          lastResult? (Change.stores storedTwice) (keyOf (listCall, entry)) =
            some (.integer 4) ∧
          1 ≤ entry.specificity := by
  obtain ⟨-, -, -, count, lookups⟩ := afterChanges_isMap storedTwice
  obtain ⟨served, best⟩ := lookups listCall (.ofList [(⟨none, "x"⟩, .decimal ⟨1, 0⟩)])
  have entries : (afterChanges storedTwice).entryCount = 2 := rfl
  have member : (listCall, entryForOne ⟨100, 2⟩ 4) ∈ Change.stores storedTwice :=
    .tail _ (.tail _ (.head _))
  have fits : (entryForOne ⟨100, 2⟩ 4).FitsIn (.ofList [(⟨none, "x"⟩, .decimal ⟨1, 0⟩)]) :=
    Entry.isSatisfiedBy_iff.mp (by decide)
  obtain ⟨entry, found⟩ := Option.isSome_iff_exists.mp
    (served.mpr ⟨_, member, Term.equal_refl _, fits⟩)
  obtain ⟨-, last, -, most⟩ := best entry found
  have specific := most _ member (Term.equal_refl _) fits
  refine ⟨entries, count.symm.trans entries, entry, found, ?_, specific⟩
  cases found
  exact last

end Table

end TracedEval.Cache
