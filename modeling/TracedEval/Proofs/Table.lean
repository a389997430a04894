import TracedEval.Cache.Table
import TracedEval.Proofs.Environment

/-!
# Laws of the table

What is found among the stored entries, what storing leaves there, and which parts
of the table each operation leaves alone.
-/

namespace TracedEval.Cache.Table

variable {table : Table} {term : Term} {entry : Entry} {bindings : Bindings}

/-! ## Stored entries -/

theorem mem_of_mostSpecific {entries : List Entry}
    (best : mostSpecific entries = some entry) : entry ∈ entries := by
  induction entries generalizing entry with
  | nil => contradiction
  | cons first entries ih =>
      rw [mostSpecific] at best
      split at best
      · cases best
        exact List.mem_cons_self
      · rename_i other found
        split at best
        · cases best
          exact List.mem_cons_self
        · cases best
          exact List.mem_cons_of_mem _ (ih found)

theorem mostSpecific_isSome {entries : List Entry} (member : entry ∈ entries) :
    (mostSpecific entries).isSome := by
  cases entries with
  | nil => contradiction
  | cons first entries =>
      rw [mostSpecific]
      split
      · rfl
      · split <;> rfl

theorem exists_of_lookup (found : table.lookup term bindings = some entry) :
    ∃ key, (key, entry) ∈ table.entries ∧ key.equal term = true ∧
      entry.isSatisfiedBy bindings = true := by
  have member := mem_of_mostSpecific found
  rw [List.mem_filter, entriesOf, List.mem_map] at member
  obtain ⟨⟨⟨key, stored⟩, held, rfl⟩, satisfied⟩ := member
  obtain ⟨held, same⟩ := List.mem_filter.mp held
  exact ⟨key, held, same, satisfied⟩

theorem lookup_of_admission {thread : ThreadId}
    (told : (table.admission thread term bindings).1 = .hit entry) :
    table.lookup term bindings = some entry := by
  rw [admission] at told
  cases found : table.lookup term bindings with
  | some other =>
      rw [found] at told
      cases told
      rfl
  | none =>
      rw [found] at told
      dsimp only at told
      split at told
      · contradiction
      · split at told <;> contradiction

theorem lookup_isSome {key : Term} (held : (key, entry) ∈ table.entries)
    (same : key.equal term = true) (satisfied : entry.isSatisfiedBy bindings = true) :
    (table.lookup term bindings).isSome := by
  have member : entry ∈ table.entriesOf term :=
    List.mem_map.mpr ⟨(key, entry), List.mem_filter.mpr ⟨held, same⟩, rfl⟩
  exact mostSpecific_isSome (List.mem_filter.mpr ⟨member, satisfied⟩)

structure Stands (term : Term) (entry : Entry) (stored : Term × Entry) : Prop where
  term : stored.1.equal term = true
  dependencies : stored.2.dependencies.equal entry.dependencies = true
  unboundSymbols : stored.2.unboundSymbols = entry.unboundSymbols
  result : stored.2.result = entry.result

theorem Stands.of_holds {stored : Term × Entry}
    (held : holds term entry stored = true) :
    Stands term entry (stored.1, { stored.2 with result := entry.result }) := by
  simp only [holds, Entry.sameConditions, Bool.and_eq_true, beq_iff_eq] at held
  exact ⟨held.1, held.2.1, held.2.2, rfl⟩

theorem Stands.refl (term : Term) (entry : Entry) : Stands term entry (term, entry) :=
  ⟨Term.equal_refl term, Bindings.equal_refl _, rfl, rfl⟩

theorem mem_replaceResult {entries : List (Term × Entry)} {stored : Term × Entry}
    (member : stored ∈ replaceResult term entry entries) :
    stored ∈ entries ∨ ∃ previous ∈ entries, holds term entry previous = true ∧
      stored = (previous.1, { previous.2 with result := entry.result }) := by
  induction entries with
  | nil => contradiction
  | cons first entries ih =>
      rw [replaceResult] at member
      split at member
      · rename_i held
        rcases List.mem_cons.mp member with rfl | later
        · exact .inr ⟨first, List.mem_cons_self, held, rfl⟩
        · exact .inl (List.mem_cons_of_mem _ later)
      · rcases List.mem_cons.mp member with rfl | later
        · exact .inl List.mem_cons_self
        · rcases ih later with earlier | ⟨previous, inside, replaced⟩
          · exact .inl (List.mem_cons_of_mem _ earlier)
          · exact .inr ⟨previous, List.mem_cons_of_mem _ inside, replaced⟩

theorem mem_store_cases {stored : Term × Entry}
    (member : stored ∈ (table.store term entry).entries) :
    stored ∈ table.entries ∨ stored = (term, entry) ∨
      ∃ previous ∈ table.entries, holds term entry previous = true ∧
        stored = (previous.1, { previous.2 with result := entry.result }) := by
  rw [store] at member
  split at member
  · exact (mem_replaceResult member).imp_right .inr
  · exact (List.mem_append.mp member).imp_right fun new => .inl (List.mem_singleton.mp new)

theorem mem_store {stored : Term × Entry}
    (member : stored ∈ (table.store term entry).entries) :
    stored ∈ table.entries ∨ Stands term entry stored := by
  rcases mem_store_cases member with earlier | rfl | ⟨previous, -, held, rfl⟩
  · exact .inl earlier
  · exact .inr (.refl term entry)
  · exact .inr (.of_holds held)

theorem exists_replaceResult {entries : List (Term × Entry)}
    (held : entries.any (holds term entry) = true) :
    ∃ stored ∈ replaceResult term entry entries, Stands term entry stored := by
  induction entries with
  | nil => contradiction
  | cons first entries ih =>
      rw [replaceResult]
      split
      · rename_i here
        exact ⟨_, List.mem_cons_self, .of_holds here⟩
      · rename_i other
        rw [List.any_cons, Bool.or_eq_true] at held
        obtain ⟨stored, member, stands⟩ := ih (held.resolve_left other)
        exact ⟨stored, List.mem_cons_of_mem _ member, stands⟩

theorem exists_store (table : Table) (term : Term) (entry : Entry) :
    ∃ stored ∈ (table.store term entry).entries, Stands term entry stored := by
  rw [store]
  split
  · rename_i held
    exact exists_replaceResult held
  · exact ⟨(term, entry), by simp, .refl term entry⟩

theorem exists_replaceResult_of_mem {entries : List (Term × Entry)}
    {stored : Term × Entry} (member : stored ∈ entries) :
    ∃ result, (stored.1, { stored.2 with result }) ∈
      replaceResult term entry entries := by
  induction entries with
  | nil => contradiction
  | cons first entries ih =>
      rw [replaceResult]
      rcases List.mem_cons.mp member with rfl | later
      · split
        · exact ⟨entry.result, List.mem_cons_self⟩
        · exact ⟨stored.2.result, List.mem_cons_self⟩
      · split
        · exact ⟨stored.2.result, List.mem_cons_of_mem _ later⟩
        · obtain ⟨result, member⟩ := ih later
          exact ⟨result, List.mem_cons_of_mem _ member⟩

theorem exists_store_of_mem {stored : Term × Entry} (member : stored ∈ table.entries) :
    ∃ result, (stored.1, { stored.2 with result }) ∈
      (table.store term entry).entries := by
  rw [store]
  split
  · exact exists_replaceResult_of_mem member
  · exact ⟨stored.2.result, List.mem_append_left _ member⟩

@[simp] theorem store_inFlight (table : Table) (term : Term) (entry : Entry) :
    (table.store term entry).inFlight = table.inFlight := by
  rw [store]
  split <;> rfl

@[simp] theorem store_waiting (table : Table) (term : Term) (entry : Entry) :
    (table.store term entry).waiting = table.waiting := by
  rw [store]
  split <;> rfl

@[simp] theorem admission_entries (table : Table) (thread : ThreadId) (term : Term)
    (bindings : Bindings) :
    (table.admission thread term bindings).2.entries = table.entries := by
  rw [admission]
  split
  · rfl
  · split
    · rfl
    · split <;> rfl

@[simp] theorem release_entries (table : Table) (term : Term) (thread : ThreadId) :
    (table.release term thread).entries = table.entries := by
  rw [release]
  split <;> rfl

@[simp] theorem release_entryCount (table : Table) (term : Term) (thread : ThreadId) :
    (table.release term thread).entryCount = table.entryCount := by
  rw [release]
  split <;> rfl

@[simp] theorem release_waiting (table : Table) (term : Term) (thread : ThreadId) :
    (table.release term thread).waiting = table.waiting := by
  rw [release]
  split <;> rfl

theorem lookup_congr {term' : Term} (same : term.equal term' = true)
    (bindings : Bindings) :
    table.lookup term bindings = table.lookup term' bindings := by
  simp only [lookup, entriesOf, Term.equal_congr same]

theorem Stands.isSatisfiedBy {stored : Term × Entry} (stands : Stands term entry stored)
    (satisfied : entry.isSatisfiedBy bindings = true) :
    stored.2.isSatisfiedBy bindings = true := by
  rw [Entry.isSatisfiedBy, Bool.and_eq_true] at satisfied ⊢
  exact ⟨Bindings.isSatisfiedBy_of_equal stands.dependencies satisfied.1,
    stands.unboundSymbols ▸ satisfied.2⟩

theorem lookup_store_isSome (table : Table) (term : Term)
    (satisfied : entry.isSatisfiedBy bindings = true) :
    ((table.store term entry).lookup term bindings).isSome := by
  obtain ⟨stored, member, stands⟩ := exists_store table term entry
  exact lookup_isSome member stands.term (stands.isSatisfiedBy satisfied)

theorem lookup_isSome_of_store {term' : Term}
    (served : (table.lookup term bindings).isSome) :
    ((table.store term' entry).lookup term bindings).isSome := by
  obtain ⟨best, found⟩ := Option.isSome_iff_exists.mp served
  obtain ⟨key, member, same, satisfied⟩ := exists_of_lookup found
  obtain ⟨result, member⟩ := exists_store_of_mem member
  exact lookup_isSome member same satisfied

/-! ## Claims -/

def DistinctClaims (table : Table) : Prop :=
  table.inFlight.Pairwise fun claim other => claim.1.equal other.1 = false

theorem mem_of_ownerOf? {owner : ThreadId} (owned : table.ownerOf? term = some owner) :
    ∃ key, (key, owner) ∈ table.inFlight ∧ key.equal term = true := by
  rw [ownerOf?, Option.map_eq_some_iff] at owned
  obtain ⟨⟨key, thread⟩, found, rfl⟩ := owned
  have same : key.equal term = true := by simpa using List.find?_some found
  exact ⟨key, List.mem_of_find?_eq_some found, same⟩

theorem ownerOf?_congr {term' : Term} (same : term.equal term' = true) :
    table.ownerOf? term = table.ownerOf? term' := by
  simp only [ownerOf?, Term.equal_congr same]

theorem ownerOf?_isSome_iff :
    (table.ownerOf? term).isSome ↔
      ∃ claim ∈ table.inFlight, claim.1.equal term = true := by
  rw [ownerOf?, Option.isSome_map, List.find?_isSome]

theorem ownerOf?_of_mem {claim : Term × ThreadId} (distinct : table.DistinctClaims)
    (member : claim ∈ table.inFlight) (same : claim.1.equal term = true) :
    table.ownerOf? term = some claim.2 := by
  rw [ownerOf?]
  rw [DistinctClaims] at distinct
  generalize table.inFlight = claims at distinct member ⊢
  induction claims with
  | nil => contradiction
  | cons first claims ih =>
      obtain ⟨apart, distinct⟩ := List.pairwise_cons.mp distinct
      rw [List.find?_cons]
      by_cases here : first.1.equal term = true
      · simp only [here]
        rcases List.mem_cons.mp member with rfl | later
        · rfl
        · have apart := apart claim later
          rw [Term.equal_trans here (Term.equal_symm same)] at apart
          contradiction
      · simp only [here]
        rcases List.mem_cons.mp member with rfl | later
        · exact absurd same here
        · exact ih distinct later

theorem DistinctClaims.claim (distinct : table.DistinctClaims)
    (free : table.ownerOf? term = none) (thread : ThreadId) :
    (table.claim term thread).DistinctClaims := by
  refine List.pairwise_cons.mpr ⟨fun other member => ?_, distinct⟩
  refine Bool.eq_false_iff.mpr fun same => ?_
  have owned := ownerOf?_isSome_iff.mpr ⟨other, member, Term.equal_symm same⟩
  rw [free] at owned
  contradiction

theorem DistinctClaims.release (distinct : table.DistinctClaims) (term : Term)
    (thread : ThreadId) : (table.release term thread).DistinctClaims := by
  rw [Table.release]
  split
  · exact List.Pairwise.filter _ distinct
  · exact distinct

theorem mem_release {claim : Term × ThreadId} {thread : ThreadId}
    (member : claim ∈ (table.release term thread).inFlight) :
    claim ∈ table.inFlight := by
  rw [release] at member
  split at member
  · exact (List.mem_filter.mp member).1
  · exact member

theorem mem_release_of_ne {claim : Term × ThreadId} {thread : ThreadId}
    (member : claim ∈ table.inFlight) (apart : claim.1.equal term = false) :
    claim ∈ (table.release term thread).inFlight := by
  rw [release]
  split
  · exact List.mem_filter.mpr ⟨member, by simp [apart]⟩
  · exact member

theorem apart_of_mem_release {claim : Term × ThreadId} (distinct : table.DistinctClaims)
    (member : claim ∈ (table.release term claim.2).inFlight) :
    claim.1.equal term = false := by
  rw [release] at member
  split at member
  · simpa using (List.mem_filter.mp member).2
  · rename_i other
    exact Bool.eq_false_iff.mpr fun same =>
      other (ownerOf?_of_mem distinct member same)

theorem ownerOf?_congr_inFlight {table' : Table}
    (same : table'.inFlight = table.inFlight) (term : Term) :
    table'.ownerOf? term = table.ownerOf? term := by
  rw [ownerOf?, ownerOf?, same]

theorem ownerOf?_claim_of_some {term' : Term} {owner : ThreadId}
    (owned : table.ownerOf? term' = some owner) (free : table.ownerOf? term = none)
    (thread : ThreadId) : (table.claim term thread).ownerOf? term' = some owner := by
  have apart : term.equal term' = false := by
    refine Bool.eq_false_iff.mpr fun same => ?_
    rw [ownerOf?_congr same, owned] at free
    contradiction
  rw [← owned, ownerOf?, ownerOf?, claim, List.find?_cons_of_neg (by simp [apart])]

theorem ownerOf?_release_of_ne {term' : Term} {owner thread : ThreadId}
    (distinct : table.DistinctClaims) (owned : table.ownerOf? term' = some owner)
    (apart : owner ≠ thread) : (table.release term thread).ownerOf? term' = some owner := by
  obtain ⟨key, member, same⟩ := mem_of_ownerOf? owned
  cases here : key.equal term with
  | true =>
      have other : table.ownerOf? term ≠ some thread := by
        rw [ownerOf?_of_mem distinct member here]
        exact fun own => apart (Option.some.inj own)
      rw [release, if_neg other]
      exact owned
  | false =>
      exact ownerOf?_of_mem (distinct.release term thread)
        (mem_release_of_ne member here) same

theorem isWaitingOn_self (table : Table) (thread : ThreadId) :
    table.isWaitingOn thread thread = true := by
  rw [isWaitingOn, reaches, if_pos rfl]

end TracedEval.Cache.Table
