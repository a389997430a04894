import TracedEval.Proofs.Reading.Rereading
import TracedEval.Stored

/-!
# Stored terms are read back

Storing a term loses nothing that counts: what is read back is equal to the term, with
decimals perhaps in another spelling.  A set or a map is built anew from its parts and
lies in the same order again, because its parts are equal to sorted ones.

Names are stored as texts.  A symbol whose text is empty is refused, and a keyword is
taken for another one if its name begins with a colon; every other name that its own
text means comes back.
-/

namespace TracedEval

/-- The text of the symbol is accepted, and means the symbol. -/
structure Symbol.Storable (symbol : Symbol) : Prop where
  nonempty : symbol.text ≠ ""
  parsed : ofText symbol.text = symbol

/-- The name of the keyword is accepted, and means the keyword. -/
structure Keyword.Storable (keyword : Keyword) : Prop where
  nonempty : keyword.qualifiedName ≠ ""
  bare : keyword.symbol.chars.head? ≠ some ':'
  parsed : ofText keyword.qualifiedName = keyword

namespace Stored

theorem mapM_eq_some_iff {α β : Type} {read : α → Option β} {items : List α}
    {values : List β} :
    items.mapM read = some values ↔
      List.Forall₂ (fun item value => read item = some value) items values := by
  induction items generalizing values with
  | nil => cases values <;> simp
  | cons item items ih =>
      simp only [List.mapM_cons, Option.bind_eq_bind, Option.bind_eq_some_iff,
        Option.pure_def, Option.some.injEq, ih, List.forall₂_cons_left_iff]
      constructor
      · rintro ⟨value, first, values, rest, rfl⟩
        exact ⟨value, values, first, rest, rfl⟩
      · rintro ⟨value, values, first, rest, rfl⟩
        exact ⟨value, first, values, rest, rfl⟩

/-! ## Integers -/

theorem ofWords_words {bound value : Nat} (within : value ≤ bound) :
    ofWords (words bound value) = value := by
  induction bound generalizing value with
  | zero =>
      obtain rfl := Nat.le_zero.mp within
      rfl
  | succ bound ih =>
      rw [words]
      split
      · rename_i zero
        exact zero.symm
      · rename_i nonzero
        have smaller : value / wordBase < value :=
          Nat.div_lt_self (Nat.pos_of_ne_zero nonzero) (by decide)
        have rest := @ih (value / wordBase) (by omega)
        rw [ofWords] at rest ⊢
        rw [List.foldr_cons, rest, Nat.mod_add_div]

theorem lt_of_mem_words {bound value digit : Nat} (member : digit ∈ words bound value) :
    digit < wordBase := by
  induction bound generalizing value with
  | zero => contradiction
  | succ bound ih =>
      rw [words] at member
      split at member
      · contradiction
      · rcases List.mem_cons.mp member with rfl | member
        · exact Nat.mod_lt _ (by decide)
        · exact ih member

theorem wordOf_ofInt {digit : Nat} (within : digit < wordBase) :
    wordOf (.ofInt digit) = some digit := by
  rw [Json.ofInt, wordOf, if_pos (by omega), Int.toNat_natCast]

theorem mapM_wordOf {digits : List Nat} (within : ∀ digit ∈ digits, digit < wordBase) :
    (digits.map fun (digit : Nat) => Json.ofInt digit).mapM wordOf = some digits := by
  rw [mapM_eq_some_iff, List.forall₂_map_left_iff, List.forall₂_same]
  exact fun digit member => wordOf_ofInt (within digit member)

theorem integerOf_integerJson (value : Int) : integerOf (integerJson value) = some value := by
  have digits := mapM_wordOf fun _ => @lt_of_mem_words value.natAbs value.natAbs _
  have sign : value.sign = 0 ∨ value.sign = 1 ∨ value.sign = -1 := by
    rcases Int.sign_trichotomy value with one | zero | minus
    · exact .inr (.inl one)
    · exact .inl zero
    · exact .inr (.inr minus)
  rw [integerJson, Json.ofInt, integerOf, digits]
  simp only [Option.bind_eq_bind, Option.bind_some, if_pos sign,
    ofWords_words (Nat.le_refl _), Int.sign_mul_natAbs]
  rfl

/-! ## Other leaves -/

theorem decimalOf_text (value : Decimal) :
    decimalOf (.string value.text) = some value.expanded := by
  rw [decimalOf, Decimal.text, String.toList_ofList, Decimal.ofChars_chars]

theorem characterOf_singleton (value : Char) :
    characterOf (.string (String.ofList [value])) = some value := by
  simp [characterOf, stringOf]

theorem symbolOf_text_eq_some_iff {symbol read : Symbol} :
    symbolOf (.string symbol.text) = some read ↔
      symbol.text ≠ "" ∧ read = Symbol.ofText symbol.text := by
  by_cases empty : symbol.text = "" <;>
    simp [symbolOf, stringOf, Symbol.ofText?, empty, @eq_comm _ read]

theorem symbolOf_text {symbol : Symbol} (storable : symbol.Storable) :
    symbolOf (.string symbol.text) = some symbol :=
  symbolOf_text_eq_some_iff.mpr ⟨storable.nonempty, storable.parsed.symm⟩

theorem keywordOf_text_eq_some_iff {keyword read : Keyword} :
    keywordOf (.string keyword.text) = some read ↔
      keyword.symbol.chars ≠ [] ∧ read = keyword.reparsed := by
  rw [Keyword.reparsed, Keyword.ofText, Keyword.qualifiedName, Symbol.text,
    String.toList_ofList]
  cases name : keyword.symbol.chars with
  | nil => simp [keywordOf, stringOf, Keyword.ofText?, Keyword.text, Keyword.chars, name]
  | cons char chars =>
      simp [keywordOf, stringOf, Keyword.ofText?, Keyword.text, Keyword.chars, name,
        @eq_comm _ read]

theorem keywordOf_text {keyword : Keyword} (storable : keyword.Storable) :
    keywordOf (.string keyword.text) = some keyword := by
  refine keywordOf_text_eq_some_iff.mpr ⟨fun empty => storable.nonempty ?_, ?_⟩
  · rw [Keyword.qualifiedName, Symbol.text, empty, String.ofList_nil]
  · exact storable.parsed.symm

theorem errorOf_errorJson (value : ErrorValue) : errorOf (errorJson value) = some value := by
  simp [errorOf, errorJson, pairOf, required, uniqueMember, stringOf]

end Stored

open Stored

namespace Json

theorem depth_le_depthAll {json : Json} {items : List Json} (member : json ∈ items) :
    json.depth ≤ depthAll items := by
  induction items with
  | nil => contradiction
  | cons item items ih =>
      rw [depthAll]
      rcases List.mem_cons.mp member with rfl | member
      · exact Nat.le_max_left _ _
      · exact Nat.le_trans (ih member) (Nat.le_max_right _ _)

theorem depth_le_depthMembers {member : String × Json} {members : List (String × Json)}
    (inside : member ∈ members) : member.2.depth ≤ depthMembers members := by
  induction members with
  | nil => contradiction
  | cons head tail ih =>
      rw [depthMembers]
      rcases List.mem_cons.mp inside with rfl | inside
      · exact Nat.le_max_left _ _
      · exact Nat.le_trans (ih inside) (Nat.le_max_right _ _)

end Json

namespace Term

/-! ## The stored form of a collection -/

theorem toStoredItems_eq (items : List Term) : toStoredItems items = items.map toStored := by
  induction items with
  | nil => rfl
  | cons item items ih => rw [toStoredItems, ih, List.map_cons]

theorem toStoredEntries_eq (entries : List (Term × Term)) :
    toStoredEntries entries =
      entries.map fun entry => .array [entry.1.toStored, entry.2.toStored] := by
  induction entries with
  | nil => rfl
  | cons entry entries ih => rw [toStoredEntries, ih, List.map_cons]

theorem depth_toStored_le {items : List Term} {item : Term} (member : item ∈ items) :
    item.toStored.depth ≤ Json.depthAll (toStoredItems items) := by
  rw [toStoredItems_eq]
  exact Json.depth_le_depthAll (List.mem_map_of_mem member)

theorem depth_toStored_child {term child : Term} (member : child ∈ term.children) :
    child.toStored.depth < term.toStored.depth := by
  cases term with
  | list | set =>
      have within := depth_toStored_le member
      simp only [children] at within
      simp only [toStored, tagged, Json.depth, Json.depthMembers]
      omega
  | map entries =>
      obtain ⟨entry, inside, same⟩ := mem_children_map.mp member
      have whole := Json.depth_le_depthAll
        (List.mem_map_of_mem (f := fun entry : Term × Term =>
          Json.array [entry.1.toStored, entry.2.toStored]) inside)
      rw [← toStoredEntries_eq] at whole
      simp only [Json.depth, Json.depthAll] at whole
      simp only [toStored, tagged, Json.depth, Json.depthMembers]
      rcases same with rfl | rfl <;> omega
  | application =>
      have within := depth_toStored_le member
      simp only [children] at within
      simp only [toStored, tagged, Json.depth, Json.depthMembers]
      omega
  | _ => simp [children] at member

/-! ## Reading terms back -/

@[simp] theorem partsOfStored_tagged (kind : String) (value : Json) :
    partsOfStored (tagged kind value) = some (kind, value) := by
  simp [partsOfStored, tagged, required, uniqueMember, kindOf]

theorem ofStoredWithin_list (depth : Nat) (items : List Term) :
    ofStoredWithin (depth + 1) (list items).toStored =
      ((toStoredItems items).mapM (ofStoredWithin depth)).bind fun reads =>
        some (list reads) := by
  rw [toStored, ofStoredWithin, partsOfStored_tagged]
  rfl

theorem ofStoredWithin_set (depth : Nat) (elements : List Term) :
    ofStoredWithin (depth + 1) (set elements).toStored =
      ((toStoredItems elements).mapM (ofStoredWithin depth)).bind fun reads =>
        some (setOf reads) := by
  rw [toStored, ofStoredWithin, partsOfStored_tagged]
  rfl

def entryOfStored (depth : Nat) : Json → Option (Term × Term)
  | .array [key, value] => do return (← ofStoredWithin depth key, ← ofStoredWithin depth value)
  | _ => none

theorem entryOfStored_eq_some_iff {depth : Nat} {key value : Json} {read : Term × Term} :
    entryOfStored depth (.array [key, value]) = some read ↔
      ofStoredWithin depth key = some read.1 ∧ ofStoredWithin depth value = some read.2 := by
  simp only [entryOfStored, Option.bind_eq_bind, Option.bind_eq_some_iff, Option.pure_def,
    Option.some.injEq]
  constructor
  · rintro ⟨readKey, foundKey, readValue, foundValue, rfl⟩
    exact ⟨foundKey, foundValue⟩
  · exact fun ⟨foundKey, foundValue⟩ => ⟨read.1, foundKey, read.2, foundValue, rfl⟩

theorem ofStoredWithin_map (depth : Nat) (entries : List (Term × Term)) :
    ofStoredWithin (depth + 1) (map entries).toStored =
      ((toStoredEntries entries).mapM (entryOfStored depth)).bind fun reads =>
        some (map (entriesOf reads)) := by
  rw [toStored, ofStoredWithin, partsOfStored_tagged]
  rfl

theorem ofStoredWithin_application (depth : Nat) (head : Symbol) (args : List Term) :
    ofStoredWithin (depth + 1) (application head args).toStored =
      (symbolOf (.string head.text)).bind fun head =>
        ((toStoredItems args).mapM (ofStoredWithin depth)).bind fun reads =>
          some (application head reads) := by
  have parts : pairOf "symbol" "args" (.object
      [("args", .array (toStoredItems args)), ("symbol", .string head.text)]) =
      some (.string head.text, .array (toStoredItems args)) := by
    simp [pairOf, required, uniqueMember]
  rw [toStored, ofStoredWithin, partsOfStored_tagged]
  simp only [Option.bind_eq_bind, Option.bind_some, parts]
  rfl

/-- The stored term, read at most `depth` terms deep, is equal to the term. -/
def RestoredWithin (depth : Nat) (term : Term) : Prop :=
  ∃ read, ofStoredWithin depth term.toStored = some read ∧ read.compare term = .eq

section Collections

variable {depth : Nat} {items : List Term} {entries : List (Term × Term)}

theorem mapM_toStoredItems (restored : ∀ item ∈ items, RestoredWithin depth item) :
    ∃ reads, (toStoredItems items).mapM (ofStoredWithin depth) = some reads ∧
      List.Forall₂ (fun read item => read.compare item = .eq) reads items := by
  obtain ⟨reads, founds, sames⟩ := SortedList.exists_forall₂_iff.mpr restored
  refine ⟨reads, ?_, sames⟩
  rw [toStoredItems_eq, mapM_eq_some_iff, List.forall₂_map_left_iff]
  exact founds

theorem mapM_toStoredEntries
    (restored : ∀ entry ∈ entries,
      RestoredWithin depth entry.1 ∧ RestoredWithin depth entry.2) :
    ∃ reads, (toStoredEntries entries).mapM (entryOfStored depth) = some reads ∧
      List.Forall₂
        (fun read entry =>
          read.1.compare entry.1 = .eq ∧ read.2.compare entry.2 = .eq)
        reads entries := by
  have pairs : ∀ entry ∈ entries, ∃ read : Term × Term,
      entryOfStored depth (.array [entry.1.toStored, entry.2.toStored]) = some read ∧
        read.1.compare entry.1 = .eq ∧ read.2.compare entry.2 = .eq := by
    intro entry member
    obtain ⟨⟨key, foundKey, sameKey⟩, ⟨value, foundValue, sameValue⟩⟩ := restored entry member
    exact ⟨(key, value), entryOfStored_eq_some_iff.mpr ⟨foundKey, foundValue⟩, sameKey,
      sameValue⟩
  obtain ⟨reads, founds, sames⟩ := SortedList.exists_forall₂_iff.mpr pairs
  refine ⟨reads, ?_, sames⟩
  rw [toStoredEntries_eq, mapM_eq_some_iff, List.forall₂_map_left_iff]
  exact founds

theorem restored_list (restored : ∀ item ∈ items, RestoredWithin depth item) :
    RestoredWithin (depth + 1) (list items) := by
  obtain ⟨reads, founds, sames⟩ := mapM_toStoredItems restored
  refine ⟨list reads, ?_, compareAll_eq_iff.mpr sames⟩
  rw [ofStoredWithin_list, founds, Option.bind_some]

theorem restored_set (ordered : Ordered (set items))
    (restored : ∀ item ∈ items, RestoredWithin depth item) :
    RestoredWithin (depth + 1) (set items) := by
  obtain ⟨reads, founds, sames⟩ := mapM_toStoredItems restored
  refine ⟨set reads, ?_, compareAll_eq_iff.mpr sames⟩
  have sorted : setOf reads = set reads := by
    rw [setOf, SortedList.ofList_eq_self (ordered.of_forall₂ sames)]
  rw [ofStoredWithin_set, founds, Option.bind_some, sorted]

theorem restored_map (ordered : Ordered (map entries))
    (restored : ∀ entry ∈ entries,
      RestoredWithin depth entry.1 ∧ RestoredWithin depth entry.2) :
    RestoredWithin (depth + 1) (map entries) := by
  obtain ⟨reads, founds, sames⟩ := mapM_toStoredEntries restored
  refine ⟨map reads, ?_, compareEntries_eq_iff.mpr sames⟩
  have sorted : entriesOf reads = reads :=
    SortedList.ofList_eq_self (ordered.of_forall₂ (sames.imp fun _ _ same => same.1))
  rw [ofStoredWithin_map, founds, Option.bind_some, sorted]

theorem restored_application {head : Symbol} (storable : head.Storable)
    (restored : ∀ item ∈ items, RestoredWithin depth item) :
    RestoredWithin (depth + 1) (application head items) := by
  obtain ⟨reads, founds, sames⟩ := mapM_toStoredItems restored
  refine ⟨application head reads, ?_, ?_⟩
  · rw [ofStoredWithin_application, symbolOf_text storable, founds, Option.bind_some,
      Option.bind_some]
  · exact Ordering.then_eq_eq.mpr
      ⟨Std.ReflCmp.compare_self, compareAll_eq_iff.mpr sames⟩

end Collections

theorem ofStoredWithin_leaf (depth : Nat) {kind : String} {value : Json}
    (leaf : kind ∉ ["List", "Set", "Map", "Application"]) :
    ofStoredWithin (depth + 1) (tagged kind value) = leafOfStored kind value := by
  simp only [List.mem_cons, List.not_mem_nil, or_false, not_or] at leaf
  rw [ofStoredWithin, partsOfStored_tagged]
  simp only [Option.bind_eq_bind, Option.bind_some]
  split <;> simp_all

structure Storable (term : Term) : Prop where
  ordered : Everywhere Ordered term
  named : Everywhere (Named Symbol.Storable Keyword.Storable) term

theorem Storable.intro {term : Term} (ordered : Ordered term)
    (named : Named Symbol.Storable Keyword.Storable term)
    (inside : ∀ child ∈ term.children, child.Storable) : term.Storable where
  ordered := .intro ordered fun child member => (inside child member).ordered
  named := .intro named fun child member => (inside child member).named

theorem Storable.restored {term : Term} (storable : term.Storable) {depth : Nat}
    (room : term.toStored.depth < depth) : RestoredWithin depth term := by
  obtain ⟨ordered, named⟩ := storable
  induction named generalizing depth with
  | @intro term here inside ih =>
      obtain _ | depth := depth
      · contradiction
      have ih (child : Term) (member : child ∈ term.children) : RestoredWithin depth child :=
        ih child member
          (Nat.lt_of_lt_of_le (depth_toStored_child member) (Nat.le_of_lt_succ room))
          (ordered.inside child member)
      have leaf {kind : String} {value : Json} {read : Term}
          (simple : kind ∉ ["List", "Set", "Map", "Application"])
          (stored : term.toStored = tagged kind value)
          (found : leafOfStored kind value = some read) (same : read.compare term = .eq) :
          RestoredWithin (depth + 1) term := by
        refine ⟨read, ?_, same⟩
        rw [stored, ofStoredWithin_leaf depth simple, found]
      cases term with
      | nil => exact ⟨.nil, rfl, rfl⟩
      | boolean value => exact leaf (by decide) rfl rfl Std.ReflCmp.compare_self
      | integer value =>
          exact leaf (by decide) rfl
            (congrArg (Option.map integer) (integerOf_integerJson value))
            Std.ReflCmp.compare_self
      | decimal value =>
          exact leaf (by decide) rfl
            (congrArg (Option.map decimal) (decimalOf_text value)) value.compare_expanded
      | character value =>
          exact leaf (by decide) rfl
            (congrArg (Option.map character) (characterOf_singleton value))
            Std.ReflCmp.compare_self
      | string value => exact leaf (by decide) rfl rfl Std.ReflCmp.compare_self
      | keyword value =>
          exact leaf (by decide) rfl (congrArg (Option.map keyword) (keywordOf_text here))
            Std.ReflCmp.compare_self
      | symbol value =>
          exact leaf (by decide) rfl (congrArg (Option.map symbol) (symbolOf_text here))
            Std.ReflCmp.compare_self
      | error value =>
          exact leaf (by decide) rfl (congrArg (Option.map error) (errorOf_errorJson value))
            Std.ReflCmp.compare_self
      | list items => exact restored_list ih
      | set elements => exact restored_set ordered.here ih
      | map entries =>
          refine restored_map ordered.here fun entry member => ?_
          exact ⟨ih _ (mem_children_map.mpr ⟨entry, member, .inl rfl⟩),
            ih _ (mem_children_map.mpr ⟨entry, member, .inr rfl⟩)⟩
      | application head args => exact restored_application here ih

/-- Whatever the shape of a term, its stored form is read as a term that is equal to it. -/
theorem ofStored_toStored {term : Term} (storable : term.Storable) :
    ∃ read, ofStored? term.toStored = some read ∧ read.equal term = true := by
  obtain ⟨read, found, same⟩ := storable.restored (Nat.lt_succ_self _)
  exact ⟨read, found, equal_iff.mpr same⟩

def rateTable : Term :=
  .map [(.list [rateCall], .set [.integer (-4294967296), .decimal ⟨150, 2⟩])]

theorem storable_rateCall : rateCall.Storable where
  ordered := readable_rateCall.ordered
  named := readable_rateCall.named.mono fun _ => Named.mono
    (fun _ readable => ⟨readable.nonempty, readable.parsed⟩)
    fun _ readable => ⟨readable.nonempty, readable.bare, readable.parsed⟩

theorem storable_rateTable : rateTable.Storable := by
  have key : Storable (.list [rateCall]) :=
    .intro trivial trivial (List.forall_mem_singleton.mpr storable_rateCall)
  have value : Storable (.set [.integer (-4294967296), .decimal ⟨150, 2⟩]) := by
    refine .intro ?_ trivial (List.forall_mem_cons.mpr ⟨?_, List.forall_mem_singleton.mpr ?_⟩)
    · exact List.pairwise_pair.mpr (by decide)
    · exact .intro trivial trivial (by simp [children])
    · exact .intro trivial trivial (by simp [children])
  refine .intro (List.pairwise_singleton _ _) trivial ?_
  exact List.forall_mem_cons.mpr ⟨key, List.forall_mem_singleton.mpr value⟩

theorem ofStored_toStored_rateTable :
    ∃ read, ofStored? rateTable.toStored = some read ∧ read.equal rateTable = true :=
  ofStored_toStored storable_rateTable

/-! ## What cannot be read back -/

section Lost

open List

theorem keywords_of_leafOfStored {kind : String} {value : Json} {read : Term}
    (other : kind ≠ "Keyword") (found : leafOfStored kind value = some read) :
    read.keywords = [] := by
  unfold leafOfStored at found
  split at found
  case h_1 | h_2 =>
    cases found
    rfl
  case h_7 | h_10 => contradiction
  all_goals
    obtain ⟨_, -, rfl⟩ := Option.map_eq_some_iff.mp found
    rfl

def Rereads (before after : List Keyword) : Prop :=
  (∀ keyword ∈ before, keyword.symbol.chars ≠ []) ∧ after <+~ before.map Keyword.reparsed

theorem Rereads.append {before before' after after' : List Keyword}
    (first : Rereads before after) (second : Rereads before' after') :
    Rereads (before ++ before') (after ++ after') := by
  constructor
  · exact List.forall_mem_append.mpr ⟨first.1, second.1⟩
  · rw [List.map_append]
    exact first.2.append second.2

theorem rereads_flatMap {α β : Type} {items : List α} {reads : List β}
    {before : α → List Keyword} {after : β → List Keyword}
    (each : List.Forall₂ (fun item read => Rereads (before item) (after read)) items reads) :
    Rereads (items.flatMap before) (reads.flatMap after) := by
  induction each with
  | nil => exact ⟨by simp, nil_subperm⟩
  | cons first _ ih => exact first.append ih

theorem Rereads.trans_subperm {before after after' : List Keyword}
    (rereads : Rereads before after) (within : after' <+~ after) : Rereads before after' :=
  ⟨rereads.1, within.trans rereads.2⟩

section Parts

variable {depth : Nat} {items reads : List Term} {entries reads' : List (Term × Term)}

theorem rereads_items
    (each : ∀ item ∈ items, ∀ read, ofStoredWithin depth item.toStored = some read →
      Rereads item.keywords read.keywords)
    (found : (toStoredItems items).mapM (ofStoredWithin depth) = some reads) :
    Rereads (keywordsOfAll items) (reads.flatMap keywords) := by
  rw [toStoredItems_eq, mapM_eq_some_iff, List.forall₂_map_left_iff] at found
  rw [keywordsOfAll_eq]
  have paired := (List.forall₂_and_left _ _).mpr ⟨each, found⟩
  exact rereads_flatMap (paired.imp fun item read both => both.1 read both.2)

theorem rereads_entries
    (each : ∀ entry ∈ entries, ∀ child, child = entry.1 ∨ child = entry.2 →
      ∀ read, ofStoredWithin depth child.toStored = some read →
        Rereads child.keywords read.keywords)
    (found : (toStoredEntries entries).mapM (entryOfStored depth) = some reads') :
    Rereads (keywordsOfEntries entries)
      (reads'.flatMap fun entry => entry.1.keywords ++ entry.2.keywords) := by
  rw [toStoredEntries_eq, mapM_eq_some_iff, List.forall₂_map_left_iff] at found
  rw [keywordsOfEntries_eq]
  have paired := (List.forall₂_and_left _ _).mpr ⟨each, found⟩
  refine rereads_flatMap (paired.imp fun entry read both => ?_)
  obtain ⟨parts, found⟩ := both
  obtain ⟨foundKey, foundValue⟩ := entryOfStored_eq_some_iff.mp found
  exact (parts _ (.inl rfl) _ foundKey).append (parts _ (.inr rfl) _ foundValue)

end Parts

theorem rereads_of_ofStoredWithin (term : Term) : ∀ depth read,
    ofStoredWithin depth term.toStored = some read → Rereads term.keywords read.keywords := by
  induction term using childrenInduction with
  | step term ih =>
      rintro (_ | depth) read found
      · contradiction
      have leaf {kind : String} {value : Json}
          (simple : kind ∉ ["List", "Set", "Map", "Application"]) (other : kind ≠ "Keyword")
          (stored : term.toStored = tagged kind value) (nothing : term.keywords = []) :
          Rereads term.keywords read.keywords := by
        rw [stored, ofStoredWithin_leaf depth simple] at found
        rw [nothing, keywords_of_leafOfStored other found]
        exact ⟨by simp, nil_subperm⟩
      cases term with
      | nil =>
          cases found
          exact ⟨by simp [keywords], nil_subperm⟩
      | keyword value =>
          have stored : (keyword value).toStored = tagged "Keyword" (.string value.text) := rfl
          rw [stored, ofStoredWithin_leaf depth (by decide)] at found
          obtain ⟨other, accepted, rfl⟩ := Option.map_eq_some_iff.mp found
          obtain ⟨nonempty, rfl⟩ := keywordOf_text_eq_some_iff.mp accepted
          exact ⟨List.forall_mem_singleton.mpr nonempty, Subperm.refl _⟩
      | list items =>
          rw [ofStoredWithin_list] at found
          obtain ⟨reads, founds, made⟩ := Option.bind_eq_some_iff.mp found
          cases made
          rw [keywords, keywords, keywordsOfAll_eq reads]
          exact rereads_items (fun item member => ih item member depth) founds
      | set elements =>
          rw [ofStoredWithin_set] at found
          obtain ⟨reads, founds, made⟩ := Option.bind_eq_some_iff.mp found
          cases made
          rw [keywords, setOf, keywords, keywordsOfAll_eq (SortedList.ofList compare reads)]
          exact (rereads_items (fun item member => ih item member depth) founds).trans_subperm
            (flatMap_subperm _ (SortedList.ofList_subperm compare reads))
      | map entries =>
          rw [ofStoredWithin_map] at found
          obtain ⟨reads, founds, made⟩ := Option.bind_eq_some_iff.mp found
          cases made
          rw [keywords, keywords, keywordsOfEntries_eq (entriesOf reads)]
          have each := rereads_entries (fun entry member child part =>
            ih child (mem_children_map.mpr ⟨entry, member, part⟩) depth) founds
          exact each.trans_subperm (flatMap_subperm _ (SortedList.ofList_subperm _ reads))
      | application head args =>
          rw [ofStoredWithin_application] at found
          obtain ⟨head', -, found⟩ := Option.bind_eq_some_iff.mp found
          obtain ⟨reads, founds, made⟩ := Option.bind_eq_some_iff.mp found
          cases made
          rw [keywords, keywords, keywordsOfAll_eq reads]
          exact rereads_items (fun item member => ih item member depth) founds
      | _ => exact leaf (by decide) (by decide) rfl rfl

theorem RestoredWithin.unambiguous {depth : Nat} {term : Term}
    (restored : RestoredWithin depth term) :
    ∀ keyword ∈ term.keywords, keyword.Unambiguous := by
  obtain ⟨read, found, same⟩ := restored
  obtain ⟨nonempty, within⟩ := rereads_of_ofStoredWithin term depth read found
  rw [keywords_of_compare_eq read term same] at within
  exact fun keyword member =>
    ⟨nonempty keyword member, Keyword.bare_of_subperm_reparsed within keyword member⟩

end Lost

end Term

end TracedEval
