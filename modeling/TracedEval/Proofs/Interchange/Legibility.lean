import TracedEval.Proofs.Interchange.Values
import TracedEval.Proofs.Reading.Rereading

/-!
# Texts of terms that come from JSON

The names of an object are arbitrary strings.  They become keywords, which are written
without quotes, so the text of a term that comes from JSON is read as an equal term
exactly if each of its keywords is one that can be read: not empty, without a colon of
its own in front, and made of characters that a symbol may have.  A keyword with any
other character is never read at all, so it cannot come back from any text.
-/

namespace TracedEval

theorem Symbol.ofText_text_ofChars (chars : List Char) :
    ofText (ofChars chars).text = ofChars chars := by
  rw [ofText, text, String.toList_ofList, chars_ofChars]

namespace Term

/-! ## Terms that come from JSON -/

/-- What is true of every term inside a term that comes from JSON. -/
structure Exchanged (term : Term) : Prop where
  ordered : Ordered term
  keyed : KeyedByConstants term
  named : Named (fun _ => False)
    (fun keyword => Symbol.ofText keyword.symbol.text = keyword.symbol) term

theorem exchanged_keyOfName (name : String) : Exchanged (keyOfName name) where
  ordered := trivial
  keyed := trivial
  named := by
    rw [keyOfName, Keyword.ofText, Keyword.ofChars_eq]
    exact Symbol.ofText_text_ofChars _

theorem exchanged_ofJsonNumber (value : Json.Number) :
    Everywhere Exchanged (ofJsonNumber value) := by
  unfold ofJsonNumber
  split
  · exact .leaf rfl ⟨trivial, trivial, trivial⟩
  · split <;> exact .leaf rfl ⟨trivial, trivial, trivial⟩

theorem exchanged_map {entries : List (Term × Term)}
    (keys : ∀ entry ∈ entries, ∃ name, entry.1 = keyOfName name)
    (values : ∀ entry ∈ entries, Everywhere Exchanged entry.2) :
    Everywhere Exchanged (map (entriesOf entries)) := by
  constructor
  · refine ⟨SortedList.sorted_ofList entries, fun entry member => ?_, trivial⟩
    obtain ⟨name, named⟩ := keys entry (SortedList.mem_of_mem_ofList member)
    rw [named]
    rfl
  · intro child member
    obtain ⟨entry, kept, same⟩ := mem_children_map.mp member
    have entered := SortedList.mem_of_mem_ofList kept
    rcases same with rfl | rfl
    · obtain ⟨name, named⟩ := keys entry entered
      rw [named]
      exact .leaf rfl (exchanged_keyOfName name)
    · exact values entry entered

mutual

theorem exchanged_ofJson : ∀ json : Json, Everywhere Exchanged (ofJson json)
  | .null | .boolean _ | .string _ => .leaf rfl ⟨trivial, trivial, trivial⟩
  | .number value => exchanged_ofJsonNumber value
  | .array items => .intro ⟨trivial, trivial, trivial⟩ (exchanged_ofJsonItems items)
  | .object members => by
      refine exchanged_map (fun entry member => ?_) (exchanged_ofJsonMembers members)
      rw [ofJsonMembers_eq_map, List.mem_map] at member
      obtain ⟨named, -, rfl⟩ := member
      exact ⟨named.1, rfl⟩

theorem exchanged_ofJsonItems : ∀ items : List Json,
    ∀ item ∈ ofJsonItems items, Everywhere Exchanged item
  | [] => by simp [ofJsonItems]
  | item :: items => by
      rw [ofJsonItems, List.forall_mem_cons]
      exact ⟨exchanged_ofJson item, exchanged_ofJsonItems items⟩

theorem exchanged_ofJsonMembers : ∀ members : List (String × Json),
    ∀ entry ∈ ofJsonMembers members, Everywhere Exchanged entry.2
  | [] => by simp [ofJsonMembers]
  | (name, value) :: members => by
      rw [ofJsonMembers, List.forall_mem_cons]
      exact ⟨exchanged_ofJson value, exchanged_ofJsonMembers members⟩

end

theorem exchanged_of_ofJsonText {text : String} {term : Term}
    (read : ofJsonText text = .ok term) : Everywhere Exchanged term := by
  unfold ofJsonText at read
  split at read
  · cases read
    exact exchanged_ofJson _
  · contradiction

/-! ## Keywords that can be read -/

theorem Everywhere.legible {term : Term} (exchanged : Everywhere Exchanged term)
    (kept : ∀ keyword ∈ term.keywords, ∀ char ∈ keyword.symbol.chars,
      Token.isSymbolChar char = true) : Everywhere Legible term := by
  induction exchanged with
  | @intro term here inside ih =>
      constructor
      · refine ⟨here.ordered, here.keyed, ?_⟩
        have named := here.named
        cases term with
        | keyword value => exact ⟨kept value (mem_keywords.mpr (.inl rfl)), named⟩
        | symbol value => exact named.elim
        | application head args => exact named.elim
        | _ => trivial
      · intro child member
        apply ih child member
        intro keyword inner
        exact kept keyword (mem_keywords.mpr (.inr ⟨child, member, inner⟩))

theorem kept_of_reread {term reread : Term} (read : ofText term.text = .ok reread)
    (same : reread.equal term = true) :
    ∀ keyword ∈ term.keywords, ∀ char ∈ keyword.symbol.chars,
      Token.isSymbolChar char = true := by
  intro keyword member
  rw [← keywords_of_compare_eq reread term (equal_iff.mp same)] at member
  have scanned : keyword.Scanned := ((legible_of_ofText read).of_mem_keywords member).named
  exact scanned.kept

theorem readable_of_reread {term reread : Term} (exchanged : Everywhere Exchanged term)
    (read : ofText term.text = .ok reread) (same : reread.equal term = true) :
    ∀ keyword ∈ term.keywords, keyword.Readable := by
  have legible := exchanged.legible (kept_of_reread read same)
  intro keyword member
  have scanned : keyword.Scanned := (legible.of_mem_keywords member).named
  exact (unambiguous_of_reread legible read same keyword member).readable scanned

theorem readable_of_keywords {term : Term} (exchanged : Everywhere Exchanged term)
    (readable : ∀ keyword ∈ term.keywords, keyword.Readable) : term.Readable := by
  have legible := exchanged.legible fun keyword member => (readable keyword member).kept
  refine legible.readable fun keyword member => ⟨fun empty => ?_, (readable keyword member).bare⟩
  apply (readable keyword member).nonempty
  rw [Keyword.qualifiedName, Symbol.text, empty, String.ofList_nil]

/-- A term that was read from JSON is read again from its own text exactly if each of its
keywords can be read. -/
theorem reread_ofJsonText_iff {text : String} {term : Term} (read : ofJsonText text = .ok term) :
    (∃ reread, ofText term.text = .ok reread ∧ reread.equal term = true) ↔
      ∀ keyword ∈ term.keywords, keyword.Readable := by
  have exchanged := exchanged_of_ofJsonText read
  constructor
  · rintro ⟨reread, found, same⟩
    exact readable_of_reread exchanged found same
  · intro readable
    exact (readable_of_keywords exchanged readable).ofText_text

theorem ofJsonText_text {json : Json}
    (read : Json.readChars Json.depthLimit (json.write []) = .ok json) :
    ofJsonText json.text = .ok (ofJson json.collapse) := by
  rw [ofJsonText, Json.ofText, Json.text, String.toList_ofList, read]

def accented : Term :=
  .map [(.keyword ⟨none, "é"⟩, .boolean true),
    (.keyword ⟨some "a", "b"⟩, .list [.integer (-1), .string "x y"])]

theorem reread_ofJsonText_iff_accented :
    ofJsonText "\x7b\"a/b\":[-1,\"x y\"],\"é\":true\x7d" = .ok accented ∧
      ∃ reread, ofText accented.text = .ok reread ∧ reread.equal accented = true := by
  have text : "\x7b\"a/b\":[-1,\"x y\"],\"é\":true\x7d" =
      (Json.object [("a/b", .array [.ofInt (-1), .string "x y"]), ("é", .boolean true)]).text := by
    decide
  have read : ofJsonText "\x7b\"a/b\":[-1,\"x y\"],\"é\":true\x7d" = .ok accented := by
    rw [text, ofJsonText_text rfl]
    rfl
  refine ⟨read, (reread_ofJsonText_iff read).mpr ?_⟩
  have plain : Keyword.Readable ⟨⟨some "a", "b"⟩⟩ :=
    ⟨by decide, by decide, List.all_eq_true.mp (by decide), by decide⟩
  have accent : Keyword.Readable ⟨⟨none, "é"⟩⟩ :=
    ⟨by decide, by decide, List.all_eq_true.mp (by decide), by decide⟩
  simp [accented, keywords, keywordsOfEntries, keywordsOfAll, plain, accent]

/-- A name of a member can look like another entry of the map. -/
theorem reread_ne_entryName :
    ofJsonText "\x7b\"a 1, :b\":2\x7d" =
        .ok (map [(keyword ⟨none, "a 1, :b"⟩, integer 2)]) ∧
      ofText (map [(keyword ⟨none, "a 1, :b"⟩, integer 2)]).text =
        .ok (map [(keyword ⟨none, "a"⟩, integer 1), (keyword ⟨none, "b"⟩, integer 2)]) ∧
      (map [(keyword ⟨none, "a"⟩, integer 1), (keyword ⟨none, "b"⟩, integer 2)]).equal
        (map [(keyword ⟨none, "a 1, :b"⟩, integer 2)]) = false := by
  have source : "\x7b\"a 1, :b\":2\x7d" = (Json.object [("a 1, :b", .ofInt 2)]).text := by
    decide
  have text : (map [(keyword ⟨none, "a 1, :b"⟩, integer 2)]).text =
      (map [(keyword ⟨none, "a"⟩, integer 1), (keyword ⟨none, "b"⟩, integer 2)]).text := by
    decide
  have lexical : Everywhere Lexical
      (map [(keyword ⟨none, "a"⟩, integer 1), (keyword ⟨none, "b"⟩, integer 2)]) := by
    refine .intro trivial fun child member => ?_
    simp only [children, List.flatMap_cons, List.flatMap_nil, List.cons_append,
      List.nil_append, List.mem_cons, List.not_mem_nil, or_false] at member
    rcases member with rfl | rfl | rfl | rfl
    · exact .leaf rfl ⟨by decide, List.all_eq_true.mp (by decide)⟩
    · exact .leaf rfl trivial
    · exact .leaf rfl ⟨by decide, List.all_eq_true.mp (by decide)⟩
    · exact .leaf rfl trivial
  refine ⟨?_, ?_, by decide⟩
  · rw [source, ofJsonText_text rfl]
    rfl
  · rw [text, ofText_text_eq lexical]
    rfl

end Term

end TracedEval
