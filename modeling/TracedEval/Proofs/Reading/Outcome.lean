import TracedEval.Proofs.Reading.Descent
import TracedEval.Proofs.Reading.Legible
import TracedEval.Proofs.Stratified

/-!
# How reading a text ends

Reading a term or an environment ends with it or with a message, whatever the text is.
The one exception is a message that would quote a decimal whose text is too long, and
such a decimal is then the value of a literal in the text.
-/

namespace TracedEval

/-! ## Decimals in a form -/

namespace Form

mutual

def decimals : Form → List Decimal
  | decimal literal => (Decimal.ofChars (Term.literalChars literal)).toOption.toList
  | tagged _ form => decimals form
  | list items => decimalsOfAll items
  | vector items => decimalsOfAll items
  | set items => decimalsOfAll items
  | map entries => decimalsOfPairs entries
  | _ => []

def decimalsOfAll : List Form → List Decimal
  | [] => []
  | item :: items => decimals item ++ decimalsOfAll items

def decimalsOfPairs : List (Form × Form) → List Decimal
  | [] => []
  | (key, value) :: entries => decimals key ++ (decimals value ++ decimalsOfPairs entries)

end

/-- No decimal literal stands for a number that is too long to be written. -/
def isWritable (form : Form) : Bool :=
  form.decimals.all Decimal.isWritable

end Form

/-! ## Messages that can be written -/

namespace Term

def Writes {α : Type} (good : α → Prop) : Except ReadError α → Prop
  | .ok value => good value
  | .error fault => ∀ term ∈ fault.quoted, term.Writable

section Writes

variable {α β : Type} {good : α → Prop} {good' : β → Prop}

theorem Writes.map {outcome : Except ReadError α} {change : α → β} (writes : Writes good outcome)
    (kept : ∀ value, good value → good' (change value)) : Writes good' (outcome.map change) := by
  cases outcome with
  | error => exact writes
  | ok value => exact kept value writes

theorem Writes.mono {outcome : Except ReadError α} {better : α → Prop}
    (writes : Writes better outcome) (implied : ∀ value, better value → good value) :
    Writes good outcome := by
  cases outcome with
  | error => exact writes
  | ok value => exact implied value writes

theorem writes_unquoted {fault : ReadError} (unquoted : fault.quoted = []) :
    Writes good (.error fault) := by
  simp [Writes, unquoted]

theorem writes_quoting {fault : ReadError} {term : Term} (quoted : fault.quoted = [term])
    (writable : term.Writable) : Writes good (.error fault) := by
  simpa [Writes, quoted] using writable

theorem writable_of_no_decimals {term : Term} (decimals : term.decimals = []) :
    term.Writable := by
  simp [Writable, decimals]

theorem writable_child {term child : Term} (writable : term.Writable)
    (member : child ∈ term.children) : child.Writable :=
  (decimals_hereditary _).child writable member

theorem writes_mapOf {entries : List (Term × Term)}
    (writable : ∀ entry ∈ entries, entry.1.Writable ∧ entry.2.Writable) :
    Writes Writable ((mapOf entries).mapError .invalidMapKey) := by
  unfold mapOf
  split
  · rename_i key value found
    exact writes_quoting rfl (writable _ (List.mem_of_find?_eq_some found)).1
  · refine of_children_decimals (by simp) fun child member => ?_
    obtain ⟨entry, kept, same⟩ := mem_children_map.mp member
    have given := writable entry (SortedList.mem_of_mem_ofList kept)
    rcases same with rfl | rfl
    · exact given.1
    · exact given.2

theorem writes_errorField {fields : List (Term × Term)} (writable : (map fields).Writable)
    (name : String) : Writes (fun _ => True) (errorField fields name) := by
  unfold errorField
  split
  · trivial
  · rename_i value _ found
    obtain ⟨key, member⟩ := SortedList.exists_key_of_find? found
    exact writes_quoting rfl
      (writable_child writable (mem_children_map.mpr ⟨_, member, .inr rfl⟩))
  · exact writes_unquoted rfl

theorem writes_ofErrorFields {fields : Term} (writable : fields.Writable) :
    Writes Writable (ofErrorFields fields) := by
  unfold ofErrorFields
  split
  · rename_i entries
    have code := writes_errorField writable "code"
    split
    · rename_i refused
      rwa [refused] at code
    · exact (writes_errorField writable "message").map
        fun _ _ => writable_of_no_decimals rfl
  · exact writes_quoting rfl writable

theorem writes_ofName (name : String) : (ofName name).Writable := by
  rcases ofName_cases name with same | ⟨value, same⟩ | ⟨-, same⟩
  all_goals exact writable_of_no_decimals (by rw [same]; rfl)

end Writes

mutual

theorem writes_ofForm : (form : Form) →
    (∀ value ∈ form.decimals, value.isWritable = true) → Writes Writable (ofForm form)
  | .integer literal, _ => by
      rw [ofForm, ofIntegerLiteral]
      split
      · exact writable_of_no_decimals rfl
      · exact writes_unquoted rfl
  | .decimal literal, writable => by
      rw [ofForm, ofDecimalLiteral]
      split
      · rename_i value read
        have member : value ∈ (Form.decimal literal).decimals := by
          simp [Form.decimals, read, Except.toOption]
        simpa [Writes, Writable, decimals] using writable value member
      · exact writes_unquoted rfl
  | .character _, _ => writable_of_no_decimals rfl
  | .string _, _ => writable_of_no_decimals rfl
  | .keyword _, _ => writable_of_no_decimals rfl
  | .symbol name, _ => writes_ofName name
  | .list [], _ => writes_unquoted rfl
  | .list (head :: args), writable => by
      rw [Form.decimals, Form.decimalsOfAll, List.forall_mem_append] at writable
      have first := writes_ofForm head writable.1
      have others := writes_ofForms args writable.2
      rw [ofForm]
      split
      · rename_i refused
        rwa [refused] at first
      · exact others.map fun _ all => (decimals_hereditary _).application (by simp [decimals]) all
      · rename_i found
        rw [found] at first
        exact writes_quoting rfl first
  | .vector items, writable =>
      (writes_ofForms items writable).map fun _ all => (decimals_hereditary _).list all
  | .set items, writable =>
      (writes_ofForms items writable).map fun _ all => (decimals_hereditary _).set all
  | .map entries, writable => by
      have inside := writes_ofPairs entries writable
      rw [ofForm]
      split
      · rename_i refused
        rwa [refused] at inside
      · rename_i found
        rw [found] at inside
        exact writes_mapOf inside
  | .tagged tag form, writable => by
      have inside := writes_ofForm form writable
      rw [ofForm]
      split
      · split
        · rename_i refused
          rwa [refused] at inside
        · rename_i found
          rw [found] at inside
          exact writes_ofErrorFields inside
      · exact writes_unquoted rfl

theorem writes_ofForms : (forms : List Form) →
    (∀ value ∈ Form.decimalsOfAll forms, value.isWritable = true) →
      Writes (fun terms => ∀ term ∈ terms, term.Writable) (ofForms forms)
  | [], _ => List.forall_mem_nil _
  | form :: forms, writable => by
      rw [Form.decimalsOfAll, List.forall_mem_append] at writable
      have first := writes_ofForm form writable.1
      rw [ofForms]
      split
      · rename_i refused
        rwa [refused] at first
      · rename_i found
        rw [found] at first
        exact (writes_ofForms forms writable.2).map
          fun _ all => List.forall_mem_cons.mpr ⟨first, all⟩

theorem writes_ofPairs : (entries : List (Form × Form)) →
    (∀ value ∈ Form.decimalsOfPairs entries, value.isWritable = true) →
      Writes (fun entries => ∀ entry ∈ entries, entry.1.Writable ∧ entry.2.Writable)
        (ofPairs entries)
  | [], _ => List.forall_mem_nil _
  | (key, value) :: entries, writable => by
      rw [Form.decimalsOfPairs, List.forall_mem_append, List.forall_mem_append] at writable
      have keyWrites := writes_ofForm key writable.1
      have valueWrites := writes_ofForm value writable.2.1
      rw [ofPairs]
      split
      · rename_i refused
        rwa [refused] at keyWrites
      · rename_i foundKey
        rw [foundKey] at keyWrites
        split
        · rename_i refused
          rwa [refused] at valueWrites
        · rename_i foundValue
          rw [foundValue] at valueWrites
          exact (writes_ofPairs entries writable.2.2).map
            fun _ all => List.forall_mem_cons.mpr ⟨⟨keyWrites, valueWrites⟩, all⟩

end

end Term

theorem Bindings.writes_ofPairs {pairs : List (Form × Form)}
    (writable : ∀ value ∈ Form.decimalsOfPairs pairs, value.isWritable = true) :
    Term.Writes (fun _ => True) (ofPairs pairs) := by
  induction pairs with
  | nil => trivial
  | cons pair pairs ih =>
      obtain ⟨key, value⟩ := pair
      rw [Form.decimalsOfPairs, List.forall_mem_append, List.forall_mem_append] at writable
      have first : Term.Writes (fun _ => True) (ofPair (key, value)) := by
        unfold ofPair
        split
        · rename_i found
          cases found
          split
          · exact Term.writes_unquoted rfl
          · exact (Term.writes_ofForm value writable.2.1).map fun _ _ => trivial
        · exact Term.writes_unquoted rfl
      rw [ofPairs]
      split
      · rename_i refused
        rwa [refused] at first
      · exact (ih writable.2.2).map fun _ _ => trivial

theorem Bindings.writes_ofForm {form : Form}
    (writable : ∀ value ∈ form.decimals, value.isWritable = true) :
    Term.Writes (fun _ => True) (ofForm form) := by
  cases form with
  | map pairs => exact (Bindings.writes_ofPairs writable).map fun _ _ => trivial
  | _ => exact Term.writes_unquoted rfl

/-! ## Reading from the text to the term -/

namespace Reader

def conclude {α : Type} : Except ReadError α → Except Halt α
  | .ok value => .ok value
  | .error fault => .error (if fault.isWritable then .refused fault else .overlong)

def parse (depth : Nat) (text : String) : Except Halt Term := do
  conclude (Term.ofForm (← parseForm depth text.toList))

def parseBindings (depth : Nat) (text : String) : Except Halt Bindings := do
  conclude (Bindings.ofForm (← parseForm depth text.toList))

def Returns {α : Type} (reading : Except Halt α) : Prop :=
  Ends (fun _ => True) (fun _ => True) reading

instance {α : Type} (reading : Except Halt α) : Decidable (Returns reading) :=
  match reading with
  | .ok _ => .isTrue trivial
  | .error (.refused _) => .isTrue trivial
  | .error .misplaced => .isFalse id
  | .error .deeper => .isFalse id
  | .error .overlong => .isFalse id

/-- The caller gets a result or a message, unless the message would quote a decimal of
the text that is too long to be written. -/
def Concludes {α : Type} (text : String) (reading : Except Halt α) : Prop :=
  Returns reading ∨ reading = .error .overlong ∧
    ∃ form, Form.ofChars text.toList = .ok form ∧ form.isWritable = false

section Conclusion

variable {α : Type} {text : String} {depth : Nat} {meaning : Form → Except ReadError α}

theorem returns_or_overlong (outcome : Except ReadError α) :
    Returns (conclude outcome) ∨ conclude outcome = .error .overlong := by
  cases outcome with
  | ok value => exact .inl trivial
  | error fault =>
      rw [conclude]
      split
      · exact .inl trivial
      · exact .inr rfl

theorem exists_fault_of_not_returns {outcome : Except ReadError α}
    (stops : ¬ Returns (conclude outcome)) :
    ∃ fault, outcome = .error fault ∧ fault.isWritable = false := by
  cases outcome with
  | ok value => exact absurd trivial stops
  | error fault =>
      refine ⟨fault, rfl, Bool.eq_false_iff.mpr fun writable => stops ?_⟩
      rw [conclude, if_pos writable]
      trivial

theorem returns_of_writes {outcome : Except ReadError α}
    (writes : Term.Writes (fun _ => True) outcome) : Returns (conclude outcome) := by
  cases outcome with
  | ok value => trivial
  | error fault =>
      have writable : fault.isWritable = true :=
        List.all_eq_true.mpr fun term quoted => Term.writable_iff.mp (writes term quoted)
      rw [conclude, if_pos writable]
      trivial

theorem bind_conclude_eq (enough : text.toList.length < depth) :
    (parseForm depth text.toList >>= fun form => conclude (meaning form)) =
      conclude (match Form.ofChars text.toList with
        | .error fault => .error fault
        | .ok form => meaning form) := by
  rw [parseForm_eq enough]
  cases read : Form.ofChars text.toList with
  | ok form => rfl
  | error fault =>
      have writable : fault.isWritable = true := by
        rw [ReadError.isWritable, quoted_of_ofChars read]
        rfl
      simp only [conclude, writable, if_true]
      rfl

theorem concludes_of_writes (enough : text.toList.length < depth)
    (writes : ∀ form, (∀ value ∈ form.decimals, value.isWritable = true) →
      Term.Writes (fun _ => True) (meaning form)) :
    Concludes text (parseForm depth text.toList >>= fun form => conclude (meaning form)) := by
  rw [parseForm_eq enough]
  cases read : Form.ofChars text.toList with
  | error fault => exact .inl trivial
  | ok form =>
      cases writable : form.isWritable with
      | true => exact .inl (returns_of_writes (writes form (List.all_eq_true.mp writable)))
      | false =>
          exact (returns_or_overlong (meaning form)).imp id
            fun overlong => ⟨overlong, form, read, writable⟩

end Conclusion

/-- Every text is read to an end.  The readers go on from one valid position of the text
to a later one; a term and an environment come out as they do with a stack; and there is
an outcome for the caller unless a decimal of the text is too long to be quoted. -/
theorem parse_terminates (text : String) (depth : Nat) (enough : text.toList.length < depth) :
    (∀ rest, rest <:+ text.toList →
      String.Pos.Raw.IsValid text ⟨size text.toList - size rest⟩) ∧
    Progress depth text.toList ∧
    (parse depth text = conclude (Term.ofText text) ∧ Concludes text (parse depth text)) ∧
    parseBindings depth text = conclude (Bindings.ofText text) ∧
      Concludes text (parseBindings depth text) := by
  refine ⟨fun rest suffix => ?_, progress enough, ⟨bind_conclude_eq enough, ?_⟩,
    bind_conclude_eq enough, ?_⟩
  · have valid := isValid_of_suffix suffix
    rwa [String.ofList_toList] at valid
  · exact concludes_of_writes enough fun form writable =>
      (Term.writes_ofForm form writable).mono fun _ _ => trivial
  · exact concludes_of_writes enough fun form writable => Bindings.writes_ofForm writable

theorem parse_terminates_comment :
    "[\"\u00e9\\n\" ; \u20ac)\n #\x7b:a -1\x7d]".toList.length < 32 ∧
      Progress 32 "[\"\u00e9\\n\" ; \u20ac)\n #\x7b:a -1\x7d]".toList ∧
        (parse 32 "[\"\u00e9\\n\" ; \u20ac)\n #\x7b:a -1\x7d]").toOption.map Term.text =
          some "[\"\u00e9\\n\" #\x7b-1 :a\x7d]" := by
  have short : "[\"\u00e9\\n\" ; \u20ac)\n #\x7b:a -1\x7d]".toList.length < 32 := by
    decide +kernel
  obtain ⟨-, progress, -⟩ := parse_terminates _ 32 short
  exact ⟨short, progress, by decide +kernel⟩

/-- The decimal has more zeros than a text has room for, and the message that it is no
function would quote it. -/
theorem not_returns_overlongHead :
    ¬ Returns (parse 32 "(1e-9223372036854775808M)") ∧
      ¬ Returns (parseBindings 32 "\x7ba (1e-9223372036854775808M)\x7d") ∧
        ∃ fault, Term.ofText "(1e-9223372036854775808M)" = .error fault ∧
          fault.isWritable = false := by
  have stops : ¬ Returns (parse 32 "(1e-9223372036854775808M)") := by decide +kernel
  refine ⟨stops, by decide +kernel, exists_fault_of_not_returns ?_⟩
  rwa [parse, bind_conclude_eq (by decide +kernel)] at stops

end Reader

end TracedEval
