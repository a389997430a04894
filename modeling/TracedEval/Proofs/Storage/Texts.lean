import TracedEval.Proofs.Interchange.Loose
import TracedEval.Proofs.Storage.Terms
import TracedEval.Stored.Text

/-!
# Stored terms are read back from texts

The text of a stored term is read as its stored form is, as long as that is nested less
deep than a text may be; a deeper one is refused.
-/

namespace TracedEval

namespace Json

mutual

theorem depth_le_weight : ∀ json : Json, json.depth ≤ json.weight
  | .null | .boolean _ | .number _ | .string _ => Nat.zero_le _
  | .array items => by
      have := depthAll_le_weight items
      rw [depth, weight]
      omega
  | .object members => by
      have := depthMembers_le_weight members
      rw [depth, weight]
      omega

theorem depthAll_le_weight : ∀ items : List Json, depthAll items ≤ weightAll items
  | [] => Nat.le_refl _
  | item :: items => by
      have := depth_le_weight item
      have := depthAll_le_weight items
      rw [depthAll, weightAll]
      omega

theorem depthMembers_le_weight : ∀ members : List (String × Json),
    depthMembers members ≤ weightMembers members
  | [] => Nat.le_refl _
  | (_, value) :: members => by
      have := depth_le_weight value
      have := depthMembers_le_weight members
      rw [depthMembers, weightMembers]
      omega

end

/-! ## What there is room for -/

def shallow? (room : Nat) (json : Json) : Option Json :=
  if json.depth < room then some json else none

def shallowAll? (room : Nat) (items : List Json) : Option (List Json) :=
  if depthAll items < room then some items else none

def shallowMembers? (room : Nat) (members : List (String × Json)) :
    Option (List (String × Json)) :=
  if depthMembers members < room then some members else none

section Room

variable {room : Nat}

theorem map_of_room {α β : Type} (wrap : α → β) (value : α) (depth : Nat) :
    (if 1 + depth < room then some (wrap value) else none) =
      if room ≤ 1 then none else (if depth < room - 1 then some value else none).map wrap := by
  by_cases full : room ≤ 1
  · rw [if_neg (by omega), if_pos full]
  · rw [if_neg full]
    by_cases deep : 1 + depth < room
    · rw [if_pos deep, if_pos (by omega), Option.map_some]
    · rw [if_neg deep, if_neg (by omega), Option.map_none]

theorem shallow?_array (items : List Json) :
    (array items).shallow? room =
      if room ≤ 1 then none else (shallowAll? (room - 1) items).map array := by
  rw [shallow?, depth, map_of_room array items, shallowAll?]

theorem shallow?_object (members : List (String × Json)) :
    (object members).shallow? room =
      if room ≤ 1 then none else (shallowMembers? (room - 1) members).map object := by
  rw [shallow?, depth, map_of_room object members, shallowMembers?]

theorem shallowAll?_cons (item : Json) (items : List Json) :
    shallowAll? room (item :: items) = do
      return (← item.shallow? room) :: (← shallowAll? room items) := by
  rw [shallowAll?, shallowAll?, shallow?, depthAll]
  by_cases here : item.depth < room <;>
    by_cases others : depthAll items < room <;> simp [here, others]

theorem shallowMembers?_cons (name : String) (value : Json) (members : List (String × Json)) :
    shallowMembers? room ((name, value) :: members) = do
      return (name, ← value.shallow? room) :: (← shallowMembers? room members) := by
  rw [shallowMembers?, shallowMembers?, shallow?, depthMembers]
  by_cases here : value.depth < room <;>
    by_cases others : depthMembers members < room <;> simp [here, others]

variable (positive : 0 < room)

include positive

theorem shallow?_leaf {json : Json} (leaf : json.depth = 0) : json.shallow? room = some json := by
  rw [shallow?, leaf, if_pos positive]

theorem shallowAll?_nil : shallowAll? room [] = some [] := by
  rw [shallowAll?, depthAll, if_pos positive]

theorem shallowMembers?_nil : shallowMembers? room [] = some [] := by
  rw [shallowMembers?, depthMembers, if_pos positive]

end Room

namespace Loose

mutual

theorem json?_cut : ∀ (json : Json) (room : Nat), 0 < room →
    (cut room json).json? = json.shallow? room
  | .null, room, positive | .boolean _, room, positive | .number _, room, positive
  | .string _, room, positive => by
      rw [shallow?_leaf positive rfl, cut, json?]
      all_goals simp
  | .array items, room, positive => by
      rw [shallow?_array, cut, within]
      split
      · rfl
      · rw [json?, jsonItems?_cutAll items (room - 1) (by omega)]
  | .object members, room, positive => by
      rw [shallow?_object, cut, within]
      split
      · rfl
      · rw [json?, jsonMembers?_cutMembers members (room - 1) (by omega)]

theorem jsonItems?_cutAll : ∀ (items : List Json) (room : Nat), 0 < room →
    jsonItems? (cutAll room items) = shallowAll? room items
  | [], room, positive => by rw [shallowAll?_nil positive, cutAll, jsonItems?]
  | item :: items, room, positive => by
      rw [shallowAll?_cons, cutAll, jsonItems?, json?_cut item room positive,
        jsonItems?_cutAll items room positive]

theorem jsonMembers?_cutMembers : ∀ (members : List (String × Json)) (room : Nat), 0 < room →
    jsonMembers? (cutMembers room members) = shallowMembers? room members
  | [], room, positive => by rw [shallowMembers?_nil positive, cutMembers, jsonMembers?]
  | (name, value) :: members, room, positive => by
      rw [shallowMembers?_cons, cutMembers, jsonMembers?, json?_cut value room positive,
        jsonMembers?_cutMembers members room positive]
      rfl

end

end Loose

end Json

/-! ## Contents -/

namespace Stored

open Json Json.Loose

section Contents

variable {read : Loose → Option Json} {items : List Json} {room : Nat}

theorem mapM_cutAll (positive : 0 < room)
    (each : ∀ item ∈ items, read (cut room item) = item.shallow? room) :
    (cutAll room items).mapM read = shallowAll? room items := by
  induction items with
  | nil => rw [shallowAll?_nil positive, cutAll, List.mapM_nil]; rfl
  | cons item items ih =>
      obtain ⟨first, others⟩ := List.forall_mem_cons.mp each
      rw [shallowAll?_cons, cutAll, List.mapM_cons, first, ih others]

theorem itemsOf_cut
    (each : ∀ item ∈ items, ∀ room, 0 < room → read (cut room item) = item.shallow? room) :
    itemsOf read (cut room (.array items)) = (Json.array items).shallow? room := by
  rw [shallow?_array, cut, within]
  split
  · rfl
  · have positive : 0 < room - 1 := by omega
    rw [itemsOf, mapM_cutAll positive fun item member => each item member _ positive]

theorem contentsOf_leaf {kind : String} {value : Json} (positive : 0 < room)
    (leaf : kind ∉ ["List", "Set", "Map", "Application", "Error"]) :
    contentsOf read kind (cut room value) = value.shallow? room := by
  simp only [List.mem_cons, List.not_mem_nil, or_false, not_or] at leaf
  rw [← json?_cut value room positive, contentsOf.eq_def]
  split <;> simp_all

theorem contentsOf_items {kind : String} (collects : kind = "List" ∨ kind = "Set")
    (contents : Loose) : contentsOf read kind contents = itemsOf read contents := by
  rcases collects with rfl | rfl <;> rfl

theorem contentsOf_map (entries : List Json) :
    contentsOf read "Map" (cut room (.array entries)) =
      itemsOf (itemsOf read) (cut room (.array entries)) := by
  rw [cut, within]
  split <;> rfl

theorem contentsOf_error (value : ErrorValue) :
    contentsOf read "Error" (cut room (errorJson value)) = (errorJson value).shallow? room := by
  rw [errorJson, shallow?_object, cut, within]
  split
  · rfl
  · have positive : 0 < room - 1 := by omega
    rw [shallowMembers?_cons, shallowMembers?_cons,
      shallowMembers?_nil positive, shallow?_leaf positive rfl, shallow?_leaf positive rfl]
    simp [contentsOf, known, cutMembers, cut, json?]

theorem contentsOf_application {args : List Json} (head : String)
    (each : ∀ item ∈ args, ∀ room, 0 < room → read (cut room item) = item.shallow? room) :
    contentsOf read "Application" (cut room
        (.object [("args", .array args), ("symbol", .string head)])) =
      (Json.object [("args", .array args), ("symbol", .string head)]).shallow? room := by
  rw [shallow?_object, cut, within]
  split
  · rfl
  · have positive : 0 < room - 1 := by omega
    have parts : itemsOf read (cut (room - 1) (.array args)) = _ := itemsOf_cut each
    have members : known ["symbol", "args"]
        (cutMembers (room - 1) [("args", .array args), ("symbol", .string head)]) =
          some [("args", cut (room - 1) (.array args)),
            ("symbol", leaf (some (.string head)))] := by
      simp [known, cutMembers, cut]
    rw [shallowMembers?_cons, shallowMembers?_cons, shallowMembers?_nil positive, ← parts,
      shallow?_leaf positive rfl]
    cases found : itemsOf read (cut (room - 1) (.array args)) <;>
      simp [contentsOf, members, found, json?]

end Contents

/-! ## Terms -/

theorem ofLoose_tagged {kind : String} {value : Json} (depth : Nat)
    (read : ∀ room, 0 < room →
      contentsOf (ofLoose false depth) kind (cut room value) = value.shallow? room)
    (room : Nat) :
    ofLoose false (depth + 1) (cut room (Term.tagged kind value)) =
      (Term.tagged kind value).shallow? room := by
  rw [Term.tagged, shallow?_object, cut, within]
  split
  · rfl
  · have positive : 0 < room - 1 := by omega
    have members : known ["type", "value"]
        (cutMembers (room - 1) [("type", .string kind), ("value", value)]) =
          some [("type", leaf (some (.string kind))), ("value", cut (room - 1) value)] := by
      simp [known, cutMembers, cut]
    rw [ofLoose, members, shallowMembers?_cons, shallowMembers?_cons,
      shallowMembers?_nil positive, shallow?_leaf positive rfl, ← read (room - 1) positive]
    simp only [Option.bind_eq_bind, Option.bind_some, kindOfMember, json?, Term.kindOf]
    cases contentsOf (ofLoose false depth) kind (cut (room - 1) value) <;> rfl

end Stored

namespace Term

open Json Json.Loose Stored

theorem ofLoose_toStored (term : Term) : ∀ depth room, term.toStored.depth < depth → 0 < room →
    ofLoose false depth (cut room term.toStored) = term.toStored.shallow? room := by
  induction term using childrenInduction with
  | step term ih =>
      rintro (_ | depth) room deep positive
      · contradiction
      have parts {child : Term} (member : child ∈ term.children) (room : Nat)
          (positive : 0 < room) :
          ofLoose false depth (cut room child.toStored) = child.toStored.shallow? room := by
        have deeper := depth_toStored_child member
        exact ih child member depth room (by omega) positive
      have items {items : List Term} (inside : ∀ item ∈ items, item ∈ term.children) :
          ∀ json ∈ toStoredItems items, ∀ room, 0 < room →
            ofLoose false depth (cut room json) = json.shallow? room := by
        rw [toStoredItems_eq, List.forall_mem_map]
        exact fun item member => parts (inside item member)
      cases term with
      | nil =>
          rw [toStored, shallow?_object, cut, within]
          split
          · rfl
          · have positive : 0 < room - 1 := by omega
            rw [shallowMembers?_cons, shallowMembers?_nil positive, shallow?_leaf positive rfl]
            simp [ofLoose, known, cutMembers, cut, kindOfMember, json?, kindOf]
      | list | set =>
          rw [toStored]
          refine ofLoose_tagged depth (fun _ _ => ?_) room
          rw [contentsOf_items (by simp)]
          exact itemsOf_cut (items fun _ member => member)
      | map entries =>
          rw [toStored, toStoredEntries_eq]
          refine ofLoose_tagged depth (fun _ _ => ?_) room
          rw [contentsOf_map]
          apply itemsOf_cut
          rw [List.forall_mem_map]
          intro entry member room positive
          apply itemsOf_cut
          refine List.forall_mem_cons.mpr ⟨?_, List.forall_mem_singleton.mpr ?_⟩
          · exact parts (mem_children_map.mpr ⟨entry, member, .inl rfl⟩)
          · exact parts (mem_children_map.mpr ⟨entry, member, .inr rfl⟩)
      | application head args =>
          rw [toStored]
          exact ofLoose_tagged depth
            (fun _ _ => contentsOf_application head.text (items fun _ member => member)) room
      | error value => exact ofLoose_tagged depth (fun _ _ => contentsOf_error value) room
      | _ =>
          exact ofLoose_tagged depth (fun _ positive => contentsOf_leaf positive (by decide)) room

/-! ### Numbers in stored terms -/

theorem whole_integerJson (value : Int) : Json.Everywhere Whole (integerJson value) := by
  have number {part : Int} (fits : fitsWord part = true) : Json.Everywhere Whole (.ofInt part) :=
    .leaf rfl ⟨part, rfl, fits⟩
  refine .intro trivial (List.forall_mem_cons.mpr ⟨number ?_, List.forall_mem_singleton.mpr ?_⟩)
  · rcases Int.sign_trichotomy value with sign | sign | sign <;> rw [sign] <;> decide
  · refine .intro trivial (List.forall_mem_map.mpr fun digit member => number ?_)
    have within : digit < 4294967296 := lt_of_mem_words member
    simp only [fitsWord, Bool.and_eq_true, decide_eq_true_eq]
    simp only [Numeral.leastInt64, Numeral.greatestWord64]
    omega

theorem whole_tagged {kind : String} {value : Json} (whole : Json.Everywhere Whole value) :
    Json.Everywhere Whole (tagged kind value) :=
  .intro trivial (List.forall_mem_cons.mpr
    ⟨.leaf rfl trivial, List.forall_mem_singleton.mpr whole⟩)

theorem whole_toStored (term : Term) : Json.Everywhere Whole term.toStored := by
  induction term using childrenInduction with
  | step term ih =>
      have items {items : List Term} (inside : ∀ item ∈ items, item ∈ term.children) :
          Json.Everywhere Whole (.array (toStoredItems items)) := by
        rw [toStoredItems_eq]
        refine .intro trivial (List.forall_mem_map.mpr fun item member => ?_)
        exact ih item (inside item member)
      cases term with
      | nil => exact .intro trivial (List.forall_mem_singleton.mpr (.leaf rfl trivial))
      | integer value => exact whole_tagged (whole_integerJson value)
      | error value =>
          refine whole_tagged (.intro trivial (List.forall_mem_cons.mpr ⟨?_, ?_⟩))
          · exact .leaf rfl trivial
          · exact List.forall_mem_singleton.mpr (.leaf rfl trivial)
      | list | set => exact whole_tagged (items fun _ member => member)
      | map entries =>
          rw [toStored, toStoredEntries_eq]
          refine whole_tagged (.intro trivial (List.forall_mem_map.mpr fun entry member => ?_))
          refine .intro trivial (List.forall_mem_cons.mpr ⟨?_, List.forall_mem_singleton.mpr ?_⟩)
          · exact ih _ (mem_children_map.mpr ⟨entry, member, .inl rfl⟩)
          · exact ih _ (mem_children_map.mpr ⟨entry, member, .inr rfl⟩)
      | application head args =>
          refine whole_tagged (.intro trivial (List.forall_mem_cons.mpr ⟨?_, ?_⟩))
          · exact items fun _ member => member
          · exact List.forall_mem_singleton.mpr (.leaf rfl trivial)
      | _ => exact whole_tagged (.leaf rfl trivial)

/-- The text of a stored term means what its stored form means, unless it is too deep. -/
theorem ofStoredText?_text (term : Term) :
    ofStoredText? term.toStored.text =
      if term.toStored.depth < depthLimit then ofStored? term.toStored else none := by
  have whole := whole_toStored term
  have long := weight_le_length term.toStored [] whole
  have deep := depth_le_weight term.toStored
  have read := ofLoose_toStored term ((term.toStored.write []).length + 1) depthLimit
    (by omega) (by decide)
  rw [ofStoredText?, Json.text, String.toList_ofList, ofChars?_write whole]
  simp only [Option.bind_eq_bind, Option.bind_some, read, shallow?]
  split <;> rfl

theorem Storable.read_text {term : Term} (storable : term.Storable)
    (shallow : term.toStored.depth < depthLimit) :
    ∃ read, ofStoredText? term.toStored.text = some read ∧ read.equal term = true := by
  obtain ⟨read, found, same⟩ := storable.restored (Nat.lt_succ_self _)
  refine ⟨read, ?_, equal_iff.mpr same⟩
  rw [ofStoredText?_text, if_pos shallow]
  exact found

end Term

end TracedEval
