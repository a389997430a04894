/-!
# Lists kept in order by a comparison

A finite set is a list whose elements rise strictly under a comparison, and a
finite map is such a list of key and value pairs, compared by key.  Inserting
an element that compares equal to one already present replaces it, so the
spelling written last is the one that stays.
-/

namespace TracedEval.SortedList

variable {α κ β : Type}

def Sorted (cmp : α → α → Ordering) (items : List α) : Prop :=
  items.Pairwise (fun first second => cmp first second = .lt)

/-- Put an element in its place, in exchange for an equal one. -/
def insert (cmp : α → α → Ordering) (item : α) : List α → List α
  | [] => [item]
  | head :: tail =>
    match cmp item head with
    | .lt => item :: head :: tail
    | .eq => item :: tail
    | .gt => head :: insert cmp item tail

def insertAll (cmp : α → α → Ordering) (items additions : List α) : List α :=
  additions.foldl (fun sorted item => insert cmp item sorted) items

def ofList (cmp : α → α → Ordering) (items : List α) : List α :=
  insertAll cmp [] items

def byKey (cmp : κ → κ → Ordering) (first second : κ × β) : Ordering :=
  cmp first.1 second.1

def find? (cmp : κ → κ → Ordering) (key : κ) : List (κ × β) → Option β
  | [] => none
  | (candidate, value) :: rest =>
    match cmp key candidate with
    | .eq => some value
    | _ => find? cmp key rest

/-! ## Keeping the order -/

section Order

variable {cmp : α → α → Ordering}

theorem mem_of_mem_insert {item other : α} {items : List α}
    (member : other ∈ insert cmp item items) : other = item ∨ other ∈ items := by
  induction items with
  | nil => simpa [insert] using member
  | cons head tail ih =>
    unfold insert at member
    split at member
    · simpa using member
    · rcases List.mem_cons.mp member with same | later
      · exact .inl same
      · exact .inr (List.mem_cons_of_mem _ later)
    · rcases List.mem_cons.mp member with same | later
      · exact .inr (same ▸ List.mem_cons_self)
      · exact (ih later).imp_right (List.mem_cons_of_mem _)

theorem Sorted.insert [Std.TransCmp cmp] (item : α) {items : List α}
    (sorted : Sorted cmp items) :
    Sorted cmp (SortedList.insert cmp item items) := by
  induction items with
  | nil => exact List.pairwise_singleton _ _
  | cons head tail ih =>
    have ⟨after, rest⟩ := List.pairwise_cons.mp sorted
    unfold SortedList.insert
    split
    · rename_i before
      refine List.pairwise_cons.mpr ⟨fun other member => ?_, sorted⟩
      rcases List.mem_cons.mp member with same | later
      · exact same ▸ before
      · exact Std.TransCmp.lt_trans before (after other later)
    · rename_i same
      refine List.pairwise_cons.mpr ⟨fun other member => ?_, rest⟩
      have follows : cmp item other = cmp head other := Std.TransCmp.congr_left same
      exact follows ▸ after other member
    · rename_i behind
      refine List.pairwise_cons.mpr ⟨fun other member => ?_, ih rest⟩
      rcases mem_of_mem_insert member with same | later
      · exact same ▸ Std.OrientedCmp.gt_iff_lt.mp behind
      · exact after other later

theorem Sorted.insertAll [Std.TransCmp cmp] (additions : List α) {items : List α}
    (sorted : Sorted cmp items) :
    Sorted cmp (SortedList.insertAll cmp items additions) := by
  induction additions generalizing items with
  | nil => exact sorted
  | cons item additions ih => exact ih (sorted.insert item)

theorem Sorted.filter {items : List α} (keep : α → Bool)
    (sorted : Sorted cmp items) : Sorted cmp (items.filter keep) :=
  List.Pairwise.filter keep sorted

theorem sorted_ofList [Std.TransCmp cmp] (items : List α) :
    Sorted cmp (ofList cmp items) :=
  Sorted.insertAll items List.Pairwise.nil

instance [Std.TransCmp cmpKey] :
    Std.TransCmp (byKey (β := β) cmpKey) where
  eq_swap {first second} :=
    show cmpKey first.1 second.1 = (cmpKey second.1 first.1).swap from
      Std.OrientedCmp.eq_swap
  isLE_trans {first second third} :=
    show (cmpKey first.1 second.1).isLE → (cmpKey second.1 third.1).isLE →
        (cmpKey first.1 third.1).isLE from
      Std.TransCmp.isLE_trans

end Order

def compareLists (cmp : α → α → Ordering) : List α → List α → Ordering
  | [], [] => .eq
  | [], _ :: _ => .lt
  | _ :: _, [] => .gt
  | first :: firsts, second :: seconds =>
    (cmp first second).then (compareLists cmp firsts seconds)

end TracedEval.SortedList
