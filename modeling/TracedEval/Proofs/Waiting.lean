import Mathlib.Data.Finset.Card
import Mathlib.Logic.Relation
import TracedEval.Proofs.Table

/-!
# Who waits for whom

A table lists one owner for each waiting thread.  A walk along the list that takes more
steps than there are threads in the list has come back to one of them and never ends, so
a walk that is cut off there would not have ended (`isWaitingOn_iff_follow`).  While
nobody waits for himself, through others perhaps, every walk ends.  A thread is only
listed when the list leads from its owner to nobody who waits for it.
-/

namespace TracedEval.Cache.Table

open Relation

variable {table table' : Table} {thread owner first second : ThreadId}

def Waits (table : Table) (first second : ThreadId) : Prop :=
  table.waitsFor? first = some second

def Acyclic (table : Table) : Prop :=
  ∀ thread, ¬TransGen table.Waits thread thread

theorem Waits.unique {third : ThreadId} (waits : table.Waits first second)
    (waits' : table.Waits first third) : second = third :=
  Option.some.inj (waits.symm.trans waits')

theorem waits_congr (same : table'.waiting = table.waiting) :
    table'.Waits = table.Waits := by
  funext first second
  rw [Waits, Waits, waitsFor?, waitsFor?, same]

theorem not_waits_empty : ¬empty.Waits first second := by
  rw [Waits]
  exact nofun

/-! ## Changes of the list -/

theorem lookup_filter_ne (edges : List (ThreadId × ThreadId))
    (thread other : ThreadId) :
    (edges.filter (fun edge => edge.1 != thread)).lookup other =
      if other = thread then none else edges.lookup other := by
  induction edges with
  | nil => simp
  | cons edge edges ih =>
      obtain ⟨waiter, owner⟩ := edge
      by_cases gone : waiter = thread
      · subst gone
        rw [List.filter_cons_of_neg (by simp), ih]
        split
        · rfl
        · rename_i apart
          rw [List.lookup_cons, beq_false_of_ne apart]
      · rw [List.filter_cons_of_pos (by simpa using gone), List.lookup_cons,
          List.lookup_cons, ih]
        by_cases here : other = waiter
        · subst here
          simp [gone]
        · rw [beq_false_of_ne here]

theorem waits_stopWaiting :
    (table.stopWaiting thread).Waits first second ↔
      first ≠ thread ∧ table.Waits first second := by
  rw [Waits, waitsFor?, stopWaiting, lookup_filter_ne]
  split
  · rename_i same
    simp [same]
  · rename_i apart
    simp [apart, Waits, waitsFor?]

theorem waits_startWaiting :
    (table.startWaiting thread owner).Waits first second ↔
      first = thread ∧ owner = second ∨
        first ≠ thread ∧ table.Waits first second := by
  rw [Waits, waitsFor?, startWaiting, List.lookup_cons]
  by_cases same : first = thread
  · simp [same]
  · rw [beq_false_of_ne same]
    simp only [lookup_filter_ne, same, if_false, false_and, false_or, ne_eq,
      not_false_eq_true, true_and]
    rfl

/-! ## Walks -/

theorem isSome_waitsFor?_iff :
    (table.waitsFor? thread).isSome ↔ thread ∈ table.waiting.map Prod.fst := by
  rw [waitsFor?, List.lookup_isSome_iff]
  simp

/-- Where the list leads from a thread in a number of steps, if it leads that far. -/
def follow (table : Table) : Nat → ThreadId → Option ThreadId
  | 0, thread => some thread
  | steps + 1, thread => (table.waitsFor? thread).bind (table.follow steps)

theorem follow_add (before after : Nat) (thread : ThreadId) :
    table.follow (before + after) thread =
      (table.follow before thread).bind (table.follow after) := by
  induction before generalizing thread with
  | zero => rw [Nat.zero_add, follow, Option.bind_some]
  | succ before ih =>
      rw [Nat.succ_add, follow, follow, Option.bind_assoc]
      exact Option.bind_congr fun next _ => ih next

theorem follow_succ (steps : Nat) (thread : ThreadId) :
    table.follow (steps + 1) thread =
      (table.follow steps thread).bind table.waitsFor? := by
  rw [follow_add]
  exact Option.bind_congr fun last _ => Option.bind_fun_some _

theorem isSome_follow_of_le {steps more : Nat} (fewer : steps ≤ more)
    (far : (table.follow more thread).isSome) : (table.follow steps thread).isSome := by
  rw [← Nat.add_sub_cancel' fewer, follow_add] at far
  exact Option.isSome_of_isSome_bind far

theorem mem_waiting_of_follow {steps more : Nat} (fewer : steps < more)
    (far : (table.follow more thread).isSome) {passed : ThreadId}
    (passes : table.follow steps thread = some passed) :
    passed ∈ table.waiting.map Prod.fst := by
  have next := isSome_follow_of_le fewer far
  rw [follow_succ, passes, Option.bind_some] at next
  exact isSome_waitsFor?_iff.mp next

theorem exists_follow_iff :
    (∃ steps, table.follow steps first = some second) ↔
      ReflTransGen table.Waits first second := by
  constructor
  · rintro ⟨steps, leads⟩
    induction steps generalizing first with
    | zero => exact Option.some.inj leads ▸ .refl
    | succ steps ih =>
        obtain ⟨next, waits, leads⟩ := Option.bind_eq_some_iff.mp leads
        exact .head waits (ih leads)
  · intro way
    induction way with
    | refl => exact ⟨0, rfl⟩
    | tail _ waits ih =>
        obtain ⟨steps, leads⟩ := ih
        refine ⟨steps + 1, ?_⟩
        rw [follow_succ, leads, Option.bind_some]
        exact waits

theorem reaches_iff {rounds : Nat} :
    table.reaches second rounds first = true ↔
      (∃ steps < rounds, table.follow steps first = some second) ∨
        (table.follow rounds first).isSome := by
  induction rounds generalizing first with
  | zero => simp [reaches, follow]
  | succ rounds ih =>
      rw [reaches]
      by_cases here : first = second
      · rw [if_pos here]
        exact iff_of_true rfl (.inl ⟨0, Nat.succ_pos rounds, congrArg some here⟩)
      · rw [if_neg here]
        have later : (∃ steps < rounds + 1, table.follow steps first = some second) ↔
            ∃ steps < rounds, table.follow (steps + 1) first = some second := by
          constructor
          · rintro ⟨_ | steps, short, leads⟩
            · exact absurd (Option.some.inj leads) here
            · exact ⟨steps, by omega, leads⟩
          · rintro ⟨steps, short, leads⟩
            exact ⟨steps + 1, by omega, leads⟩
        rw [later]
        cases waits : table.waitsFor? first with
        | none => simp [follow, waits]
        | some next => simpa [follow, waits] using ih

theorem isSome_follow_of_same {steps more : Nat} (fewer : steps < more)
    (same : table.follow steps thread = table.follow more thread)
    (far : (table.follow more thread).isSome) (count : Nat) :
    (table.follow count thread).isSome := by
  induction count using Nat.strong_induction_on with
  | h count ih =>
      by_cases within : count ≤ more
      · exact isSome_follow_of_le within far
      · have rest : table.follow count thread =
            table.follow (steps + (count - more)) thread := by
          rw [follow_add, same, ← follow_add]
          congr 1
          omega
        rw [rest]
        exact ih _ (by omega)

theorem isSome_follow_of_long
    (far : (table.follow (table.waiting.length + 1) thread).isSome) (count : Nat) :
    (table.follow count thread).isSome := by
  let listed := (table.waiting.map Prod.fst).toFinset
  let passed (steps : Nat) : ThreadId := (table.follow steps thread).getD thread
  have reached {steps : Nat} (short : steps < table.waiting.length + 1) :
      table.follow steps thread = some (passed steps) := by
    obtain ⟨last, leads⟩ :=
      Option.isSome_iff_exists.mp (isSome_follow_of_le (Nat.le_of_lt short) far)
    rw [leads]
    simp [passed, leads]
  have few : listed.card < (Finset.range (table.waiting.length + 1)).card := by
    have bound := (table.waiting.map Prod.fst).toFinset_card_le
    rw [List.length_map] at bound
    rw [Finset.card_range]
    exact Nat.lt_succ_of_le bound
  have inside : ∀ steps ∈ Finset.range (table.waiting.length + 1),
      passed steps ∈ listed := by
    intro steps short
    have short := Finset.mem_range.mp short
    exact List.mem_toFinset.mpr (mem_waiting_of_follow short far (reached short))
  obtain ⟨steps, short, more, short', apart, same⟩ :=
    Finset.exists_ne_map_eq_of_card_lt_of_maps_to few inside
  have short := Finset.mem_range.mp short
  have short' := Finset.mem_range.mp short'
  have same : table.follow steps thread = table.follow more thread := by
    rw [reached short, reached short', same]
  rcases Nat.lt_or_gt_of_ne apart with fewer | fewer
  · exact isSome_follow_of_same fewer same
      (isSome_follow_of_le (Nat.le_of_lt short') far) count
  · exact isSome_follow_of_same fewer same.symm
      (isSome_follow_of_le (Nat.le_of_lt short) far) count

theorem reaches_waiting_iff :
    table.reaches second (table.waiting.length + 1) first = true ↔
      (∃ steps, table.follow steps first = some second) ∨
        ∀ steps, (table.follow steps first).isSome := by
  rw [reaches_iff]
  constructor
  · rintro (⟨steps, -, leads⟩ | far)
    · exact .inl ⟨steps, leads⟩
    · exact .inr (isSome_follow_of_long far)
  · rintro (⟨steps, leads⟩ | endless)
    · by_cases short : steps < table.waiting.length + 1
      · exact .inl ⟨steps, short, leads⟩
      · exact .inr (isSome_follow_of_le (Nat.le_of_not_lt short) (by rw [leads]; rfl))
    · exact .inr (endless _)

/-! ## Cycles -/

theorem acyclic_empty : empty.Acyclic := by
  intro thread cycle
  obtain ⟨_, waits, _⟩ := TransGen.head'_iff.mp cycle
  exact not_waits_empty waits

theorem Acyclic.mono (acyclic : table.Acyclic)
    (fewer : ∀ first second, table'.Waits first second → table.Waits first second) :
    table'.Acyclic :=
  fun thread cycle => acyclic thread (TransGen.mono fewer _ _ cycle)

theorem Acyclic.congr (acyclic : table.Acyclic)
    (same : table'.waiting = table.waiting) : table'.Acyclic :=
  acyclic.mono fun first second waits => by rwa [waits_congr same] at waits

theorem Acyclic.stopWaiting (acyclic : table.Acyclic) (thread : ThreadId) :
    (table.stopWaiting thread).Acyclic :=
  acyclic.mono fun _ _ waits => (waits_stopWaiting.mp waits).2

theorem Acyclic.exists_end (acyclic : table.Acyclic) (thread : ThreadId) :
    ∃ last, ReflTransGen table.Waits thread last ∧ table.waitsFor? last = none := by
  induction size : table.waiting.length using Nat.strongRecOn
    generalizing table thread with
  | ind size ih =>
      cases waits : table.waitsFor? thread with
      | none => exact ⟨thread, .refl, waits⟩
      | some next =>
          -- without the edge the way on is the same, and it does not come back
          have listed : thread ∈ table.waiting.map Prod.fst :=
            isSome_waitsFor?_iff.mp (by rw [waits]; rfl)
          obtain ⟨edge, member, same⟩ := List.mem_map.mp listed
          have fewer : (table.stopWaiting thread).waiting.length < table.waiting.length :=
            List.length_filter_lt_length_iff_exists.mpr ⟨edge, member, by simp [same]⟩
          obtain ⟨last, way, ends⟩ :=
            ih _ (size ▸ fewer) (acyclic.stopWaiting thread) next rfl
          have way : ReflTransGen table.Waits next last :=
            ReflTransGen.mono (fun _ _ edge => (waits_stopWaiting.mp edge).2) _ _ way
          have apart : last ≠ thread := fun back =>
            acyclic thread (.head' waits (back ▸ way))
          refine ⟨last, .head waits way, ?_⟩
          rwa [waitsFor?, Table.stopWaiting, lookup_filter_ne, if_neg apart] at ends

theorem isWaitingOn_iff (acyclic : table.Acyclic) :
    table.isWaitingOn owner thread = true ↔
      ReflTransGen table.Waits owner thread := by
  rw [isWaitingOn, reaches_waiting_iff, exists_follow_iff]
  refine or_iff_left fun endless => ?_
  obtain ⟨last, way, ends⟩ := acyclic.exists_end owner
  obtain ⟨steps, leads⟩ := exists_follow_iff.mpr way
  have next := endless (steps + 1)
  rw [follow_succ, leads, Option.bind_some, ends] at next
  contradiction

theorem waits_startWaiting_cases
    (way : TransGen (table.startWaiting thread owner).Waits first second)
    (apart : ¬ReflTransGen table.Waits owner thread) :
    TransGen table.Waits first second ∨
      ReflTransGen table.Waits first thread ∧
        ReflTransGen table.Waits owner second := by
  induction way with
  | single waits =>
      rcases waits_startWaiting.mp waits with ⟨rfl, rfl⟩ | ⟨-, waits⟩
      · exact .inr ⟨.refl, .refl⟩
      · exact .inl (.single waits)
  | tail way waits ih =>
      rcases waits_startWaiting.mp waits with ⟨rfl, rfl⟩ | ⟨-, waits⟩
      · rcases ih with way | ⟨-, way⟩
        · exact .inr ⟨way.to_reflTransGen, .refl⟩
        · exact absurd way apart
      · rcases ih with way | ⟨before, after⟩
        · exact .inl (way.tail waits)
        · exact .inr ⟨before, after.tail waits⟩

theorem Acyclic.startWaiting (acyclic : table.Acyclic)
    (apart : table.isWaitingOn owner thread = false) :
    (table.startWaiting thread owner).Acyclic := by
  intro start cycle
  have apart : ¬ReflTransGen table.Waits owner thread := fun way => by
    rw [(isWaitingOn_iff acyclic).mpr way] at apart
    contradiction
  rcases waits_startWaiting_cases cycle apart with cycle | ⟨before, after⟩
  · exact acyclic start cycle
  · exact apart (after.trans before)

/-! ## The owner of a claim -/

/-- The walk from the owner of a claim says that he waits for a thread exactly if the list
leads to that thread, or leads on forever.  It only leads on forever where somebody waits for
himself. -/
theorem isWaitingOn_iff_follow (table : Table) (owner thread : ThreadId) :
    (table.isWaitingOn owner thread = true ↔
      (∃ steps, table.follow steps owner = some thread) ∨
        ∀ steps, (table.follow steps owner).isSome = true) ∧
    (table.Acyclic →
      (table.isWaitingOn owner thread = true ↔
        ∃ steps, table.follow steps owner = some thread)) := by
  refine ⟨reaches_waiting_iff, fun acyclic => ?_⟩
  rw [isWaitingOn_iff acyclic, exists_follow_iff]

def queue : Table :=
  ((empty.startWaiting 3 4).startWaiting 2 3).startWaiting 1 2

theorem acyclic_queue : queue.Acyclic :=
  ((acyclic_empty.startWaiting rfl).startWaiting rfl).startWaiting rfl

theorem isWaitingOn_iff_follow_queue :
    queue.Acyclic ∧ queue.isWaitingOn 1 4 = true ∧ queue.isWaitingOn 4 1 = false ∧
      queue.follow queue.waiting.length 1 = some 4 ∧
        ¬∃ steps, queue.follow steps 4 = some 1 := by
  have reached := (isWaitingOn_iff_follow queue 1 4).2 acyclic_queue
  have missed := (isWaitingOn_iff_follow queue 4 1).2 acyclic_queue
  refine ⟨acyclic_queue, reached.mpr ⟨3, rfl⟩, rfl, rfl, fun leads => ?_⟩
  have found := missed.mpr leads
  contradiction

end TracedEval.Cache.Table
