import Mathlib.Data.List.Forall2
import TracedEval.Reduction

/-!
# Contracts of reductions

A contract says how a reduction ends that starts in a good state: in a good state
again, with an outcome as wanted.  It also says under which circumstances the
reduction may be interrupted instead.
-/

namespace TracedEval

theorem exists_of_map_ok {ε α β : Type} {outcome : Except ε α} {change : α → β}
    {value : β} (same : outcome.map change = .ok value) :
    ∃ before, outcome = .ok before ∧ change before = value := by
  cases outcome with
  | error => contradiction
  | ok before => exact ⟨before, rfl, Except.ok.inj same⟩

theorem map_ok_iff {ε α β : Type} {outcome : Except ε α} {change : α → β} {value : β} :
    outcome.map change = .ok value ↔
      ∃ before, outcome = .ok before ∧ change before = value := by
  constructor
  · exact exists_of_map_ok
  · rintro ⟨before, rfl, rfl⟩
    rfl

theorem error_of_map {ε α β : Type} {outcome : Except ε α} {change : α → β} {fault : ε}
    (refused : outcome.map change = .error fault) : outcome = .error fault := by
  cases outcome with
  | error other =>
      cases refused
      rfl
  | ok value => contradiction

namespace Reduction

variable {σ α β γ : Type}

@[simp] theorem written_true (value : α) :
    (written true value : Reduction σ α) = pure value := rfl

@[simp] theorem written_false (value : α) :
    (written false value : Reduction σ α) = interrupt .overlong := rfl

@[simp] theorem interrupt_bind (interruption : Interruption)
    (next : α → Reduction σ β) :
    interrupt interruption >>= next = interrupt interruption := rfl

/-- Started in a good state the reduction ends in a good one, as `post` says, unless
it is interrupted, which it only is where it `may` be. -/
def Ends (good : σ → Prop) (may : Prop) (action : Reduction σ α)
    (post : Except SyntaxError α → Prop) : Prop :=
  ∀ state, good state →
    match action state with
    | .error _ => may
    | .ok (outcome, state) => good state ∧ post outcome

section Rules

variable {good : σ → Prop} {may : Prop} {action : Reduction σ α}
  {post post' : Except SyntaxError α → Prop}

theorem Ends.outcome (ends : Ends good may action post) {state state' : σ}
    {outcome : Except SyntaxError α} (start : good state)
    (run : action state = .ok (outcome, state')) : good state' ∧ post outcome := by
  have ended := ends state start
  rw [run] at ended
  exact ended

theorem Ends.exists_outcome (ends : Ends good False action post) (state : σ)
    (start : good state) :
    ∃ outcome state', action state = .ok (outcome, state') ∧ good state' ∧
      post outcome := by
  have ended := ends state start
  cases run : action state with
  | error interruption =>
      rw [run] at ended
      contradiction
  | ok ending =>
      rw [run] at ended
      exact ⟨ending.1, ending.2, rfl, ended⟩

theorem Ends.of_outcomes
    (outcomes : ∀ state outcome state', good state →
      action state = .ok (outcome, state') → good state' ∧ post outcome) :
    Ends good True action post := by
  intro state start
  cases run : action state with
  | error interruption => trivial
  | ok ending => exact outcomes state ending.1 ending.2 start run

theorem Ends.weaken (ends : Ends good may action post)
    (implied : ∀ outcome, post outcome → post' outcome) :
    Ends good may action post' := by
  intro state start
  have ended := ends state start
  split at ended
  · exact ended
  · exact ended.imp_right (implied _)

theorem Ends.pure {value : α} (holds : post (.ok value)) :
    Ends good may (pure value) post :=
  fun _ start => ⟨start, holds⟩

theorem Ends.refuse {error : SyntaxError} (holds : post (.error error)) :
    Ends good may (refuse error) post :=
  fun _ start => ⟨start, holds⟩

theorem Ends.ofExcept {outcome : Except SyntaxError α} (holds : post outcome) :
    Ends good may (ofExcept outcome) post := by
  cases outcome with
  | error error => exact .refuse holds
  | ok value => exact .pure holds

theorem Ends.interrupt {interruption : Interruption} (allowed : may) :
    Ends good may (interrupt interruption) post :=
  fun _ _ => allowed

theorem Ends.update {change : σ → α × σ}
    (holds : ∀ state, good state →
      good (change state).2 ∧ post (.ok (change state).1)) :
    Ends good may (update change) post :=
  fun state start => holds state start

theorem Ends.attempt (ends : Ends good may action post) :
    Ends good may action.attempt fun outcome =>
      ∃ ending, outcome = .ok ending ∧ post ending := by
  intro state start
  have ended := ends state start
  rw [Reduction.attempt]
  cases run : action state with
  | error interruption =>
      rw [run] at ended
      exact ended
  | ok ending =>
      rw [run] at ended
      exact ⟨ended.1, ending.1, rfl, ended.2⟩

theorem Ends.bind {next : α → Reduction σ β} {last : Except SyntaxError β → Prop}
    (first : Ends good may action post)
    (rest : ∀ value, post (.ok value) → Ends good may (next value) last)
    (stops : ∀ error, post (.error error) → last (.error error)) :
    Ends good may (action >>= next) last := by
  intro state start
  have ended := first state start
  change match Reduction.bind action next state with
    | .error _ => may
    | .ok (outcome, state) => good state ∧ last outcome
  unfold Reduction.bind
  rcases run : action state with interruption | ⟨_ | value, state'⟩
  · rw [run] at ended
    exact ended
  · rw [run] at ended
    exact ⟨ended.1, stops _ ended.2⟩
  · rw [run] at ended
    exact rest value ended.2 state' ended.1

end Rules

/-! ## What is kept of a value -/

def Gives (record : α → β) (good : σ → Prop) (may : Prop) (action : Reduction σ α)
    (post : Except SyntaxError β → Prop) : Prop :=
  Ends good may action fun outcome => post (outcome.map record)

section Records

variable {δ : Type} {record : α → β} {record' : γ → δ} {good : σ → Prop} {may : Prop}
  {action : Reduction σ α} {post post' : Except SyntaxError β → Prop}
  {last : Except SyntaxError δ → Prop}

theorem Gives.weaken (gives : Gives record good may action post)
    (implied : ∀ outcome, post outcome → post' outcome) :
    Gives record good may action post' :=
  Ends.weaken gives fun _ => implied _

theorem Gives.pure {value : α} (holds : post (.ok (record value))) :
    Gives record good may (Pure.pure value) post :=
  Ends.pure holds

theorem Gives.refuse {error : SyntaxError} (holds : post (.error error)) :
    Gives record good may (Reduction.refuse error) post :=
  Ends.refuse holds

theorem Gives.interrupt {interruption : Interruption} (allowed : may) :
    Gives record good may (Reduction.interrupt interruption) post :=
  Ends.interrupt allowed

theorem Gives.bind {next : α → Reduction σ γ}
    (first : Gives record good may action post)
    (rest : ∀ value, post (.ok (record value)) →
      Gives record' good may (next value) last)
    (stops : ∀ error, post (.error error) → last (.error error)) :
    Gives record' good may (action >>= next) last :=
  Ends.bind first rest stops

theorem Gives.bind_pure {finish : α → γ} {finish' : β → δ}
    (first : Gives record good may action post)
    (same : ∀ value, record' (finish value) = finish' (record value))
    (implied : ∀ outcome, post outcome → last (outcome.map finish')) :
    Gives record' good may (action >>= fun value => Pure.pure (finish value)) last := by
  refine first.bind (fun value holds => .pure ?_) (fun error holds => ?_)
  · rw [same]
    exact implied _ holds
  · exact implied _ holds

end Records

/-! ## Lists of reductions -/

/-- Items are taken in order up to the first that is refused. -/
inductive Each (answer : α → Except SyntaxError β → Prop) :
    List α → Except SyntaxError (List β) → Prop
  | nil : Each answer [] (.ok [])
  | refused {item items error} (refused : answer item (.error error)) :
      Each answer (item :: items) (.error error)
  | cons {item items value outcome} (first : answer item (.ok value))
      (rest : Each answer items outcome) :
      Each answer (item :: items) (outcome.map (value :: ·))

section Each

variable {answer answer' : α → Except SyntaxError β → Prop} {items : List α}
  {outcome : Except SyntaxError (List β)}

theorem Each.mono (each : Each answer items outcome)
    (implied : ∀ item ∈ items, ∀ outcome, answer item outcome →
      answer' item outcome) :
    Each answer' items outcome := by
  induction each with
  | nil => exact .nil
  | refused refused => exact .refused (implied _ List.mem_cons_self _ refused)
  | cons first rest ih =>
      exact .cons (implied _ List.mem_cons_self _ first)
        (ih fun item member => implied item (List.mem_cons_of_mem _ member))

theorem Each.mono_ok {values : List β} (each : Each answer items (.ok values))
    (implied : ∀ item ∈ items, ∀ value ∈ values, answer item (.ok value) →
      answer' item (.ok value)) :
    Each answer' items (.ok values) := by
  generalize ended : Except.ok values = outcome at each
  induction each generalizing values with
  | nil => exact .nil
  | refused => contradiction
  | cons first _ ih =>
      obtain ⟨rest, rfl, rfl⟩ := exists_of_map_ok ended.symm
      refine .cons (implied _ List.mem_cons_self _ List.mem_cons_self first) ?_
      refine ih (fun item member value member' => ?_) rfl
      exact implied item (List.mem_cons_of_mem _ member) value
        (List.mem_cons_of_mem _ member')

theorem Each.exists_item {values : List β} (each : Each answer items (.ok values))
    {value : β} (member : value ∈ values) :
    ∃ item ∈ items, answer item (.ok value) := by
  generalize ended : Except.ok values = outcome at each
  induction each generalizing values with
  | nil =>
      cases ended
      contradiction
  | refused => contradiction
  | cons first _ ih =>
      obtain ⟨rest, rfl, rfl⟩ := exists_of_map_ok ended.symm
      rcases List.mem_cons.mp member with rfl | member
      · exact ⟨_, List.mem_cons_self, first⟩
      · obtain ⟨item, member, answers⟩ := ih member rfl
        exact ⟨item, List.mem_cons_of_mem _ member, answers⟩

theorem Each.exists_value {values : List β} (each : Each answer items (.ok values))
    {item : α} (member : item ∈ items) :
    ∃ value ∈ values, answer item (.ok value) := by
  generalize ended : Except.ok values = outcome at each
  induction each generalizing values with
  | nil => contradiction
  | refused => contradiction
  | cons first _ ih =>
      obtain ⟨rest, rfl, rfl⟩ := exists_of_map_ok ended.symm
      rcases List.mem_cons.mp member with rfl | member
      · exact ⟨_, List.mem_cons_self, first⟩
      · obtain ⟨value, taken, answers⟩ := ih member rfl
        exact ⟨value, List.mem_cons_of_mem _ taken, answers⟩

theorem Each.unique {outcome' : Except SyntaxError (List β)}
    (unique : ∀ item outcome outcome', answer item outcome → answer item outcome' →
      outcome = outcome')
    (each : Each answer items outcome) (each' : Each answer items outcome') :
    outcome = outcome' := by
  induction each generalizing outcome' with
  | nil =>
      cases each'
      rfl
  | refused refused =>
      cases each' with
      | refused refused' =>
          cases unique _ _ _ refused refused'
          rfl
      | cons first => cases unique _ _ _ refused first
  | cons first _ ih =>
      cases each' with
      | refused refused => cases unique _ _ _ first refused
      | cons first' rest =>
          cases unique _ _ _ first first'
          rw [ih rest]

theorem Each.exists_bound {answers : Nat → α → Except SyntaxError β → Prop}
    (rising : ∀ {low high item outcome}, low ≤ high → answers low item outcome →
      answers high item outcome)
    (each : Each (fun item outcome => ∃ bound, answers bound item outcome) items
      outcome) :
    ∃ bound, Each (answers bound) items outcome := by
  induction each with
  | nil => exact ⟨0, .nil⟩
  | refused refused =>
      obtain ⟨bound, refused⟩ := refused
      exact ⟨bound, .refused refused⟩
  | cons first _ ih =>
      obtain ⟨bound, first⟩ := first
      obtain ⟨bound', rest⟩ := ih
      refine ⟨max bound bound', .cons (rising (Nat.le_max_left _ _) first) ?_⟩
      exact rest.mono fun _ _ _ => rising (Nat.le_max_right _ _)

variable {good : σ → Prop} {may : Prop} {action : α → Reduction σ γ}
  {record : γ → β}

theorem Gives.mapM
    (gives : ∀ item ∈ items, Gives record good may (action item) (answer item)) :
    Gives (List.map record) good may (items.mapM action) (Each answer items) := by
  induction items with
  | nil =>
      rw [List.mapM_nil]
      exact .pure .nil
  | cons item items ih =>
      rw [List.mapM_cons]
      have rest := ih fun item member => gives item (List.mem_cons_of_mem _ member)
      refine (gives item List.mem_cons_self).bind (fun value first => ?_)
        (fun error refused => .refused refused)
      exact rest.bind_pure (fun _ => rfl) (fun _ each => .cons first each)

theorem Gives.mapM_known (each : Each answer items outcome)
    (gives : ∀ item ∈ items, ∀ outcome, answer item outcome →
      Gives record good may (action item) (· = outcome)) :
    Gives (List.map record) good may (items.mapM action) (· = outcome) := by
  induction each with
  | nil =>
      rw [List.mapM_nil]
      exact .pure rfl
  | refused refused =>
      rw [List.mapM_cons]
      refine (gives _ List.mem_cons_self _ refused).bind (fun value same => ?_)
        (fun error same => ?_)
      · contradiction
      · cases same
        rfl
  | @cons item items value outcome first rest ih =>
      rw [List.mapM_cons]
      have rest := ih fun item member => gives item (List.mem_cons_of_mem _ member)
      refine (gives item List.mem_cons_self _ first).bind (fun value' same => ?_)
        (fun error same => ?_)
      · cases same
        exact rest.bind_pure (fun _ => rfl) (fun _ same => same ▸ rfl)
      · contradiction

end Each

/-! ## What a reduction yields -/

/-- Whatever value the reduction has from a good state is as `post` says, and the
state is good again. -/
def Yields (good : σ → Prop) (action : Reduction σ α) (post : α → Prop) : Prop :=
  Ends good True action fun outcome => ∀ value, outcome = .ok value → post value

theorem Yields.of_run {good : σ → Prop} {action : Reduction σ α} {post : α → Prop}
    (yields : Yields good action post) {state state' : σ} {value : α}
    (start : good state) (run : action state = .ok (.ok value, state')) : post value :=
  (Ends.outcome yields start run).2 value rfl

/-! ## Why a reduction may be refused -/

/-- Whatever value the reduction has from a good state is as `post` says, it is refused
with none but these `errors`, and the state is good again. -/
def Confines (good : σ → Prop) (errors : SyntaxError → Prop) (action : Reduction σ α)
    (post : α → Prop) : Prop :=
  Ends good True action fun outcome =>
    match outcome with
    | .ok value => post value
    | .error error => errors error

section Confines

variable {good : σ → Prop} {errors : SyntaxError → Prop} {action : Reduction σ α}
  {post post' : α → Prop}

theorem Confines.yields (confines : Confines good errors action post) :
    Yields good action post :=
  Ends.weaken confines fun _ holds value same => by
    subst same
    exact holds

theorem Confines.of_run (confines : Confines good errors action post) {state state' : σ}
    {value : α} (start : good state) (run : action state = .ok (.ok value, state')) :
    post value :=
  (Ends.outcome confines start run).2

theorem Confines.of_refused (confines : Confines good errors action post)
    {state state' : σ} {error : SyntaxError} (start : good state)
    (run : action state = .ok (.error error, state')) : errors error :=
  (Ends.outcome confines start run).2

theorem Confines.weaken (confines : Confines good errors action post)
    (implied : ∀ value, post value → post' value) :
    Confines good errors action post' :=
  Ends.weaken confines fun outcome holds =>
    match outcome with
    | .ok value => implied value holds
    | .error _ => holds

theorem Confines.pure {value : α} (holds : post value) :
    Confines good errors (Pure.pure value) post :=
  Ends.pure holds

theorem Confines.refuse {error : SyntaxError} (allowed : errors error) :
    Confines good errors (Reduction.refuse error) post :=
  Ends.refuse allowed

theorem Confines.interrupt {interruption : Interruption} :
    Confines good errors (Reduction.interrupt interruption) post :=
  Ends.interrupt trivial

theorem Confines.written {writable : Bool} {value : α} (holds : post value) :
    Confines good errors (Reduction.written writable value) post := by
  cases writable with
  | false => exact .interrupt
  | true => exact .pure holds

theorem Confines.update {change : σ → α × σ}
    (holds : ∀ state, good state → good (change state).2 ∧ post (change state).1) :
    Confines good errors (Reduction.update change) post :=
  Ends.update holds

theorem Confines.bind {next : α → Reduction σ β} {last : β → Prop}
    (first : Confines good errors action post)
    (rest : ∀ value, post value → Confines good errors (next value) last) :
    Confines good errors (action >>= next) last :=
  Ends.bind first rest fun _ allowed => allowed

theorem Confines.attempt_bind {between : Reduction σ Unit}
    (confines : Confines good errors action post)
    (kept : Confines good errors between fun _ => True) :
    Confines good errors
      (do
        let outcome ← action.attempt
        between
        Reduction.ofExcept outcome) post := by
  refine Ends.bind (Ends.attempt confines) ?_ (by simp)
  rintro ending ⟨_, ⟨⟩, holds⟩
  exact kept.bind fun _ _ => Ends.ofExcept holds

theorem Confines.mapM {action : α → Reduction σ β} {answer : α → β → Prop}
    {items : List α}
    (confines : ∀ item ∈ items, Confines good errors (action item) (answer item)) :
    Confines good errors (items.mapM action) (List.Forall₂ answer items) := by
  induction items with
  | nil =>
      rw [List.mapM_nil]
      exact .pure .nil
  | cons item items ih =>
      rw [List.mapM_cons]
      have rest := ih fun item member => confines item (List.mem_cons_of_mem _ member)
      refine (confines item List.mem_cons_self).bind fun value holds => ?_
      exact rest.bind fun values each => .pure (.cons holds each)

end Confines

end Reduction

end TracedEval
