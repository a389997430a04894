import TracedEval.Expansion

/-!
# Reductions

A reduction works on a state, which it changes even where it gives up with a
`SyntaxError`.  It may also be interrupted without an outcome: because the bound
on nested reductions is used up, because it would have to wait for another
thread, or because a text would be longer than any text can be.
-/

namespace TracedEval

inductive Interruption where
  | exhausted
  | blocked
  | overlong
  deriving DecidableEq, Repr, Inhabited

abbrev Outcome (σ α : Type) := Except Interruption (Except SyntaxError α × σ)

def Reduction (σ α : Type) := σ → Outcome σ α

namespace Reduction

variable {σ α β : Type}

def run (action : Reduction σ α) (state : σ) : Outcome σ α :=
  action state

def ofFun (action : σ → Outcome σ α) : Reduction σ α :=
  action

protected def pure (value : α) : Reduction σ α :=
  fun state => .ok (.ok value, state)

protected def bind (action : Reduction σ α) (next : α → Reduction σ β) :
    Reduction σ β :=
  fun state =>
    match action state with
    | .error interruption => .error interruption
    | .ok (.error error, state) => .ok (.error error, state)
    | .ok (.ok value, state) => next value state

instance : Monad (Reduction σ) where
  pure := Reduction.pure
  bind := Reduction.bind

instance : Inhabited (Reduction σ α) :=
  ⟨fun _ => .error .exhausted⟩

def refuse (error : SyntaxError) : Reduction σ α :=
  fun state => .ok (.error error, state)

def interrupt (interruption : Interruption) : Reduction σ α :=
  fun _ => .error interruption

/-- A value made of texts, or an interruption if these are not `writable`.  Only in
the first case the value is computed. -/
@[macro_inline] def written (writable : Bool) (value : α) : Reduction σ α :=
  if writable then Reduction.pure value else interrupt .overlong

def ofExcept : Except SyntaxError α → Reduction σ α
  | .ok value => Reduction.pure value
  | .error error => refuse error

/-- Run a reduction and look at how it ended, without giving up. -/
def attempt (action : Reduction σ α) : Reduction σ (Except SyntaxError α) :=
  fun state =>
    match action state with
    | .error interruption => .error interruption
    | .ok (outcome, state) => .ok (.ok outcome, state)

def read : Reduction σ σ :=
  fun state => .ok (.ok state, state)

def update (change : σ → α × σ) : Reduction σ α :=
  fun state =>
    let (value, state) := change state
    .ok (.ok value, state)

private theorem bind_pure_id (action : Reduction σ α) :
    Reduction.bind action (fun value => Reduction.pure value) = action := by
  funext state
  unfold Reduction.bind
  split <;> simp_all [Reduction.pure]

private theorem bind_bind {γ : Type} (action : Reduction σ α)
    (next : α → Reduction σ β) (last : β → Reduction σ γ) :
    Reduction.bind (Reduction.bind action next) last =
      Reduction.bind action (fun value => Reduction.bind (next value) last) := by
  funext state
  unfold Reduction.bind
  cases action state with
  | error => rfl
  | ok outcome =>
      obtain ⟨outcome, state⟩ := outcome
      cases outcome <;> rfl

instance : LawfulMonad (Reduction σ) :=
  LawfulMonad.mk' (Reduction σ) bind_pure_id (fun _ _ => rfl) bind_bind

end Reduction

end TracedEval
