/-!
# Arities

An arity says how many arguments a function takes and which of them are reduced
before it is applied.  Required arguments come first, then optional ones, then any
number of further ones where the function is variadic.
-/

namespace TracedEval

inductive ArgumentMode where
  | strict
  | lazy
  deriving DecidableEq, Repr, Inhabited

structure Arity where
  required : List ArgumentMode
  optional : List ArgumentMode
  variadic : Option ArgumentMode
  deriving DecidableEq, Repr, Inhabited

namespace Arity

def accepts (arity : Arity) (count : Nat) : Bool :=
  arity.required.length ≤ count &&
    (arity.variadic.isSome ||
      count ≤ arity.required.length + arity.optional.length)

def modes (arity : Arity) (count : Nat) : List ArgumentMode :=
  (arity.required ++ arity.optional ++
    (arity.variadic.toList.flatMap (List.replicate count))).take count

def text (arity : Arity) : String :=
  match arity.variadic, arity.optional.length with
  | some _, _ => "at least " ++ toString arity.required.length
  | none, 0 => toString arity.required.length
  | none, extra =>
      "between " ++ toString arity.required.length ++ " and " ++
        toString (arity.required.length + extra)

def anyStrict : Arity :=
  ⟨[], [], some .strict⟩

def strict (count : Nat) : Arity :=
  ⟨List.replicate count .strict, [], none⟩

def lazy (count : Nat) : Arity :=
  ⟨List.replicate count .lazy, [], none⟩

end Arity

end TracedEval
