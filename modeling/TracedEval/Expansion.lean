import TracedEval.Bindings

/-!
# Macro expansion

A symbol bound to an application names a macro.  Applying it replaces, in the
bound application, `%name` by the applied symbol and `%0`, `%1`, ... by the
arguments as they were written.  All parameters are replaced at once: what is put
in is not searched again.  The keys of a map are never touched.
-/

namespace TracedEval

inductive SyntaxError where
  | invalidMacroSymbol (symbol : Symbol) (expansion : Term)
  | invalidMapKey (key : Term)
  | refused (reason : String)
  deriving Inhabited

namespace SyntaxError

def message : SyntaxError → String
  | invalidMacroSymbol symbol expansion =>
      "Error expanding function symbol '" ++ symbol.text ++ "' to '" ++
        expansion.text ++
        "': macro expansion of a function symbol must also be a function symbol"
  | invalidMapKey key =>
      "Invalid map key: expected constant, received " ++ key.text
  | refused reason => reason

def quoted : SyntaxError → List Term
  | invalidMacroSymbol _ expansion => [expansion]
  | invalidMapKey key => [key]
  | refused _ => []

def isWritable (error : SyntaxError) : Bool :=
  error.quoted.all Term.isWritable

end SyntaxError

structure Application where
  head : Symbol
  args : List Term
  deriving Inhabited

def Application.term (application : Application) : Term :=
  .application application.head application.args

namespace Expansion

/-- The symbol that stands for the argument at an index. -/
def parameter (index : Nat) : Symbol :=
  ⟨none, String.ofList ('%' :: Numeral.naturalChars index)⟩

def nameParameter : Symbol :=
  ⟨none, "%name"⟩

def parameters (source : Application) : Bindings :=
  (Bindings.ofList
    (source.args.zipIdx.map (fun (arg, index) => (parameter index, arg)))).insert
      nameParameter (.symbol source.head)

/-- A head may only be replaced by another symbol. -/
def substituteHead (values : Bindings) (head : Symbol) :
    Except SyntaxError Symbol :=
  match values.find? head with
  | none => .ok head
  | some (.symbol symbol) => .ok symbol
  | some expansion => .error (.invalidMacroSymbol head expansion)

mutual

/-- Replace every bound symbol by its value, heads before arguments. -/
def substitute (values : Bindings) : Term → Except SyntaxError Term
  | .symbol symbol => .ok ((values.find? symbol).getD (.symbol symbol))
  | .list items => (substituteAll values items).map .list
  | .set elements => (substituteAll values elements).map .setOf
  | .map entries => (substituteEntries values entries).map .map
  | .application head args =>
      match substituteHead values head with
      | .error error => .error error
      | .ok head => (substituteAll values args).map (.application head)
  | term => .ok term

def substituteAll (values : Bindings) :
    List Term → Except SyntaxError (List Term)
  | [] => .ok []
  | item :: items =>
      match substitute values item with
      | .error error => .error error
      | .ok item => (substituteAll values items).map (item :: ·)

def substituteEntries (values : Bindings) :
    List (Term × Term) → Except SyntaxError (List (Term × Term))
  | [] => .ok []
  | (key, value) :: entries =>
      match substitute values value with
      | .error error => .error error
      | .ok value => (substituteEntries values entries).map ((key, value) :: ·)

end

def substituteApplication (values : Bindings) (application : Application) :
    Except SyntaxError Application :=
  match substituteHead values application.head with
  | .error error => .error error
  | .ok head => (substituteAll values application.args).map (⟨head, ·⟩)

def expand (source body : Application) : Except SyntaxError Application :=
  substituteApplication (parameters source) body

end Expansion

end TracedEval
