import TracedEval.Term

/-!
# Environments and sets of symbols

An environment binds symbols to terms.  Its entries lie in the order of their
symbols, so two environments that bind the same symbols to the same terms are
the same value.
-/

namespace TracedEval

structure Bindings where
  entries : List (Symbol × Term)
  sorted : SortedList.Sorted (SortedList.byKey Symbol.compare) entries

namespace Bindings

def empty : Bindings :=
  ⟨[], List.Pairwise.nil⟩

instance : Inhabited Bindings := ⟨empty⟩

def size (bindings : Bindings) : Nat :=
  bindings.entries.length

def isEmpty (bindings : Bindings) : Bool :=
  bindings.entries.isEmpty

def symbols (bindings : Bindings) : List Symbol :=
  bindings.entries.map (·.1)

def find? (bindings : Bindings) (symbol : Symbol) : Option Term :=
  SortedList.find? Symbol.compare symbol bindings.entries

def binds (bindings : Bindings) (symbol : Symbol) : Bool :=
  (bindings.find? symbol).isSome

def insert (bindings : Bindings) (symbol : Symbol) (value : Term) : Bindings :=
  ⟨SortedList.insert (SortedList.byKey Symbol.compare) (symbol, value)
    bindings.entries, bindings.sorted.insert _⟩

/-- Bind symbols one after another, so that the last binding counts. -/
def extend (bindings : Bindings) (additions : List (Symbol × Term)) : Bindings :=
  ⟨SortedList.insertAll (SortedList.byKey Symbol.compare) bindings.entries
    additions, bindings.sorted.insertAll _⟩

def ofList (entries : List (Symbol × Term)) : Bindings :=
  empty.extend entries

/-- Bind what another environment binds, unless it is bound already. -/
def supplement (bindings other : Bindings) : Bindings :=
  bindings.extend (other.entries.filter (fun entry => !bindings.binds entry.1))

/-- Everything either side binds.  Where both bind a symbol, the side that binds
more symbols is preferred, and the first of two that bind equally many. -/
def merge (first second : Bindings) : Bindings :=
  if second.size ≤ first.size then first.supplement second
  else second.supplement first

def union (first second : Bindings) : Bindings :=
  if second.isEmpty then first
  else if first.isEmpty then second
  else first.merge second

def without (bindings : Bindings) (symbols : List Symbol) : Bindings :=
  ⟨bindings.entries.filter (fun entry => !symbols.contains entry.1),
    bindings.sorted.filter _⟩

/-- Every entry of `part` is in `whole` with an equal value. -/
def isSatisfiedBy (part whole : Bindings) : Bool :=
  part.size ≤ whole.size &&
    part.entries.all (fun entry =>
      match whole.find? entry.1 with
      | some value => entry.2.equal value
      | none => false)

/-- Entry by entry in the order of symbols, each by symbol and then by value. -/
def compare (first second : Bindings) : Ordering :=
  SortedList.compareLists
    (fun entry other =>
      (entry.1.compare other.1).then (entry.2.compare other.2))
    first.entries second.entries

def equal (first second : Bindings) : Bool :=
  first.compare second == .eq

private def writeEntries : List (Symbol × Term) → List Char
  | [] => []
  | [(symbol, value)] => symbol.chars ++ ' ' :: value.chars
  | (symbol, value) :: entries =>
    symbol.chars ++ ' ' :: value.write (',' :: ' ' :: writeEntries entries)

def chars (bindings : Bindings) : List Char :=
  '{' :: (writeEntries bindings.entries ++ ['}'])

def asEntries (bindings : Bindings) : List (Term × Term) :=
  bindings.entries.map fun entry => (.symbol entry.1, entry.2)

private theorem writeEntries_append (symbol : Symbol) (value : Term)
    (entries : List (Symbol × Term)) (rest : List Char) :
    writeEntries ((symbol, value) :: entries) ++ rest =
      symbol.chars ++ ' ' :: value.write
        (Term.writeEntries (entries.map fun entry => (.symbol entry.1, entry.2)) rest) := by
  induction entries generalizing symbol value with
  | nil =>
      rw [writeEntries, List.append_assoc, List.cons_append, Term.chars,
        ← Term.write_append]
      rfl
  | cons entry entries ih =>
      rw [writeEntries, List.append_assoc, List.cons_append, ← Term.write_append,
        List.cons_append, List.cons_append, ih]
      · rfl
      · simp

theorem chars_eq_map (bindings : Bindings) :
    bindings.chars = (Term.map bindings.asEntries).chars := by
  obtain ⟨entries, sorted⟩ := bindings
  cases entries with
  | nil => rfl
  | cons entry entries =>
      rw [chars, writeEntries_append]
      rfl

def text (bindings : Bindings) : String :=
  String.ofList bindings.chars

def isWritable (bindings : Bindings) : Bool :=
  bindings.entries.all (fun entry => entry.2.isWritable)

end Bindings

structure SymbolSet where
  members : List Symbol
  sorted : SortedList.Sorted Symbol.compare members
  deriving DecidableEq

namespace SymbolSet

def empty : SymbolSet :=
  ⟨[], List.Pairwise.nil⟩

instance : Inhabited SymbolSet := ⟨empty⟩

def ofList (symbols : List Symbol) : SymbolSet :=
  ⟨SortedList.ofList Symbol.compare symbols, SortedList.sorted_ofList symbols⟩

def union (first second : SymbolSet) : SymbolSet :=
  ⟨SortedList.insertAll Symbol.compare first.members second.members,
    first.sorted.insertAll _⟩

def isEmpty (set : SymbolSet) : Bool :=
  set.members.isEmpty

def size (set : SymbolSet) : Nat :=
  set.members.length

def isUnboundIn (set : SymbolSet) (bindings : Bindings) : Bool :=
  set.members.all (fun symbol => !bindings.binds symbol)

end SymbolSet

end TracedEval
