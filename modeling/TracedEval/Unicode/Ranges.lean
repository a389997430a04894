/-!
# Ranges of characters

A class of characters is given by the ranges of its code points, lowest first.
-/

namespace TracedEval.Unicode

def inRanges (ranges : List (Nat × Nat)) (code : Nat) : Bool :=
  match ranges with
  | [] => false
  | (low, high) :: rest =>
      if code < low then false
      else if code ≤ high then true
      else inRanges rest code

end TracedEval.Unicode
