import Mathlib.Data.List.TakeWhile
import TracedEval.Form.Reader

/-!
# Slices of texts

A text is a row of bytes, and a character takes one to four of them.  A slice of a text
is said by an offset in bytes, and an offset inside a character or beyond the end is a
fault (`isSome_cut_iff`).

Whatever reads a text here goes from slice to slice, and finds its offsets by counting
bytes.  Where it calls itself again it is given a bound to how deep these calls may
lie, so that it can be said that none ever lies deeper.
-/

namespace TracedEval.Reader

open Token

/-! ## Bytes -/

def size : List Char → Nat
  | [] => 0
  | char :: rest => char.utf8Size + size rest

/-- What stands before and after an offset, unless it is inside a character or beyond
the end. -/
def cut : Nat → List Char → Option (List Char × List Char)
  | 0, chars => some ([], chars)
  | _ + 1, [] => none
  | offset + 1, char :: rest =>
      if char.utf8Size ≤ offset + 1 then
        (cut (offset + 1 - char.utf8Size) rest).map
          (fun (before, after) => (char :: before, after))
      else none

@[simp] theorem size_nil : size [] = 0 := rfl

@[simp] theorem size_cons (char : Char) (chars : List Char) :
    size (char :: chars) = char.utf8Size + size chars := rfl

@[simp] theorem size_append (before after : List Char) :
    size (before ++ after) = size before + size after := by
  induction before with
  | nil => simp
  | cons char before ih => simp [ih, Nat.add_assoc]

theorem size_eq_zero {chars : List Char} : size chars = 0 ↔ chars = [] := by
  cases chars with
  | nil => simp
  | cons char chars =>
      have positive := char.utf8Size_pos
      simp only [size_cons, reduceCtorEq, iff_false]
      omega

theorem size_eq_utf8ByteSize (chars : List Char) :
    size chars = (String.ofList chars).utf8ByteSize := by
  induction chars with
  | nil => rfl
  | cons char chars ih => simp [String.ofList_cons, ih]

theorem cut_eq_some_iff {offset : Nat} {chars before after : List Char} :
    cut offset chars = some (before, after) ↔
      before ++ after = chars ∧ size before = offset := by
  induction chars generalizing offset before with
  | nil =>
      cases offset with
      | zero =>
          simp only [cut, Option.some.injEq, Prod.mk.injEq, List.append_eq_nil_iff,
            size_eq_zero]
          grind
      | succ offset =>
          simp only [cut, reduceCtorEq, List.append_eq_nil_iff, false_iff, not_and]
          rintro ⟨rfl, -⟩
          simp
  | cons char rest ih =>
      have positive := char.utf8Size_pos
      cases offset with
      | zero =>
          simp only [cut, Option.some.injEq, Prod.mk.injEq, size_eq_zero]
          constructor
          · rintro ⟨rfl, rfl⟩
            simp
          · rintro ⟨joined, rfl⟩
            simpa using joined.symm
      | succ offset =>
          cases before with
          | nil => simp [cut, Option.map_eq_some_iff]
          | cons first before =>
              simp only [cut, List.cons_append, List.cons.injEq, size_cons]
              split
              · rename_i fits
                simp only [Option.map_eq_some_iff, Prod.exists, Prod.mk.injEq,
                  List.cons.injEq]
                constructor
                · rintro ⟨_, _, found, ⟨rfl, rfl⟩, rfl⟩
                  obtain ⟨joined, length⟩ := ih.mp found
                  exact ⟨⟨rfl, joined⟩, by omega⟩
                · rintro ⟨⟨rfl, joined⟩, length⟩
                  exact ⟨before, after, ih.mpr ⟨joined, by omega⟩, ⟨rfl, rfl⟩, rfl⟩
              · simp only [reduceCtorEq, false_iff, not_and]
                rintro ⟨rfl, -⟩
                omega

theorem isSome_cut_iff {offset : Nat} {chars : List Char} :
    (cut offset chars).isSome ↔
      String.Pos.Raw.IsValid (String.ofList chars) ⟨offset⟩ := by
  rw [String.Pos.Raw.isValid_iff_exists_append, Option.isSome_iff_exists, Prod.exists]
  constructor
  · rintro ⟨before, after, found⟩
    obtain ⟨rfl, rfl⟩ := cut_eq_some_iff.mp found
    refine ⟨String.ofList before, String.ofList after, String.ofList_append, ?_⟩
    rw [size_eq_utf8ByteSize]
    rfl
  · rintro ⟨before, after, joined, position⟩
    refine ⟨before.toList, after.toList, cut_eq_some_iff.mpr ⟨?_, ?_⟩⟩
    · rw [← String.toList_append, ← joined, String.toList_ofList]
    · rw [size_eq_utf8ByteSize, String.ofList_toList]
      exact (congrArg String.Pos.Raw.byteIdx position).symm

theorem isValid_of_suffix {input rest : List Char} (suffix : rest <:+ input) :
    String.Pos.Raw.IsValid (String.ofList input) ⟨size input - size rest⟩ := by
  obtain ⟨before, rfl⟩ := suffix
  have offset : size before = size (before ++ rest) - size rest := by
    rw [size_append, Nat.add_sub_cancel]
  rw [← isSome_cut_iff, cut_eq_some_iff.mpr ⟨rfl, offset⟩]
  rfl

/-! ## Slices -/

inductive Halt where
  /-- A text was to be cut inside a character or beyond its end. -/
  | misplaced
  /-- A call of a function by itself lay deeper than it was allowed to. -/
  | deeper
  | refused (error : ReadError)
  | overlong

def sliceFrom (offset : Nat) (input : List Char) : Except Halt (List Char) :=
  match cut offset input with
  | some (_, after) => .ok after
  | none => .error .misplaced

def sliceTo (offset : Nat) (input : List Char) : Except Halt (List Char) :=
  match cut offset input with
  | some (before, _) => .ok before
  | none => .error .misplaced

theorem cut_append (before after : List Char) :
    cut (size before) (before ++ after) = some (before, after) :=
  cut_eq_some_iff.mpr ⟨rfl, rfl⟩

theorem sliceFrom_append (before after : List Char) :
    sliceFrom (size before) (before ++ after) = .ok after := by
  rw [sliceFrom, cut_append]

theorem sliceTo_append (before after : List Char) :
    sliceTo (size before) (before ++ after) = .ok before := by
  rw [sliceTo, cut_append]

theorem sliceFrom_cons (char : Char) (rest : List Char) :
    sliceFrom char.utf8Size (char :: rest) = .ok rest :=
  sliceFrom_append [char] rest

theorem sliceFrom_takeWhile (keeps : Char → Bool) (input : List Char) :
    sliceFrom (size (input.takeWhile keeps)) input = .ok (input.dropWhile keeps) := by
  have cutThere := sliceFrom_append (input.takeWhile keeps) (input.dropWhile keeps)
  rwa [List.takeWhile_append_dropWhile] at cutThere

theorem sliceTo_takeWhile (keeps : Char → Bool) (input : List Char) :
    sliceTo (size (input.takeWhile keeps)) input = .ok (input.takeWhile keeps) := by
  have cutThere := sliceTo_append (input.takeWhile keeps) (input.dropWhile keeps)
  rwa [List.takeWhile_append_dropWhile] at cutThere

def firstOf {α : Type} (first second : Except Halt (Option α)) : Except Halt (Option α) := do
  match ← first with
  | some found => return some found
  | none => second

@[simp] theorem ok_bind {α β : Type} (value : α) (next : α → Except Halt β) :
    (Except.ok value >>= next) = next value := rfl

@[simp] theorem pure_eq_ok {α : Type} (value : α) :
    (pure value : Except Halt α) = .ok value := rfl

section FirstOf

variable {α : Type} (second : Except Halt (Option α))

@[simp] theorem firstOf_some (found : α) :
    firstOf (.ok (some found)) second = .ok (some found) := rfl

@[simp] theorem firstOf_none : firstOf (.ok none) second = second := rfl

@[simp] theorem firstOf_error (halt : Halt) :
    firstOf (.error halt) second = .error halt := rfl

end FirstOf

def Ends {α : Type} (found : α → Prop) (refused : ReadError → Prop) : Except Halt α → Prop
  | .ok value => found value
  | .error (.refused error) => refused error
  | .error _ => False

namespace Ends

variable {α β : Type} {found found' : α → Prop} {later : β → Prop}
  {refused refused' : ReadError → Prop} {reading : Except Halt α}

theorem mono (ends : Ends found refused reading) (onFound : ∀ value, found value → found' value)
    (onRefused : ∀ error, refused error → refused' error) : Ends found' refused' reading := by
  cases reading with
  | ok value => exact onFound value ends
  | error halt =>
      cases halt with
      | refused error => exact onRefused error ends
      | _ => exact ends

theorem bind {next : α → Except Halt β} (ends : Ends found refused reading)
    (onFound : ∀ value, found value → Ends later refused' (next value))
    (onRefused : ∀ error, refused error → refused' error) :
    Ends later refused' (reading >>= next) := by
  cases reading with
  | ok value => exact onFound value ends
  | error halt =>
      cases halt with
      | refused error => exact onRefused error ends
      | _ => exact ends

end Ends

/-! ## Single characters and runs of them -/

def consumeChar (char : Char) (input : List Char) : Except Halt (Option (List Char)) :=
  match input.head? with
  | some first =>
      if first = char then (sliceFrom first.utf8Size input).map some else .ok none
  | none => .ok none

def indices : Nat → List Char → List (Nat × Char)
  | _, [] => []
  | offset, char :: rest => (offset, char) :: indices (offset + char.utf8Size) rest

def firstIndex (sought : Char → Bool) (input : List Char) : Option Nat :=
  ((indices 0 input).find? fun entry => sought entry.2).map Prod.fst

def consumeWhile (keeps : Char → Bool) (input : List Char) :
    Except Halt (Option (List Char × List Char)) :=
  let length := (firstIndex (fun char => !keeps char) input).getD (size input)
  if 0 < length then do
    let parsed ← sliceTo length input
    let remaining ← sliceFrom length input
    pure (some (parsed, remaining))
  else pure none

section Characters

variable {char first : Char} {input rest : List Char}

@[simp] theorem consumeChar_nil (char : Char) : consumeChar char [] = .ok none := rfl

@[simp] theorem consumeChar_self (char : Char) (rest : List Char) :
    consumeChar char (char :: rest) = .ok (some rest) := by
  simp only [consumeChar, List.head?_cons, if_pos, sliceFrom_cons]
  rfl

theorem consumeChar_ne (differs : first ≠ char) (rest : List Char) :
    consumeChar char (first :: rest) = .ok none := by
  simp only [consumeChar, List.head?_cons, if_neg differs]

theorem consumeChar_of_head? (absent : input.head? ≠ some char) :
    consumeChar char input = .ok none := by
  cases input with
  | nil => rfl
  | cons first rest => exact consumeChar_ne (by simpa using absent) rest

theorem find?_indices (sought : Char → Bool) (offset : Nat) (input : List Char) :
    ((indices offset input).find? fun entry => sought entry.2).map Prod.fst =
      if input.any sought then
        some (offset + size (input.takeWhile fun char => !sought char))
      else none := by
  induction input generalizing offset with
  | nil => simp [indices]
  | cons first rest ih =>
      cases isSought : sought first with
      | true => simp [indices, isSought]
      | false => simp [indices, isSought, ih, Nat.add_assoc]

theorem firstIndex_eq (sought : Char → Bool) (input : List Char) :
    firstIndex sought input =
      if input.any sought then some (size (input.takeWhile fun char => !sought char))
      else none := by
  rw [firstIndex, find?_indices]
  simp

def run (keeps : Char → Bool) (input : List Char) : Option (List Char × List Char) :=
  match input.takeWhile keeps with
  | [] => none
  | kept => some (kept, input.dropWhile keeps)

theorem consumeWhile_eq (keeps : Char → Bool) (input : List Char) :
    consumeWhile keeps input = .ok (run keeps input) := by
  have length : (firstIndex (fun char => !keeps char) input).getD (size input) =
      size (input.takeWhile keeps) := by
    rw [firstIndex_eq]
    split
    · simp
    · rename_i none
      have all : ∀ char ∈ input, keeps char = true := by simpa using none
      rw [List.takeWhile_eq_self_iff.mpr all]
      rfl
  unfold consumeWhile run
  simp only [length, sliceTo_takeWhile, sliceFrom_takeWhile]
  cases input.takeWhile keeps with
  | nil => rfl
  | cons first kept =>
      have positive := first.utf8Size_pos
      rw [if_pos (by simp only [size_cons]; omega)]
      rfl

end Characters

/-! ## Blanks and comments -/

def sliceFromFirst (sought : Char → Bool) (input : List Char) : Except Halt (List Char) :=
  match firstIndex sought input with
  | some index => sliceFrom index input
  | none => .ok []

def consumeWhitespace : Nat → List Char → Except Halt (List Char)
  | 0, _ => .error .deeper
  | depth + 1, input => do
      let input := input.dropWhile isSeparator
      match ← consumeChar ';' input with
      | some comment => consumeWhitespace depth (← sliceFromFirst (· == '\n') comment)
      | none => pure input

theorem sliceFromFirst_eq (sought : Char → Bool) (input : List Char) :
    sliceFromFirst sought input = .ok (input.dropWhile fun char => !sought char) := by
  rw [sliceFromFirst, firstIndex_eq]
  split
  · rename_i found
    split at found
    · cases found
      rw [sliceFrom_takeWhile]
    · contradiction
  · rename_i absent
    split at absent
    · contradiction
    · rename_i nowhere
      rw [List.dropWhile_eq_nil_iff.mpr (by simpa using nowhere)]

theorem skipFrom_dropWhile (input : List Char) :
    skipFrom false (input.dropWhile isSeparator) = skipFrom false input := by
  induction input with
  | nil => rfl
  | cons char rest ih =>
      cases separates : isSeparator char with
      | true => rw [List.dropWhile_cons_of_pos separates, ih, skipFrom, if_pos separates]
      | false => rw [List.dropWhile_cons_of_neg (by simp [separates])]

theorem skipFrom_true (comment : List Char) :
    skipFrom true comment = skipFrom false (comment.dropWhile fun char => !char == '\n') := by
  induction comment with
  | nil => rfl
  | cons char rest ih =>
      by_cases ends : char = '\n'
      · subst ends
        rfl
      · rw [List.dropWhile_cons_of_pos (by simpa using ends), ← ih, skipFrom,
          bne_iff_ne.mpr ends]

theorem consumeWhitespace_eq {depth : Nat} {input : List Char}
    (enough : input.length < depth) :
    consumeWhitespace depth input = .ok (skipSeparators input) := by
  induction depth generalizing input with
  | zero => contradiction
  | succ depth ih =>
      have shorter := (List.dropWhile_suffix isSeparator (l := input)).length_le
      rw [consumeWhitespace, skipSeparators, ← skipFrom_dropWhile]
      cases left : input.dropWhile isSeparator with
      | nil => rfl
      | cons first rest =>
          have separate : isSeparator first = false := by
            have stopped := List.head?_dropWhile_not isSeparator input
            rwa [left] at stopped
          rw [left, List.length_cons] at shorter
          by_cases comments : first = ';'
          · subst comments
            have afterComment :=
              (List.dropWhile_suffix (fun char => !char == '\n') (l := rest)).length_le
            simp only [consumeChar_self, sliceFromFirst_eq, bind, Except.bind]
            rw [ih (by omega), skipFrom, separate, if_neg (by simp), if_pos rfl,
              skipFrom_true]
            rfl
          · rw [consumeChar_ne comments, skipFrom, separate, if_neg (by simp),
              if_neg comments]
            rfl

end TracedEval.Reader
