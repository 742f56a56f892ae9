import Mathlib.Data.List.TakeWhile

/-!
# Tokenizer — `Tokenizer.hs` of the filter expressions

A lazy `Text` is the list of its characters (surrogate code points occur in neither).  `none` is
the exception that `TL.head` raises on the empty text.
-/

namespace Etude
namespace Tokenizer

abbrev Text := List Char

/-! ## Character classes -/

/-- `['a' .. 'z']` -/
def charRange (lo hi : Char) : List Char :=
  (List.range' lo.toNat (hi.toNat + 1 - lo.toNat)).map Char.ofNat

def blankChars : List Char := ['\n', '\r', '\t', ' ']

def arithOpChars : List Char := ['+', '-', '*', '/']

def comparatorChars : List Char := ['<', '=', '>']

def getValueOpChars : List Char := ['[', ']']

def numberStartChars : List Char := ['0', '1', '2', '3', '4', '5', '6', '7', '8', '9']

def numberChars : List Char := '.' :: numberStartChars

def symbolStartChars : List Char := ['_'] ++ charRange 'A' 'Z' ++ charRange 'a' 'z'

def symbolChars : List Char := symbolStartChars ++ charRange '0' '9'

/-! ## Tokens -/

/-- The recursion that `blank`, `number`, `symbol` and `comparator` share: move characters of the
class from `input` to the end of `o`. -/
def accumulate (chars : List Char) : Text → Text → Text × Text
  | o, [] => (o, [])
  | o, c :: input => if c ∈ chars then accumulate chars (o ++ [c]) input else (o, c :: input)

def blank : Text → Text → Text × Text := accumulate blankChars

def number : Text → Text → Text × Text := accumulate numberChars

def symbol : Text → Text → Text × Text := accumulate symbolChars

def comparator : Text → Text → Text × Text := accumulate comparatorChars

def token : Text → Option (Text × Text)
  | [] => none
  | c :: tail =>
      if c ∈ blankChars then some (blank [c] tail)
      else if c ∈ numberStartChars then some (number [c] tail)
      else if c ∈ symbolStartChars then some (symbol [c] tail)
      else if c ∈ arithOpChars then some ([c], tail)
      else if c ∈ comparatorChars then some (comparator [c] tail)
      else if c ∈ getValueOpChars then some ([c], tail)
      else some ([c], tail)

/-! ## The loop of `tokenize` -/

theorem accumulate_eq (chars : List Char) (o input : Text) :
    accumulate chars o input =
      (o ++ input.takeWhile (· ∈ chars), input.dropWhile (· ∈ chars)) := by
  induction input generalizing o with
  | nil =>
      simp [accumulate]
  | cons c input ih =>
      by_cases hc : c ∈ chars
      · simp [accumulate, hc, ih]
      · simp [accumulate, hc]

theorem accumulate_snd_length_le (chars : List Char) (o input : Text) :
    (accumulate chars o input).2.length ≤ input.length := by
  rw [accumulate_eq]
  exact List.length_dropWhile_le _ input

/-- `token` makes progress. -/
theorem token_length_lt {input t i : Text} (h : token input = some (t, i)) :
    i.length < input.length := by
  cases input with
  | nil =>
      simp [token] at h
  | cons c tail =>
      have hacc : ∀ chars, accumulate chars [c] tail = (t, i) → i.length < tail.length + 1 := by
        intro chars heq
        have hle := accumulate_snd_length_le chars [c] tail
        rw [heq] at hle
        exact Nat.lt_succ_of_le hle
      have hone : ([c], tail) = (t, i) → i.length < tail.length + 1 := by
        intro heq
        cases heq
        exact Nat.lt_succ_self _
      simp only [token, blank, number, symbol, comparator] at h
      simp only [List.length_cons]
      split_ifs at h <;> first
        | exact hacc _ (Option.some.inj h)
        | exact hone (Option.some.inj h)

def loop (tokens : List Text) (remaining : Text) : Option (List Text × Text) :=
  match _h : token remaining with
  | none => none
  | some (t, i) => if i = [] then some (tokens ++ [t], i) else loop (tokens ++ [t]) i
termination_by remaining.length
decreasing_by exact token_length_lt _h

def tokenize (input : Text) : Option (List Text × Text) :=
  if input = [] then some ([], []) else loop [] input

end Tokenizer
end Etude
