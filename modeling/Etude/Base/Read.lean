import Mathlib.Data.Nat.Notation
import Mathlib.Data.Int.Notation
import Mathlib.Data.List.Basic

/-!
# Read — integers as `read` of Haskell takes them

A number is decimal, or hexadecimal or octal behind `0x` or `0o`; a minus sign, parentheses around
it all and white space between them may stand in front.
-/

namespace Etude
namespace Base
namespace Read

abbrev Str := List Char

/-- The value of a digit of the base. -/
def valDig (base : ℕ) (c : Char) : Option ℕ :=
  let digit :=
    if '0' ≤ c ∧ c ≤ '9' then some (c.toNat - 48)
    else if 'a' ≤ c ∧ c ≤ 'f' then some (c.toNat - 87)
    else if 'A' ≤ c ∧ c ≤ 'F' then some (c.toNat - 55)
    else none
  digit.filter fun d => d < base

/-- All digits in front, behind those that make up `n`. -/
def moreDigits (base n : ℕ) : Str → ℕ × Str
  | [] => (n, [])
  | c :: cs =>
    match valDig base c with
    | some d => moreDigits base (base * n + d) cs
    | none => (n, c :: cs)

/-- All digits in front, one at least. -/
def lexDigits (base : ℕ) : Str → Option (ℕ × Str)
  | [] => none
  | c :: cs => (valDig base c).map fun d => moreDigits base d cs

/-- A number without sign.  What would make it a fraction is left, and is no number's end. -/
def lexNumber (s : Str) : Option (ℕ × Str) :=
  match s with
  | '0' :: c :: cs =>
    if c = 'x' ∨ c = 'X' then (lexDigits 16 cs).or (lexDigits 10 s)
    else if c = 'o' ∨ c = 'O' then (lexDigits 8 cs).or (lexDigits 10 s)
    else lexDigits 10 s
  | s => lexDigits 10 s

section Space

variable (isSpace : Char → Bool)

/-- The opening parentheses in front, and what follows them. -/
def opening (n : ℕ) : Str → ℕ × Str
  | [] => (n, [])
  | c :: cs =>
    if isSpace c then opening n cs
    else if c = '(' then opening (n + 1) cs
    else (n, c :: cs)

/-- Just as many closing parentheses are left. -/
def closing : ℕ → Str → Bool
  | n, [] => n = 0
  | n, c :: cs =>
    if isSpace c then closing n cs
    else
      match n with
      | 0 => false
      | n + 1 => c = ')' && closing n cs

def sign : Str → Bool × Str
  | '-' :: cs => (true, cs.dropWhile isSpace)
  | cs => (false, cs)

/-- `read`, at a type of integers; `none` is `no parse`. -/
def readInt (s : Str) : Option ℤ := do
  let (n, s) := opening isSpace 0 s
  let (negative, s) := sign isSpace s
  let (v, s) ← lexNumber s
  if closing isSpace n s then some (if negative then -v else v) else none

end Space

example : readInt (fun c => c = ' ') "( (- 0x1F) ) ".toList = some (-31) := by decide

example : readInt (fun c => c = ' ') "12.0".toList = none := by decide

end Read
end Base
end Etude
