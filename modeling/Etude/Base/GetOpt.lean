import Mathlib.Data.List.Basic

/-!
# GetOpt — command lines with options in any place

The parser of `System.Console.GetOpt` with the ordering `Permute`: options and other arguments
come in any order up to a `--`, long options may be abbreviated, short ones may be bundled.  The
values of the options are of any type, and the parser is natural in it (`getOpt_map`).
-/

namespace Etude
namespace Base
namespace GetOpt

universe u v

variable {α : Type u} {β : Type v}

/-- A string, as a list of characters. -/
abbrev Str := List Char

inductive ArgDescr (α : Type u) where
  | noArg (a : α)
  | reqArg (f : Str → α) (name : Str)
  | optArg (f : Option Str → α) (name : Str)

structure OptDescr (α : Type u) where
  shortNames : List Char
  longNames : List Str
  arg : ArgDescr α
  help : Str

inductive OptError where
  | ambiguous (options : List (List Char × List Str)) (opt : Str)
  | noArgument (opt : Str)
  | required (name opt : Str)
  | unrecognized (opt : Str)
  deriving DecidableEq, Repr

inductive OptKind (α : Type u) where
  | opt (a : α)
  | unreqOpt (u : Str)
  | nonOpt (x : Str)
  | endOfOpts
  | optErr (e : OptError)

/-! ## One argument -/

namespace OptDescr

def names (d : OptDescr α) : List Char × List Str :=
  (d.shortNames, d.longNames)

end OptDescr

/-- The one option that a long name stands for, with what follows the name in its argument. -/
def longArg (ad : ArgDescr α) (optStr arg : Str) (rest : List Str) : OptKind α × List Str :=
  match ad, arg, rest with
  | .noArg a, [], rest => (.opt a, rest)
  | .noArg _, _ :: _, rest => (.optErr (.noArgument optStr), rest)
  | .reqArg _ name, [], [] => (.optErr (.required name optStr), [])
  | .reqArg f _, [], r :: rest => (.opt (f r), rest)
  | .reqArg f _, _ :: xs, rest => (.opt (f xs), rest)
  | .optArg f _, [], rest => (.opt (f none), rest)
  | .optArg f _, _ :: xs, rest => (.opt (f (some xs)), rest)

def long (options : List (OptDescr α)) (optStr ls arg : Str) (rest : List Str) :
    OptKind α × List Str :=
  match options with
  | [] => (.unreqOpt ('-' :: '-' :: ls), rest)
  | [d] => longArg d.arg optStr arg rest
  | _ :: _ :: _ => (.optErr (.ambiguous (options.map OptDescr.names) optStr), rest)

/-- The name is read up to an `=`, and an exact match is preferred to abbreviations. -/
def longOpt (ls : Str) (rest : List Str) (optDescr : List (OptDescr α)) :
    OptKind α × List Str :=
  let opt := ls.takeWhile (· != '=')
  let arg := ls.dropWhile (· != '=')
  let exact := optDescr.filter fun d => d.longNames.any (opt == ·)
  -- Abbreviations count only where no name matches exactly.
  let options :=
    if exact.isEmpty then optDescr.filter fun d => d.longNames.any (opt.isPrefixOf ·) else exact
  long options ('-' :: '-' :: opt) ls arg rest

/-- The one option that a short name stands for, with the characters behind it. -/
def shortArg (ad : ArgDescr α) (optStr ys : Str) (rest : List Str) : OptKind α × List Str :=
  match ad, ys, rest with
  | .noArg a, [], rest => (.opt a, rest)
  | .noArg a, y :: ys, rest => (.opt a, ('-' :: y :: ys) :: rest)
  | .reqArg _ name, [], [] => (.optErr (.required name optStr), [])
  | .reqArg f _, [], r :: rest => (.opt (f r), rest)
  | .reqArg f _, y :: ys, rest => (.opt (f (y :: ys)), rest)
  | .optArg f _, [], rest => (.opt (f none), rest)
  | .optArg f _, y :: ys, rest => (.opt (f (some (y :: ys))), rest)

def short (options : List (OptDescr α)) (optStr ys : Str) (rest : List Str) :
    OptKind α × List Str :=
  match options with
  -- The characters behind an unknown option are tried as options of their own.
  | [] => (.unreqOpt optStr, if ys.isEmpty then rest else ('-' :: ys) :: rest)
  | [d] => shortArg d.arg optStr ys rest
  | _ :: _ :: _ => (.optErr (.ambiguous (options.map OptDescr.names) optStr), rest)

def shortOpt (y : Char) (ys : Str) (rest : List Str) (optDescr : List (OptDescr α)) :
    OptKind α × List Str :=
  short (optDescr.filter fun d => d.shortNames.contains y) ['-', y] ys rest

def getNext (arg : Str) (rest : List Str) (optDescr : List (OptDescr α)) :
    OptKind α × List Str :=
  match arg with
  | ['-', '-'] => (.endOfOpts, rest)
  | '-' :: '-' :: xs => longOpt xs rest optDescr
  | '-' :: x :: xs => shortOpt x xs rest optDescr
  -- A lone `-` is an argument like any other.
  | a => (.nonOpt a, rest)

/-! ## The whole command line -/

/-- The options, the other arguments, the unrecognized options and the errors. -/
structure Parsed (α : Type u) where
  opts : List α
  nonOpts : List Str
  unrecognized : List Str
  errs : List OptError

/-- Bundled short options are put back one character shorter, so the characters of the command
line bound the number of steps. -/
def argsSize : List Str → ℕ
  | [] => 0
  | arg :: args => arg.length + 1 + argsSize args

def getOptSteps : ℕ → List (OptDescr α) → List Str → Parsed α
  | _, _, [] => { opts := [], nonOpts := [], unrecognized := [], errs := [] }
  | 0, _, _ :: _ => { opts := [], nonOpts := [], unrecognized := [], errs := [] }
  | n + 1, optDescr, arg :: args =>
      let next := getNext arg args optDescr
      let p := getOptSteps n optDescr next.2
      match next.1 with
      | .opt o => { p with opts := o :: p.opts }
      | .unreqOpt u => { p with unrecognized := u :: p.unrecognized }
      | .nonOpt x => { p with nonOpts := x :: p.nonOpts }
      -- Behind `--` nothing is an option any more.
      | .endOfOpts => { opts := [], nonOpts := next.2, unrecognized := [], errs := [] }
      | .optErr e => { p with errs := e :: p.errs }

def getOpt' (optDescr : List (OptDescr α)) (args : List Str) : Parsed α :=
  getOptSteps (argsSize args) optDescr args

/-- `getOpt Permute` -/
def getOpt (optDescr : List (OptDescr α)) (args : List Str) :
    List α × List Str × List OptError :=
  let p := getOpt' optDescr args
  (p.opts, p.nonOpts, p.errs ++ p.unrecognized.map OptError.unrecognized)

/-! ## The bound on the steps -/

theorem argsSize_cons (arg : Str) (args : List Str) :
    argsSize (arg :: args) = arg.length + 1 + argsSize args :=
  rfl

theorem longArg_size (ad : ArgDescr α) (optStr arg : Str) (rest : List Str) :
    argsSize (longArg ad optStr arg rest).2 ≤ argsSize rest := by
  unfold longArg
  split <;> simp only [argsSize_cons, Nat.le_refl, Nat.le_add_left]

theorem long_size (options : List (OptDescr α)) (optStr ls arg : Str) (rest : List Str) :
    argsSize (long options optStr ls arg rest).2 ≤ argsSize rest := by
  unfold long
  split
  · exact Nat.le_refl _
  · exact longArg_size _ _ _ _
  · exact Nat.le_refl _

theorem longOpt_size (ls : Str) (rest : List Str) (optDescr : List (OptDescr α)) :
    argsSize (longOpt ls rest optDescr).2 ≤ argsSize rest :=
  long_size _ _ _ _ _

theorem shortArg_size (ad : ArgDescr α) (optStr ys : Str) (rest : List Str) :
    argsSize (shortArg ad optStr ys rest).2 ≤ ys.length + 2 + argsSize rest := by
  unfold shortArg
  -- The only argument put back is the bundle without its first option.
  split <;> simp only [argsSize_cons, List.length_cons, List.length_nil] <;> omega

theorem shortOpt_size (y : Char) (ys : Str) (rest : List Str) (optDescr : List (OptDescr α)) :
    argsSize (shortOpt y ys rest optDescr).2 ≤ ys.length + 2 + argsSize rest := by
  unfold shortOpt short
  split
  · by_cases hys : ys.isEmpty
    · simp only [hys, if_true]
      omega
    · simp only [hys, Bool.false_eq_true, if_false, argsSize_cons, List.length_cons]
      omega
  · exact shortArg_size _ _ _ _
  · simp only
    omega

theorem getNext_size (arg : Str) (rest : List Str) (optDescr : List (OptDescr α)) :
    argsSize (getNext arg rest optDescr).2 < argsSize (arg :: rest) := by
  rw [argsSize_cons]
  unfold getNext
  split
  · simp only [List.length_cons]
    omega
  · simp only [List.length_cons]
    exact Nat.lt_of_le_of_lt (longOpt_size _ _ _) (by omega)
  · simp only [List.length_cons]
    exact Nat.lt_of_le_of_lt (shortOpt_size _ _ _ _) (by omega)
  · simp only
    omega

/-- Steps beyond the size of the command line change nothing. -/
theorem getOptSteps_eq {m n : ℕ} (optDescr : List (OptDescr α)) {args : List Str}
    (hm : argsSize args ≤ m) (hn : argsSize args ≤ n) :
    getOptSteps m optDescr args = getOptSteps n optDescr args := by
  -- Each step leaves a smaller command line, whatever the bound.
  induction m generalizing n args with
  | zero =>
      cases args with
      | nil =>
          cases n <;> rfl
      | cons arg args =>
          rw [argsSize_cons] at hm
          omega
  | succ m ih =>
      cases args with
      | nil =>
          cases n <;> rfl
      | cons arg args =>
          cases n with
          | zero =>
              rw [argsSize_cons] at hn
              omega
          | succ n =>
              have hnext := getNext_size arg args optDescr
              have hrest : getOptSteps m optDescr (getNext arg args optDescr).2 =
                  getOptSteps n optDescr (getNext arg args optDescr).2 :=
                ih (by omega) (by omega)
              simp only [getOptSteps, hrest]

/-- The recursion of `getOpt'` over the command line, without the bound. -/
theorem getOpt'_cons (optDescr : List (OptDescr α)) (arg : Str) (args : List Str) :
    getOpt' optDescr (arg :: args) =
      let next := getNext arg args optDescr
      let p := getOpt' optDescr next.2
      match next.1 with
      | .opt o => { p with opts := o :: p.opts }
      | .unreqOpt u => { p with unrecognized := u :: p.unrecognized }
      | .nonOpt x => { p with nonOpts := x :: p.nonOpts }
      | .endOfOpts => { opts := [], nonOpts := next.2, unrecognized := [], errs := [] }
      | .optErr e => { p with errs := e :: p.errs } := by
  have hnext := getNext_size arg args optDescr
  have hsize : argsSize (arg :: args) = arg.length + argsSize args + 1 := by
    rw [argsSize_cons]
    omega
  have hrest : getOptSteps (arg.length + argsSize args) optDescr (getNext arg args optDescr).2 =
      getOpt' optDescr (getNext arg args optDescr).2 :=
    getOptSteps_eq optDescr (by omega) (Nat.le_refl _)
  rw [getOpt', hsize]
  simp only [getOptSteps, hrest]

/-! ## Naturality -/

def ArgDescr.map (g : α → β) : ArgDescr α → ArgDescr β
  | .noArg a => .noArg (g a)
  | .reqArg f name => .reqArg (fun s => g (f s)) name
  | .optArg f name => .optArg (fun s => g (f s)) name

def OptDescr.map (g : α → β) (d : OptDescr α) : OptDescr β :=
  { shortNames := d.shortNames
    longNames := d.longNames
    arg := d.arg.map g
    help := d.help }

def OptKind.map (g : α → β) : OptKind α → OptKind β
  | .opt a => .opt (g a)
  | .unreqOpt u => .unreqOpt u
  | .nonOpt x => .nonOpt x
  | .endOfOpts => .endOfOpts
  | .optErr e => .optErr e

section Naturality

variable (g : α → β)

theorem longArg_map (ad : ArgDescr α) (optStr arg : Str) (rest : List Str) :
    longArg (ad.map g) optStr arg rest =
      ((longArg ad optStr arg rest).1.map g, (longArg ad optStr arg rest).2) := by
  cases ad with
  | noArg a =>
      cases arg <;> rfl
  | reqArg f name =>
      cases arg with
      | nil =>
          cases rest <;> rfl
      | cons c xs =>
          rfl
  | optArg f name =>
      cases arg <;> rfl

theorem shortArg_map (ad : ArgDescr α) (optStr ys : Str) (rest : List Str) :
    shortArg (ad.map g) optStr ys rest =
      ((shortArg ad optStr ys rest).1.map g, (shortArg ad optStr ys rest).2) := by
  cases ad with
  | noArg a =>
      cases ys <;> rfl
  | reqArg f name =>
      cases ys with
      | nil =>
          cases rest <;> rfl
      | cons c xs =>
          rfl
  | optArg f name =>
      cases ys <;> rfl

theorem names_map (options : List (OptDescr α)) :
    (options.map (OptDescr.map g)).map OptDescr.names = options.map OptDescr.names := by
  rw [List.map_map]
  rfl

theorem long_map (options : List (OptDescr α)) (optStr ls arg : Str) (rest : List Str) :
    long (options.map (OptDescr.map g)) optStr ls arg rest =
      ((long options optStr ls arg rest).1.map g, (long options optStr ls arg rest).2) := by
  match options with
  | [] => rfl
  | [d] => exact longArg_map g d.arg optStr arg rest
  | d :: d' :: ds =>
      have herr : long ((d :: d' :: ds).map (OptDescr.map g)) optStr ls arg rest =
          (.optErr (.ambiguous (((d :: d' :: ds).map (OptDescr.map g)).map OptDescr.names) optStr),
            rest) := rfl
      rw [herr, names_map]
      rfl

theorem short_map (options : List (OptDescr α)) (optStr ys : Str) (rest : List Str) :
    short (options.map (OptDescr.map g)) optStr ys rest =
      ((short options optStr ys rest).1.map g, (short options optStr ys rest).2) := by
  match options with
  | [] => rfl
  | [d] => exact shortArg_map g d.arg optStr ys rest
  | d :: d' :: ds =>
      have herr : short ((d :: d' :: ds).map (OptDescr.map g)) optStr ys rest =
          (.optErr (.ambiguous (((d :: d' :: ds).map (OptDescr.map g)).map OptDescr.names) optStr),
            rest) := rfl
      rw [herr, names_map]
      rfl

/-- Which descriptions a name stands for does not depend on the values. -/
theorem filter_map_names (p : List Str → Bool) (optDescr : List (OptDescr α)) :
    (optDescr.map (OptDescr.map g)).filter (fun d => p d.longNames) =
      (optDescr.filter fun d => p d.longNames).map (OptDescr.map g) := by
  rw [List.filter_map]
  rfl

theorem longOpt_map (ls : Str) (rest : List Str) (optDescr : List (OptDescr α)) :
    longOpt ls rest (optDescr.map (OptDescr.map g)) =
      ((longOpt ls rest optDescr).1.map g, (longOpt ls rest optDescr).2) := by
  have hexact := filter_map_names g
    (fun names => names.any (ls.takeWhile (· != '=') == ·)) optDescr
  have habbrev := filter_map_names g
    (fun names => names.any ((ls.takeWhile (· != '=')).isPrefixOf ·)) optDescr
  -- The same descriptions are selected, exactly or by abbreviation.
  simp only [longOpt, hexact, habbrev, List.isEmpty_map, ← long_map, apply_ite]

theorem shortOpt_map (y : Char) (ys : Str) (rest : List Str) (optDescr : List (OptDescr α)) :
    shortOpt y ys rest (optDescr.map (OptDescr.map g)) =
      ((shortOpt y ys rest optDescr).1.map g, (shortOpt y ys rest optDescr).2) := by
  have hfilter : (optDescr.map (OptDescr.map g)).filter (fun d => d.shortNames.contains y) =
      (optDescr.filter fun d => d.shortNames.contains y).map (OptDescr.map g) := by
    rw [List.filter_map]
    rfl
  rw [shortOpt, hfilter, short_map]
  rfl

theorem getNext_map (arg : Str) (rest : List Str) (optDescr : List (OptDescr α)) :
    getNext arg rest (optDescr.map (OptDescr.map g)) =
      ((getNext arg rest optDescr).1.map g, (getNext arg rest optDescr).2) := by
  unfold getNext
  split
  · rfl
  · exact longOpt_map g _ _ _
  · exact shortOpt_map g _ _ _ _
  · rfl

theorem getOptSteps_map (n : ℕ) (optDescr : List (OptDescr α)) (args : List Str) :
    getOptSteps n (optDescr.map (OptDescr.map g)) args =
      let p := getOptSteps n optDescr args
      { opts := p.opts.map g
        nonOpts := p.nonOpts
        unrecognized := p.unrecognized
        errs := p.errs } := by
  induction n generalizing args with
  | zero =>
      cases args <;> rfl
  | succ n ih =>
      cases args with
      | nil =>
          rfl
      | cons arg args =>
          simp only [getOptSteps, getNext_map, ih]
          cases (getNext arg args optDescr).1 <;> rfl

/-- Options of another type are parsed the same and then mapped. -/
theorem getOpt_map (optDescr : List (OptDescr α)) (args : List Str) :
    getOpt (optDescr.map (OptDescr.map g)) args =
      ((getOpt optDescr args).1.map g, (getOpt optDescr args).2) := by
  simp only [getOpt, getOpt', getOptSteps_map]

end Naturality

end GetOpt
end Base
end Etude
