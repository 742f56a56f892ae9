import Etude.Base.GetOpt

/-!
# CommandLine — the command lines that `getOpt` accepts in front

`Items` spells out command lines without errors: flags, options with their argument behind an `=`,
joined to a short name or as the next argument, bundles of short options, and other arguments.
`getOpt` reads them as they are meant, whatever comes behind them.
-/

namespace Etude
namespace Base
namespace GetOpt

universe u

variable {α : Type u} {optDescr : List (OptDescr α)}

/-! ## Names -/

/-- The one option with the long name `n`. -/
def LongName (optDescr : List (OptDescr α)) (n : Str) (ad : ArgDescr α) : Prop :=
  n ≠ [] ∧ '=' ∉ n ∧ ∃ d, (optDescr.filter fun d => d.longNames.any (n == ·)) = [d] ∧ d.arg = ad

/-- The one option with the short name `c`. -/
def ShortName (optDescr : List (OptDescr α)) (c : Char) (ad : ArgDescr α) : Prop :=
  c ≠ '-' ∧ ∃ d, (optDescr.filter fun d => d.shortNames.contains c) = [d] ∧ d.arg = ad

/-- An argument that is no option. -/
def Plain (x : Str) : Prop :=
  x.head? ≠ some '-' ∨ x = ['-']

/-- The characters are short names of flags, in a bundle. -/
inductive Flags (optDescr : List (OptDescr α)) : Str → List α → Prop
  | nil : Flags optDescr [] []
  | cons {c : Char} {cs : Str} {a : α} {as : List α} :
      ShortName optDescr c (.noArg a) → Flags optDescr cs as → Flags optDescr (c :: cs) (a :: as)

/-- Arguments that are read as the options `as` and the other arguments `xs`. -/
inductive Items (optDescr : List (OptDescr α)) : List Str → List α → List Str → Prop
  | nil : Items optDescr [] [] []
  | plain {x : Str} {args : List Str} {as : List α} {xs : List Str} :
      Plain x → Items optDescr args as xs → Items optDescr (x :: args) as (x :: xs)
  | longFlag {n : Str} {a : α} {args : List Str} {as : List α} {xs : List Str} :
      LongName optDescr n (.noArg a) → Items optDescr args as xs →
      Items optDescr (('-' :: '-' :: n) :: args) (a :: as) xs
  | longEq {n v name : Str} {f : Str → α} {args : List Str} {as : List α} {xs : List Str} :
      LongName optDescr n (.reqArg f name) → Items optDescr args as xs →
      Items optDescr (('-' :: '-' :: n ++ '=' :: v) :: args) (f v :: as) xs
  | longNext {n v name : Str} {f : Str → α} {args : List Str} {as : List α} {xs : List Str} :
      LongName optDescr n (.reqArg f name) → Items optDescr args as xs →
      Items optDescr (('-' :: '-' :: n) :: v :: args) (f v :: as) xs
  | flags {cs : Str} {bs : List α} {args : List Str} {as : List α} {xs : List Str} :
      cs ≠ [] → Flags optDescr cs bs → Items optDescr args as xs →
      Items optDescr (('-' :: cs) :: args) (bs ++ as) xs
  | joined {cs v name : Str} {c : Char} {bs : List α} {f : Str → α} {args : List Str}
      {as : List α} {xs : List Str} :
      Flags optDescr cs bs → ShortName optDescr c (.reqArg f name) → v ≠ [] →
      Items optDescr args as xs →
      Items optDescr (('-' :: cs ++ c :: v) :: args) (bs ++ f v :: as) xs
  | next {cs v name : Str} {c : Char} {bs : List α} {f : Str → α} {args : List Str}
      {as : List α} {xs : List Str} :
      Flags optDescr cs bs → ShortName optDescr c (.reqArg f name) →
      Items optDescr args as xs →
      Items optDescr (('-' :: cs ++ [c]) :: v :: args) (bs ++ f v :: as) xs

theorem items_plain {xs : List Str} (h : ∀ x ∈ xs, Plain x) : Items optDescr xs [] xs := by
  induction xs with
  | nil =>
      exact .nil
  | cons x xs ih =>
      exact .plain (h x (by simp)) (ih fun y hy => h y (by simp [hy]))

/-! ## Reading one argument -/

theorem getNext_long {n : Str} (hn : n ≠ []) (rest : List Str) :
    getNext ('-' :: '-' :: n) rest optDescr = longOpt n rest optDescr := by
  cases n with
  | nil => exact absurd rfl hn
  | cons c cs => rfl

theorem getNext_short {c : Char} (hc : c ≠ '-') (cs : Str) (rest : List Str) :
    getNext ('-' :: c :: cs) rest optDescr = shortOpt c cs rest optDescr := by
  unfold getNext
  split
  · simp_all
  · simp_all
  · simp_all
  · rename_i h
    exact absurd rfl (h c cs)

theorem getNext_plain {x : Str} (h : Plain x) (rest : List Str) :
    getNext x rest optDescr = (.nonOpt x, rest) := by
  rcases h with hhead | rfl
  · unfold getNext
    split
    · exact absurd rfl hhead
    · exact absurd rfl hhead
    · exact absurd rfl hhead
    · rfl
  · rfl

/-- The name ends at the first `=`. -/
theorem longOpt_of_longName {n : Str} {ad : ArgDescr α} (h : LongName optDescr n ad) {arg : Str}
    (harg : arg = [] ∨ ∃ v, arg = '=' :: v) (rest : List Str) :
    longOpt (n ++ arg) rest optDescr = longArg ad ('-' :: '-' :: n) arg rest := by
  rcases h with ⟨-, hequals, d, hd, rfl⟩
  have hall : ∀ c ∈ n, (c != '=') = true := by
    intro c hc
    rw [bne_iff_ne]
    rintro rfl
    exact hequals hc
  have hsplit : (n ++ arg).takeWhile (· != '=') = n ∧ (n ++ arg).dropWhile (· != '=') = arg := by
    rw [List.takeWhile_append_of_pos hall, List.dropWhile_append_of_pos hall]
    rcases harg with rfl | ⟨v, rfl⟩
    · simp
    · simp
  simp only [longOpt, hsplit.1, hsplit.2, hd, long]
  rfl

theorem shortOpt_of_shortName {c : Char} {ad : ArgDescr α} (h : ShortName optDescr c ad) (cs : Str)
    (rest : List Str) : shortOpt c cs rest optDescr = shortArg ad ['-', c] cs rest := by
  rcases h with ⟨-, d, hd, rfl⟩
  simp only [shortOpt, hd, short]

/-! ## Reading the command line -/

/-- The options and the other arguments that are read in front of others. -/
def Parsed.behind (as : List α) (xs : List Str) (p : Parsed α) : Parsed α :=
  { p with
    opts := as ++ p.opts
    nonOpts := xs ++ p.nonOpts }

theorem Parsed.behind_behind (as bs : List α) (xs ys : List Str) (p : Parsed α) :
    (p.behind bs ys).behind as xs = p.behind (as ++ bs) (xs ++ ys) := by
  simp [behind]

theorem Parsed.behind_nil (p : Parsed α) : p.behind [] [] = p :=
  rfl

theorem getOpt'_of_opt {arg : Str} {a : α} {args rest : List Str}
    (h : getNext arg args optDescr = (.opt a, rest)) :
    getOpt' optDescr (arg :: args) = (getOpt' optDescr rest).behind [a] [] := by
  rw [getOpt'_cons, h]
  rfl

theorem getOpt'_of_nonOpt {arg x : Str} {args rest : List Str}
    (h : getNext arg args optDescr = (.nonOpt x, rest)) :
    getOpt' optDescr (arg :: args) = (getOpt' optDescr rest).behind [] [x] := by
  rw [getOpt'_cons, h]
  rfl

theorem getOpt'_flag {c : Char} {a : α} (h : ShortName optDescr c (.noArg a)) (cs : Str)
    (rest : List Str) :
    getOpt' optDescr (('-' :: c :: cs) :: rest) =
      (getOpt' optDescr (if cs = [] then rest else ('-' :: cs) :: rest)).behind [a] [] := by
  refine getOpt'_of_opt ?_
  rw [getNext_short h.1, shortOpt_of_shortName h]
  cases cs <;> rfl

/-- A bundle is read flag by flag, whatever is behind the flags. -/
theorem getOpt'_flags {cs : Str} {bs : List α} (h : Flags optDescr cs bs) {tail : Str}
    (hne : cs ++ tail ≠ []) (rest : List Str) :
    getOpt' optDescr (('-' :: cs ++ tail) :: rest) =
      (getOpt' optDescr (if tail = [] then rest else ('-' :: tail) :: rest)).behind bs [] := by
  induction h with
  | nil =>
      have htail : tail ≠ [] := hne
      rw [if_neg htail, Parsed.behind_nil]
      rfl
  | @cons c cs a as hc _ ih =>
      -- What is left of the bundle is an argument of its own, unless it is empty.
      rw [List.cons_append, List.cons_append, getOpt'_flag hc]
      by_cases hmore : cs ++ tail = []
      · rcases List.append_eq_nil_iff.mp hmore with ⟨rfl, rfl⟩
        rename_i hflags
        cases hflags
        rfl
      · rw [if_neg hmore, ← List.cons_append, ih hmore, Parsed.behind_behind]
        rfl

/-- What is behind the items is read as it would be alone. -/
theorem getOpt'_items {args : List Str} {as : List α} {xs : List Str}
    (h : Items optDescr args as xs) (rest : List Str) :
    getOpt' optDescr (args ++ rest) = (getOpt' optDescr rest).behind as xs := by
  induction h with
  | nil =>
      rfl
  | plain hx _ ih =>
      rw [List.cons_append, getOpt'_of_nonOpt (getNext_plain hx _), ih, Parsed.behind_behind]
      rfl
  | @longFlag n a args as xs hn _ ih =>
      have hnext : getNext ('-' :: '-' :: n) (args ++ rest) optDescr = (.opt a, args ++ rest) := by
        have hread := longOpt_of_longName hn (Or.inl rfl) (args ++ rest)
        rw [List.append_nil] at hread
        rw [getNext_long hn.1, hread]
        rfl
      rw [List.cons_append, getOpt'_of_opt hnext, ih, Parsed.behind_behind]
      rfl
  | @longEq n v name f args as xs hn _ ih =>
      have hnext : getNext ('-' :: '-' :: n ++ '=' :: v) (args ++ rest) optDescr =
          (.opt (f v), args ++ rest) := by
        have hne : n ++ '=' :: v ≠ [] := by simp
        exact (getNext_long hne _).trans (longOpt_of_longName hn (Or.inr ⟨v, rfl⟩) _)
      rw [List.cons_append, getOpt'_of_opt hnext, ih, Parsed.behind_behind]
      rfl
  | @longNext n v name f args as xs hn _ ih =>
      -- Without an `=`, the next argument is the value, whatever it looks like.
      have hnext : getNext ('-' :: '-' :: n) (v :: (args ++ rest)) optDescr =
          (.opt (f v), args ++ rest) := by
        have hread := longOpt_of_longName hn (Or.inl rfl) (v :: (args ++ rest))
        rw [List.append_nil] at hread
        rw [getNext_long hn.1, hread]
        rfl
      rw [List.cons_append, List.cons_append, getOpt'_of_opt hnext, ih, Parsed.behind_behind]
      rfl
  | @flags cs bs args as xs hne hflags _ ih =>
      have hread := getOpt'_flags hflags (by rwa [List.append_nil]) (args ++ rest)
      rw [List.append_nil, if_pos rfl, ih, Parsed.behind_behind, List.nil_append] at hread
      exact hread
  | @joined cs v name c bs f args as xs hflags hc hv _ ih =>
      have hne : cs ++ c :: v ≠ [] := by simp
      have hread := getOpt'_flags hflags hne (args ++ rest)
      have hnext : getNext ('-' :: c :: v) (args ++ rest) optDescr =
          (.opt (f v), args ++ rest) := by
        rw [getNext_short hc.1, shortOpt_of_shortName hc]
        -- An empty argument would be the next one of the line.
        cases v with
        | nil => exact absurd rfl hv
        | cons y ys => rfl
      rw [if_neg (List.cons_ne_nil c v), getOpt'_of_opt hnext, ih, Parsed.behind_behind,
        Parsed.behind_behind, List.append_assoc bs] at hread
      exact hread
  | @next cs v name c bs f args as xs hflags hc _ ih =>
      have hne : cs ++ [c] ≠ [] := by simp
      have hread := getOpt'_flags hflags hne (v :: (args ++ rest))
      have hnext : getNext ['-', c] (v :: (args ++ rest)) optDescr =
          (.opt (f v), args ++ rest) := by
        rw [getNext_short hc.1, shortOpt_of_shortName hc]
        rfl
      rw [if_neg (List.cons_ne_nil c []), getOpt'_of_opt hnext, ih, Parsed.behind_behind,
        Parsed.behind_behind, List.append_assoc bs] at hread
      exact hread

/-- Items alone are a command line without errors. -/
theorem getOpt_items {args : List Str} {as : List α} {xs : List Str}
    (h : Items optDescr args as xs) : getOpt optDescr args = (as, xs, []) := by
  have hread := getOpt'_items h []
  rw [List.append_nil] at hread
  simp only [getOpt, hread, Parsed.behind]
  simp [getOpt', getOptSteps, argsSize]

/-- An error behind items is an error of the command line. -/
theorem errs_items_ne_nil {args : List Str} {as : List α} {xs : List Str}
    (h : Items optDescr args as xs) {arg : Str} {rest more : List Str} {e : OptError}
    (harg : getNext arg rest optDescr = (.optErr e, more)) :
    (getOpt optDescr (args ++ arg :: rest)).2.2 ≠ [] := by
  have hread := getOpt'_items h (arg :: rest)
  rw [getOpt'_cons, harg] at hread
  simp [getOpt, hread, Parsed.behind]

theorem Items.append {args more : List Str} {as bs : List α} {xs ys : List Str}
    (h : Items optDescr args as xs) (hmore : Items optDescr more bs ys) :
    Items optDescr (args ++ more) (as ++ bs) (xs ++ ys) := by
  induction h with
  | nil => exact hmore
  | plain hx _ ih => exact .plain hx ih
  | longFlag hn _ ih => exact .longFlag hn ih
  | longEq hn _ ih => exact .longEq hn ih
  | longNext hn _ ih => exact .longNext hn ih
  | flags hne hflags _ ih =>
      rw [List.append_assoc]
      exact .flags hne hflags ih
  | joined hflags hc hv _ ih =>
      rw [List.append_assoc]
      exact .joined hflags hc hv ih
  | next hflags hc _ ih =>
      rw [List.append_assoc]
      exact .next hflags hc ih

end GetOpt
end Base
end Etude
