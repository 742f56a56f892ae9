import Mathlib.Data.List.Basic
import Mathlib.Data.List.TakeWhile

/-!
# ScalaMap — expressions `Map("k" -> "v", …)` of string literals

A reader of such expressions, and what it takes for a text pasted between quotes to be read as
itself: none of its characters may mean anything inside a literal.
-/

namespace Etude
namespace Base
namespace ScalaMap

/-! ## Literals -/

/-- The characters that stand for themselves in a literal between single quotes. -/
def Ordinary (c : Char) : Prop :=
  c ≠ '\"' ∧ c ≠ '\\' ∧ c ≠ '\n' ∧ c ≠ '\r' ∧ c ≠ '\x1a'

instance (c : Char) : Decidable (Ordinary c) :=
  inferInstanceAs (Decidable (_ ∧ _))

def hexValue (c : Char) : Option ℕ :=
  if '0' ≤ c ∧ c ≤ '9' then some (c.toNat - 48)
  else if 'a' ≤ c ∧ c ≤ 'f' then some (c.toNat - 87)
  else if 'A' ≤ c ∧ c ≤ 'F' then some (c.toNat - 55)
  else none

/-- The `u`s and the four digits of a Unicode escape. -/
def codeUnit (cs : List Char) : Option (ℕ × List Char) :=
  match cs.dropWhile fun c => c = 'u' with
  | a :: b :: c :: d :: rest => do
    let a ← hexValue a
    let b ← hexValue b
    let c ← hexValue c
    let d ← hexValue d
    return (((a * 16 + b) * 16 + c) * 16 + d, rest)
  | _ => none

/-- The second escape of a character beyond the basic plane, whose first one is `n`. -/
def lowHalf (n : ℕ) : List Char → Option (Char × List Char)
  | c :: d :: cs =>
    if c = '\\' ∧ d = 'u' ∧ n < 0xdc00 then
      (codeUnit cs).bind fun m =>
        if 0xdc00 ≤ m.1 ∧ m.1 ≤ 0xdfff then
          some (Char.ofNat (0x10000 + (n - 0xd800) * 0x400 + (m.1 - 0xdc00)), m.2)
        else none
    else none
  | _ => none

/-- A Unicode escape behind its `\u`. -/
def unicode (cs : List Char) : Option (Char × List Char) :=
  (codeUnit cs).bind fun n =>
    if n.1 < 0xd800 ∨ 0xdfff < n.1 then some (Char.ofNat n.1, n.2) else lowHalf n.1 n.2

/-- An escape behind its backslash. -/
def escape : List Char → Option (Char × List Char)
  | [] => none
  | c :: cs =>
    if c = 'b' then some ('\x08', cs)
    else if c = 't' then some ('\t', cs)
    else if c = 'n' then some ('\n', cs)
    else if c = 'f' then some ('\x0c', cs)
    else if c = 'r' then some ('\r', cs)
    else if c = '\"' ∨ c = '\'' ∨ c = '\\' then some (c, cs)
    else if c = 'u' then unicode cs
    else none

theorem ne_quote_of_hexValue {c : Char} {n : ℕ} (h : hexValue c = some n) : '\"' ≠ c := by
  rintro rfl
  have hquote : hexValue '\"' = none := by decide
  rw [hquote] at h
  cases h

theorem codeUnit_split {cs rest : List Char} {n : ℕ} (h : codeUnit cs = some (n, rest)) :
    ∃ e, e ≠ [] ∧ '\"' ∉ e ∧ cs = e ++ rest := by
  have hu : '\"' ∉ cs.takeWhile fun c => c = 'u' := by
    intro hmem
    have hfirst := List.mem_takeWhile_imp hmem
    exact absurd (of_decide_eq_true hfirst) (by decide)
  have hcs := List.takeWhile_append_dropWhile (p := fun c => decide (c = 'u')) (l := cs)
  rw [codeUnit] at h
  match hdrop : cs.dropWhile fun c => c = 'u' with
  | [] | [_] | [_, _] | [_, _, _] =>
    rw [hdrop] at h
    cases h
  | a :: b :: c :: d :: tail =>
    rw [hdrop] at h hcs
    simp only [Option.bind_eq_bind, Option.bind_eq_some_iff, Option.pure_def, Option.some.injEq,
      Prod.mk.injEq] at h
    obtain ⟨_, ha, _, hb, _, hc, _, hd, -, rfl⟩ := h
    refine ⟨(cs.takeWhile fun c => c = 'u') ++ [a, b, c, d], by simp, ?_, ?_⟩
    · simp only [List.mem_append, hu, List.mem_cons, List.not_mem_nil, false_or, or_false, not_or]
      exact ⟨ne_quote_of_hexValue ha, ne_quote_of_hexValue hb, ne_quote_of_hexValue hc,
        ne_quote_of_hexValue hd⟩
    · rw [List.append_assoc]
      exact hcs.symm

theorem lowHalf_split {cs rest : List Char} {n : ℕ} {d : Char}
    (h : lowHalf n cs = some (d, rest)) : ∃ e, '\"' ∉ e ∧ cs = e ++ rest := by
  match cs with
  | [] | [_] => cases h
  | b :: u :: cs =>
    rw [lowHalf] at h
    by_cases hlead : b = '\\' ∧ u = 'u' ∧ n < 0xdc00
    · rw [if_pos hlead, Option.bind_eq_some_iff] at h
      obtain ⟨⟨m, tail⟩, hunit, h⟩ := h
      obtain ⟨e, -, hquote, rfl⟩ := codeUnit_split hunit
      by_cases hrange : 0xdc00 ≤ m ∧ m ≤ 0xdfff
      · rw [if_pos hrange, Option.some.injEq, Prod.mk.injEq] at h
        rcases h with ⟨-, rfl⟩
        rw [hlead.1, hlead.2.1]
        refine ⟨'\\' :: 'u' :: e, ?_, rfl⟩
        rw [List.mem_cons, List.mem_cons, not_or, not_or]
        exact ⟨by decide, by decide, hquote⟩
      · rw [if_neg hrange] at h
        cases h
    · rw [if_neg hlead] at h
      cases h

theorem unicode_split {cs rest : List Char} {d : Char} (h : unicode cs = some (d, rest)) :
    ∃ e, e ≠ [] ∧ '\"' ∉ e ∧ cs = e ++ rest := by
  rw [unicode, Option.bind_eq_some_iff] at h
  obtain ⟨⟨n, tail⟩, hunit, h⟩ := h
  obtain ⟨e, hne, hquote, rfl⟩ := codeUnit_split hunit
  by_cases hplane : n < 0xd800 ∨ 0xdfff < n
  · rw [if_pos hplane] at h
    cases h
    exact ⟨e, hne, hquote, rfl⟩
  · rw [if_neg hplane] at h
    obtain ⟨e', hquote', rfl⟩ := lowHalf_split h
    refine ⟨e ++ e', by simp [hne], ?_, (List.append_assoc e e' rest).symm⟩
    rw [List.mem_append, not_or]
    exact ⟨hquote, hquote'⟩

/-- What an escape takes: a quote alone, or characters other than quotes. -/
theorem escape_split {cs rest : List Char} {d : Char} (h : escape cs = some (d, rest)) :
    cs = '\"' :: rest ∧ d = '\"' ∨ ∃ e, e ≠ [] ∧ '\"' ∉ e ∧ cs = e ++ rest := by
  cases cs with
  | nil =>
      cases h
  | cons c cs =>
      by_cases hquote : c = '\"'
      · subst hquote
        left
        cases h
        exact ⟨rfl, rfl⟩
      · right
        have hone : '\"' ∉ [c] := fun hc => hquote (List.mem_singleton.mp hc).symm
        by_cases hu : c = 'u'
        · subst hu
          obtain ⟨e, -, he, rfl⟩ := unicode_split (show unicode cs = some (d, rest) from h)
          refine ⟨'u' :: e, List.cons_ne_nil _ _, ?_, rfl⟩
          rw [List.mem_cons, not_or]
          exact ⟨by decide, he⟩
        · have hrest : cs = rest := by
            simp only [escape, hu, hquote, if_false, false_or] at h
            split_ifs at h <;> cases h <;> rfl
          subst hrest
          exact ⟨[c], List.cons_ne_nil _ _, hone, rfl⟩

theorem length_escape {cs rest : List Char} {d : Char} (h : escape cs = some (d, rest)) :
    rest.length < cs.length := by
  rcases escape_split h with ⟨rfl, -⟩ | ⟨e, hne, -, rfl⟩
  · exact Nat.lt_succ_self rest.length
  · rw [List.length_append]
    have hpos := List.length_pos_iff.mpr hne
    omega

/-- The rest of a literal between single quotes: its value, and what follows it. -/
def single : List Char → Option (List Char × List Char)
  | [] => none
  | c :: cs =>
    if c = '\"' then some ([], cs)
    else if c = '\\' then
      match h : escape cs with
      | none => none
      | some (d, rest) =>
        have : rest.length < cs.length := length_escape h
        (single rest).map fun r => (d :: r.1, r.2)
    else if Ordinary c then (single cs).map fun r => (c :: r.1, r.2)
    else none
termination_by cs => cs.length

/-- The rest of a literal between three quotes: it ends at the last three of a run of quotes. -/
def triple : List Char → Option (List Char × List Char)
  | [] => none
  | c :: cs =>
    if c = '\x1a' then none
    else if c = '\"' ∧ ['\"', '\"'].isPrefixOf cs ∧ ¬ ['\"'].isPrefixOf (cs.drop 2) then
      some ([], cs.drop 2)
    else (triple cs).map fun r => (c :: r.1, r.2)

def literal : List Char → Option (List Char × List Char)
  | [] => none
  | c :: cs =>
    if c = '\"' then
      if ['\"', '\"'].isPrefixOf cs then triple (cs.drop 2) else single cs
    else none

/-! ## Literals that are read as themselves -/

theorem single_quote (cs : List Char) : single ('\"' :: cs) = some ([], cs) := by
  rw [single, if_pos rfl]

theorem single_ordinary {c : Char} (hc : Ordinary c) (cs : List Char) :
    single (c :: cs) = (single cs).map fun r => (c :: r.1, r.2) := by
  rw [single, if_neg hc.1, if_neg hc.2.1, if_pos hc]

theorem single_backslash (cs : List Char) :
    single ('\\' :: cs) =
      (escape cs).bind fun d => (single d.2).map fun r => (d.1 :: r.1, r.2) := by
  rw [single, if_neg (by decide), if_pos rfl]
  split
  · rename_i hnone
    rw [hnone]
    rfl
  · rename_i hsome
    simp only [hsome, Option.bind_some]

/-- For a text that is given character by character. -/
theorem forall_ordinary {u : List Char} (h : u.all (fun c => decide (Ordinary c)) = true) :
    ∀ c ∈ u, Ordinary c :=
  fun c hc => of_decide_eq_true (List.all_eq_true.mp h c hc)

theorem single_append {u : List Char} (hu : ∀ c ∈ u, Ordinary c) (cs : List Char) :
    single (u ++ '\"' :: cs) = some (u, cs) := by
  induction u with
  | nil =>
      exact single_quote cs
  | cons c u ih =>
      rw [List.forall_mem_cons] at hu
      rw [List.cons_append, single_ordinary hu.1, ih hu.2]
      rfl

/-- No literal that goes on to `cs` behind an escaped quote ends with a backslash. -/
def Follows (cs : List Char) : Prop :=
  ¬ ['\"'].isPrefixOf cs ∧ ∀ v rest, single cs = some (v, rest) → v.getLast? ≠ some '\\'

/-- What an escape takes from a pasted text does not reach the quote behind it. -/
theorem exists_rest {u e cs tail : List Char} (he : '\"' ∉ e) (h : u ++ '\"' :: cs = e ++ tail) :
    ∃ u', u = e ++ u' ∧ tail = u' ++ '\"' :: cs := by
  rcases List.append_eq_append_iff.mp h with ⟨a, rfl, ha⟩ | ⟨u', rfl, htail⟩
  · cases a with
    | nil =>
        exact ⟨[], by simp, ha.symm⟩
    | cons b a =>
        cases ha
        exact absurd (List.mem_append_right u List.mem_cons_self) he
  · exact ⟨u', rfl, htail⟩

theorem exists_longer {d c : Char} {w z e u : List Char} (he : e ≠ [])
    (h : d :: w = z ++ c :: (e ++ u)) : ∃ z', z' ≠ [] ∧ w = z' ++ u := by
  cases z with
  | nil =>
      cases h
      exact ⟨e, he, rfl⟩
  | cons b z =>
      cases h
      exact ⟨z ++ c :: e, by simp, by simp⟩

/-- No literal that starts with the text `u`, pasted in front of a quote, has a value that ends
with `u` and has more in front. -/
def NeverLonger (cs u : List Char) : Prop :=
  ∀ z rest, z ≠ [] → single (u ++ '\"' :: cs) ≠ some (z ++ u, rest)

/-- An escape at the head is taken for less than it is, which leaves too much for the rest. -/
theorem not_single_backslash {cs u : List Char} (hcs : Follows cs)
    (hshort : ∀ u' : List Char, u'.length ≤ u.length → NeverLonger cs u') (z rest : List Char) :
    single ('\\' :: (u ++ '\"' :: cs)) ≠ some (z ++ '\\' :: u, rest) := by
  intro h
  rw [single_backslash, Option.bind_eq_some_iff] at h
  obtain ⟨⟨d, tail⟩, hescape, h⟩ := h
  rw [Option.map_eq_some_iff] at h
  obtain ⟨⟨w, tail'⟩, hsingle, h⟩ := h
  rw [Prod.mk.injEq] at h
  have hvalue : d :: w = z ++ '\\' :: u := h.1
  rcases escape_split hescape with ⟨hu, rfl⟩ | ⟨e, hne, hequote, hu⟩
  · cases u with
    | nil =>
        -- the escape takes the quote that was to end the literal
        cases hu
        have hlast := congrArg List.getLast? hvalue
        rw [List.getLast?_concat] at hlast
        cases w with
        | nil =>
            have hescaped : '\"' = '\\' := Option.some.inj hlast
            exact absurd hescaped (by decide)
        | cons b w =>
            exact absurd hlast (hcs.2 (b :: w) tail' hsingle)
    | cons b u =>
        cases hu
        obtain ⟨z', hz, rfl⟩ := exists_longer (e := ['\"']) (List.cons_ne_nil _ _) hvalue
        exact hshort u (Nat.le_succ u.length) z' tail' hz hsingle
  · obtain ⟨u', rfl, rfl⟩ := exists_rest hequote hu
    obtain ⟨z', hz, rfl⟩ := exists_longer hne hvalue
    refine hshort u' ?_ z' tail' hz hsingle
    rw [List.length_append]
    exact Nat.le_add_left _ _

theorem neverLonger {cs : List Char} (hcs : Follows cs) (u : List Char) : NeverLonger cs u := by
  induction hn : u.length using Nat.strong_induction_on generalizing u with
  | _ n ih =>
    intro z rest hz h
    subst hn
    cases u with
    | nil =>
        rw [List.nil_append, single_quote, List.append_nil] at h
        cases h
        exact hz rfl
    | cons c u =>
        by_cases hquote : c = '\"'
        · rw [hquote, List.cons_append, single_quote] at h
          simp at h
        · by_cases hback : c = '\\'
          · subst hback
            exact not_single_backslash hcs
              (fun u' hu' => ih u'.length (Nat.lt_succ_of_le hu') u' rfl) z rest h
          · by_cases hc : Ordinary c
            · rw [List.cons_append, single_ordinary hc, Option.map_eq_some_iff] at h
              obtain ⟨⟨w, tail⟩, hsingle, h⟩ := h
              rw [Prod.mk.injEq] at h
              obtain ⟨z', hz', rfl⟩ : ∃ z', z' ≠ [] ∧ w = z' ++ u := by
                cases z with
                | nil =>
                    exact absurd rfl hz
                | cons b z =>
                    have hw : w = z ++ c :: u := (List.cons.inj h.1).2
                    exact ⟨z ++ [c], by simp, by simp [hw]⟩
              exact ih u.length (Nat.lt_succ_self _) u rfl z' tail hz' hsingle
            · rw [List.cons_append, single, if_neg hquote, if_neg hback, if_neg hc] at h
              cases h

/-- A literal whose value is the pasted text has nothing but ordinary characters. -/
theorem ordinary_of_single {cs u rest : List Char} (hcs : Follows cs)
    (h : single (u ++ '\"' :: cs) = some (u, rest)) : ∀ c ∈ u, Ordinary c := by
  induction u with
  | nil =>
      exact fun c hc => absurd hc List.not_mem_nil
  | cons c u ih =>
      by_cases hquote : c = '\"'
      · rw [hquote, List.cons_append, single_quote] at h
        cases h
      · by_cases hback : c = '\\'
        · subst hback
          exact absurd h (not_single_backslash hcs (fun u' _ => neverLonger hcs u') [] rest)
        · by_cases hc : Ordinary c
          · rw [List.cons_append, single_ordinary hc, Option.map_eq_some_iff] at h
            obtain ⟨⟨w, tail⟩, hsingle, h⟩ := h
            cases h
            exact List.forall_mem_cons.mpr ⟨hc, ih hsingle⟩
          · rw [List.cons_append, single, if_neg hquote, if_neg hback, if_neg hc] at h
            cases h

theorem isPrefix_triple {cs v rest : List Char} (h : triple cs = some (v, rest)) : v <+: cs := by
  induction cs generalizing v with
  | nil =>
      cases h
  | cons c cs ih =>
      rw [triple] at h
      by_cases hend : c = '\x1a'
      · rw [if_pos hend] at h
        cases h
      · rw [if_neg hend] at h
        by_cases hclose :
            c = '\"' ∧ ['\"', '\"'].isPrefixOf cs ∧ ¬ ['\"'].isPrefixOf (cs.drop 2)
        · rw [if_pos hclose] at h
          cases h
          exact List.nil_prefix
        · rw [if_neg hclose, Option.map_eq_some_iff] at h
          rcases h with ⟨⟨w, tail⟩, htriple, h⟩
          cases h
          exact List.cons_prefix_cons.mpr ⟨rfl, ih htriple⟩

/-- A text with two more quotes in front is no prefix of the text with one more behind. -/
theorem not_prefix_of_quotes {cs : List Char} (hcs : ¬ ['\"'].isPrefixOf cs) (u : List Char) :
    ¬ '\"' :: '\"' :: u <+: u ++ '\"' :: cs := by
  induction u with
  | nil =>
      intro h
      apply hcs
      rw [List.isPrefixOf_iff_prefix]
      exact (List.cons_prefix_cons.mp h).2
  | cons c u ih =>
      intro h
      rcases List.cons_prefix_cons.mp h with ⟨rfl, h⟩
      exact ih h

/-- A literal is read as the text between its quotes exactly when that is ordinary. -/
theorem ordinary_of_literal {cs u rest : List Char} (hcs : Follows cs)
    (h : literal ('\"' :: (u ++ '\"' :: cs)) = some (u, rest)) : ∀ c ∈ u, Ordinary c := by
  rw [literal, if_pos rfl] at h
  by_cases hthree : ['\"', '\"'].isPrefixOf (u ++ '\"' :: cs)
  · rw [if_pos hthree] at h
    rw [List.isPrefixOf_iff_prefix] at hthree
    rcases hthree with ⟨text, htext⟩
    rw [← htext] at h
    have hprefix := not_prefix_of_quotes hcs.1 u
    rw [← htext] at hprefix
    have htriple := isPrefix_triple h
    exact absurd (List.cons_prefix_cons.mpr ⟨rfl, List.cons_prefix_cons.mpr ⟨rfl, htriple⟩⟩) hprefix
  · rw [if_neg hthree] at h
    exact ordinary_of_single hcs h

theorem literal_append {u cs : List Char} (hu : ∀ c ∈ u, Ordinary c)
    (hcs : ¬ ['\"'].isPrefixOf cs) :
    literal ('\"' :: (u ++ '\"' :: cs)) = some (u, cs) := by
  have hone : ¬ ['\"', '\"'].isPrefixOf (u ++ '\"' :: cs) := by
    rw [List.isPrefixOf_iff_prefix]
    intro h
    cases u with
    | nil =>
        apply hcs
        rw [List.isPrefixOf_iff_prefix]
        exact (List.cons_prefix_cons.mp h).2
    | cons c u =>
        exact (hu c List.mem_cons_self).1 (List.cons_prefix_cons.mp h).1.symm
  rw [literal, if_pos rfl, if_neg hone, single_append hu]

/-! ## What a literal leaves -/

theorem length_single {cs v rest : List Char} (h : single cs = some (v, rest)) :
    rest.length < cs.length := by
  induction cs using single.induct generalizing v with
  | case1 =>
      rw [single] at h
      cases h
  | case2 cs =>
      rw [single_quote] at h
      cases h
      exact Nat.lt_succ_self _
  | case3 cs hescape _ =>
      rw [single_backslash, hescape] at h
      cases h
  | case4 cs d tail hescape htail _ ih =>
      rw [single_backslash, hescape, Option.bind_some, Option.map_eq_some_iff] at h
      obtain ⟨⟨w, tail'⟩, hsingle, h⟩ := h
      cases h
      exact Nat.lt_succ_of_lt ((ih hsingle).trans htail)
  | case5 c cs _ _ hc ih =>
      rw [single_ordinary hc, Option.map_eq_some_iff] at h
      obtain ⟨⟨w, tail⟩, hsingle, h⟩ := h
      cases h
      exact Nat.lt_succ_of_lt (ih hsingle)
  | case6 c cs hquote hback hc =>
      rw [single, if_neg hquote, if_neg hback, if_neg hc] at h
      cases h

theorem length_triple {cs v rest : List Char} (h : triple cs = some (v, rest)) :
    rest.length < cs.length := by
  induction cs generalizing v with
  | nil =>
      cases h
  | cons c cs ih =>
      rw [triple] at h
      split_ifs at h with hend hclose
      · cases h
        rw [List.length_drop, List.length_cons]
        omega
      · rw [Option.map_eq_some_iff] at h
        obtain ⟨⟨w, tail⟩, htriple, h⟩ := h
        cases h
        exact Nat.lt_succ_of_lt (ih htriple)

theorem length_literal {cs v rest : List Char} (h : literal cs = some (v, rest)) :
    rest.length < cs.length := by
  cases cs with
  | nil =>
      cases h
  | cons c cs =>
      rw [literal] at h
      split_ifs at h with hquote hthree
      · have htriple := length_triple h
        rw [List.length_drop] at htriple
        rw [List.length_cons]
        omega
      · exact Nat.lt_succ_of_lt (length_single h)

/-! ## Expressions -/

def white (c : Char) : Bool :=
  c = ' ' || c = '\t' || c = '\n' || c = '\r' || c = '\x0c'

def skip (cs : List Char) : List Char :=
  cs.dropWhile white

def token (w cs : List Char) : Option (List Char) :=
  if w.isPrefixOf cs then some (cs.drop w.length) else none

theorem length_skip (cs : List Char) : (skip cs).length ≤ cs.length :=
  (List.dropWhile_sublist white).length_le

theorem length_token {w cs rest : List Char} (h : token w cs = some rest) :
    rest.length ≤ cs.length := by
  rw [token] at h
  split_ifs at h
  cases h
  rw [List.length_drop]
  exact Nat.sub_le _ _

theorem token_append (w cs : List Char) : token w (w ++ cs) = some cs := by
  rw [token, if_pos (List.isPrefixOf_iff_prefix.mpr (List.prefix_append w cs)), List.drop_left]

/-- A pair of literals and the white space behind it. -/
def pair (cs : List Char) : Option ((List Char × List Char) × List Char) :=
  (literal (skip cs)).bind fun k =>
    (token ['-', '>'] (skip k.2)).bind fun cs =>
      (literal (skip cs)).map fun v => ((k.1, v.1), skip v.2)

theorem length_pair {cs rest : List Char} {p : List Char × List Char}
    (h : pair cs = some (p, rest)) : rest.length < cs.length := by
  rw [pair, Option.bind_eq_some_iff] at h
  obtain ⟨⟨k, t₁⟩, hkey, h⟩ := h
  rw [Option.bind_eq_some_iff] at h
  obtain ⟨t₂, harrow, h⟩ := h
  rw [Option.map_eq_some_iff] at h
  obtain ⟨⟨v, t₃⟩, hvalue, h⟩ := h
  cases h
  calc (skip t₃).length
      ≤ t₃.length := length_skip t₃
    _ < (skip t₂).length := length_literal hvalue
    _ ≤ t₂.length := length_skip t₂
    _ ≤ (skip t₁).length := length_token harrow
    _ ≤ t₁.length := length_skip t₁
    _ ≤ (skip cs).length := Nat.le_of_lt (length_literal hkey)
    _ ≤ cs.length := length_skip cs

/-- The pairs behind the opening parenthesis, up to the end of the text. -/
def pairs (cs : List Char) : Option (List (List Char × List Char)) :=
  match h : pair cs with
  | none => none
  | some (_, []) => none
  | some (p, c :: rest) =>
    if c = ',' then
      have : rest.length < cs.length := Nat.lt_of_succ_lt (length_pair h)
      (pairs rest).map fun ps => p :: ps
    else if c = ')' ∧ skip rest = [] then some [p]
    else none
termination_by cs.length

/-- The value of an expression that is a map of literals. -/
def mapExpr (cs : List Char) : Option (List (List Char × List Char)) :=
  (token ['M', 'a', 'p'] (skip cs)).bind fun cs =>
    (token ['('] (skip cs)).bind fun cs =>
      (token [')'] (skip cs)).elim (pairs cs) fun rest => if skip rest = [] then some [] else none

theorem pairs_of_pair {cs rest : List Char} {p : List Char × List Char} {c : Char}
    (h : pair cs = some (p, c :: rest)) :
    pairs cs =
      if c = ',' then (pairs rest).map fun ps => p :: ps
      else if c = ')' ∧ skip rest = [] then some [p]
      else none := by
  rw [pairs]
  split
  · rename_i hnone
    rw [h] at hnone
    cases hnone
  · rename_i hnil
    rw [h] at hnil
    cases hnil
  · rename_i hcons
    rw [h] at hcons
    cases hcons
    rfl

/-- The first pair of a map is the first that is read. -/
theorem pair_of_pairs {cs : List Char} {p : List Char × List Char}
    {ps : List (List Char × List Char)} (h : pairs cs = some (p :: ps)) :
    ∃ rest, pair cs = some (p, rest) := by
  rw [pairs] at h
  split at h
  · cases h
  · cases h
  · rename_i q c rest hpair
    split_ifs at h with hcomma hclose
    · rw [Option.map_eq_some_iff] at h
      obtain ⟨qs, -, h⟩ := h
      cases h
      exact ⟨_, hpair⟩
    · cases h
      exact ⟨_, hpair⟩

end ScalaMap
end Base
end Etude
