import Etude.Base.ScalaMap
import Etude.PutKvCsv.Model

/-!
# Recovery — the text read back

The fields are pasted between quotes as they are.  A reader of the expression finds the pairs
again exactly when no field has a character that means something inside a literal.
-/

namespace Etude
namespace PutKvCsv

open Base Base.ScalaMap
open Cat (GeneralCategory isSpace)

/-! ## The text of a list of pairs -/

/-- What follows the first entry. -/
def items : List (Str × Str) → Str
  | [] => ['\n', ')']
  | p :: ps => ',' :: '\n' :: ' ' :: ' ' :: (entry p ++ items ps)

def mapText (ps : List (Str × Str)) : Str :=
  wrapMap (formatOutput (ps.map entry))

/-- The white space in front of the first entry. -/
def indent (ps : List (Str × Str)) : Str :=
  if ps = [] then ['\n'] else ['\n', ' ', ' ']

theorem items_eq (ps : List (Str × Str)) :
    items ps = ((ps.map entry).flatMap fun x => ",\n  ".toList ++ x) ++ "\n)".toList := by
  induction ps with
  | nil =>
      rfl
  | cons p ps ih =>
      rw [items, ih, List.map_cons, List.flatMap_cons, List.append_assoc, List.append_assoc]
      rfl

theorem mapText_cons (p : Str × Str) (ps : List (Str × Str)) :
    mapText (p :: ps) = ['M', 'a', 'p'] ++ (['('] ++ (indent ps ++ (entry p ++ items ps))) := by
  cases ps with
  | nil =>
      rfl
  | cons q ps =>
      have hbody := formatOutput_cons_cons (entry p) (entry q) (ps.map entry)
      have hassoc : ∀ a b c d e : Str, a ++ (b ++ c ++ d) ++ e = a ++ (b ++ (c ++ (d ++ e))) := by
        intro a b c d e
        simp only [List.append_assoc]
      have hitems := congrArg (fun t => "Map(\n".toList ++ ("  ".toList ++ (entry p ++ t)))
        (items_eq (q :: ps)).symm
      exact (congrArg wrapMap hbody).trans ((hassoc _ _ _ _ _).trans hitems)

theorem entry_append (p : Str × Str) (cs : Str) :
    entry p ++ cs = '\"' :: (p.1 ++ '\"' ::
      ([' ', '-', '>', ' '] ++ '\"' :: (p.2 ++ '\"' :: cs))) := by
  have harrow : " -> ".toList = [' ', '-', '>', ' '] := rfl
  rw [entry, quoted, quoted, harrow]
  simp only [List.cons_append, List.append_assoc, List.nil_append]

/-! ## One entry -/

/-- A field without characters that mean something inside a literal. -/
def Plain (p : Str × Str) : Prop :=
  (∀ c ∈ p.1, Ordinary c) ∧ ∀ c ∈ p.2, Ordinary c

theorem skip_append (ws : Str) (hws : ∀ c ∈ ws, white c = true) {c : Char} (hc : white c = false)
    (cs : Str) : skip (ws ++ c :: cs) = c :: cs := by
  rw [skip, List.dropWhile_append_of_pos hws, List.dropWhile_cons_of_neg (by simp [hc])]

theorem follows_arrow (cs : Str) : Follows ([' ', '-', '>', ' '] ++ '\"' :: cs) := by
  refine ⟨by simp, ?_⟩
  intro v rest h
  rw [single_append (forall_ordinary rfl)] at h
  cases h
  decide

theorem single_newline (cs : Str) : single ('\n' :: cs) = none := by
  rw [single, if_neg (by decide), if_neg (by decide), if_neg (by decide)]

theorem follows_items (ps : List (Str × Str)) : Follows (items ps) := by
  cases ps with
  | nil =>
      refine ⟨by decide, ?_⟩
      intro v rest h
      rw [items, single_newline] at h
      cases h
  | cons p ps =>
      refine ⟨by simp [items], ?_⟩
      intro v rest h
      rw [items, single_ordinary (by decide), single_newline] at h
      cases h

theorem skip_arrow (cs : Str) : skip ([' ', '-', '>', ' '] ++ cs) = ['-', '>'] ++ (' ' :: cs) :=
  skip_append [' '] (List.all_eq_true.mp rfl) (by decide) _

theorem skip_space (cs : Str) : skip (' ' :: '\"' :: cs) = '\"' :: cs :=
  skip_append [' '] (List.all_eq_true.mp rfl) (by decide) cs

section Entry

variable {ws : Str} (hws : ∀ c ∈ ws, white c = true) {cs : Str} (hcs : Follows cs)

include hws hcs

theorem pair_of_plain {p : Str × Str} (hp : Plain p) :
    pair (ws ++ (entry p ++ cs)) = some (p, skip cs) := by
  have hkey := literal_append hp.1 (follows_arrow (p.2 ++ '\"' :: cs)).1
  have hvalue := literal_append hp.2 hcs.1
  rw [entry_append, pair, skip_append ws hws (by decide), hkey, Option.bind_some, skip_arrow,
    token_append, Option.bind_some, skip_space, hvalue]
  rfl

theorem plain_of_pair {p : Str × Str} {rest : Str}
    (h : pair (ws ++ (entry p ++ cs)) = some (p, rest)) : Plain p := by
  rw [entry_append, pair, skip_append ws hws (by decide), Option.bind_eq_some_iff] at h
  obtain ⟨⟨k, t₁⟩, hkey, h⟩ := h
  rw [Option.bind_eq_some_iff] at h
  obtain ⟨t₂, harrow, h⟩ := h
  rw [Option.map_eq_some_iff] at h
  obtain ⟨⟨v, t₃⟩, hvalue, h⟩ := h
  rw [Prod.mk.injEq] at h
  rcases h with ⟨rfl, -⟩
  have hfirst := ordinary_of_literal (follows_arrow _) hkey
  -- the key is read as itself, so that the value starts where it was written
  rw [literal_append hfirst (follows_arrow _).1, Option.some.injEq, Prod.mk.injEq] at hkey
  rw [← hkey.2, skip_arrow, token_append, Option.some.injEq] at harrow
  rw [← harrow, skip_space] at hvalue
  exact ⟨hfirst, ordinary_of_literal hcs hvalue⟩

end Entry

/-! ## All entries -/

theorem pairs_items_iff (ps : List (Str × Str)) :
    ∀ {ws : Str}, (∀ c ∈ ws, white c = true) → ∀ p : Str × Str,
      (pairs (ws ++ (entry p ++ items ps)) = some (p :: ps) ↔ ∀ q ∈ p :: ps, Plain q) := by
  induction ps with
  | nil =>
      intro ws hws p
      rw [List.forall_mem_singleton]
      constructor
      · intro h
        obtain ⟨rest, hpair⟩ := pair_of_pairs h
        exact plain_of_pair hws (follows_items []) hpair
      · intro hp
        have hpair := pair_of_plain hws (follows_items []) hp
        rw [pairs_of_pair hpair, if_neg (by decide), if_pos (by decide)]
  | cons q ps ih =>
      intro ws hws p
      rw [List.forall_mem_cons, ← @ih ['\n', ' ', ' '] (List.all_eq_true.mp rfl) q]
      constructor
      · intro h
        obtain ⟨rest, hpair⟩ := pair_of_pairs h
        have hp := plain_of_pair hws (follows_items (q :: ps)) hpair
        rw [pairs_of_pair (pair_of_plain hws (follows_items (q :: ps)) hp), if_pos rfl,
          Option.map_eq_some_iff] at h
        obtain ⟨qs, hqs, h⟩ := h
        cases h
        exact ⟨hp, hqs⟩
      · rintro ⟨hp, hrest⟩
        rw [pairs_of_pair (pair_of_plain hws (follows_items (q :: ps)) hp), if_pos rfl]
        exact congrArg (Option.map fun ps => p :: ps) hrest

theorem white_indent (ps : List (Str × Str)) : ∀ c ∈ indent ps, white c = true := by
  rw [indent]
  split_ifs
  · exact List.all_eq_true.mp rfl
  · exact List.all_eq_true.mp rfl

theorem mapExpr_mapText_iff (ps : List (Str × Str)) :
    mapExpr (mapText ps) = some ps ↔ ∀ p ∈ ps, Plain p := by
  cases ps with
  | nil =>
      have hempty : mapExpr (mapText []) = some [] := by decide
      rw [hempty]
      exact ⟨fun _ p hp => absurd hp List.not_mem_nil, fun _ => rfl⟩
  | cons p ps =>
      have hopen : ∀ t : Str, skip (['M', 'a', 'p'] ++ t) = ['M', 'a', 'p'] ++ t := fun t =>
        skip_append [] (fun c hc => absurd hc List.not_mem_nil) (by decide) _
      have hparen : ∀ t : Str, skip (['('] ++ t) = ['('] ++ t := fun t =>
        skip_append [] (fun c hc => absurd hc List.not_mem_nil) (by decide) t
      have hclose : token [')'] (skip (indent ps ++ (entry p ++ items ps))) = none := by
        rw [entry_append, skip_append (indent ps) (white_indent ps) (by decide)]
        rfl
      rw [← pairs_items_iff ps (white_indent ps) p, mapText_cons, mapExpr, hopen, token_append,
        Option.bind_some, hparen, token_append, Option.bind_some, hclose, Option.elim_none]

/-! ## Records -/

section Records

variable (generalCategory : Char → GeneralCategory)

/-- What the records of two fields are to mean. -/
def stripped (rs : List (Str × Str)) : List (Str × Str) :=
  rs.map fun r => (strip generalCategory r.1, strip generalCategory r.2)

/-- The text of records of two fields. -/
def text (rs : List (Str × Str)) : Str :=
  wrapMap (formatOutput (putAll generalCategory (rs.map fun r => [r.1, r.2])))

theorem text_eq (rs : List (Str × Str)) :
    text generalCategory rs = mapText (stripped generalCategory rs) := by
  rw [text, putAll_pairs, mapText, stripped, List.map_map]
  rfl

/-- Both lists are read back from their texts, and different pairs have different texts. -/
structure Recovered (rs ss : List (Str × Str)) : Prop where
  first : mapExpr (text generalCategory rs) = some (stripped generalCategory rs)
  second : mapExpr (text generalCategory ss) = some (stripped generalCategory ss)
  distinct : stripped generalCategory rs ≠ stripped generalCategory ss →
    text generalCategory rs ≠ text generalCategory ss

/-- The pairs of two lists are recovered exactly when all stripped fields are plain. -/
theorem recovered_iff (rs ss : List (Str × Str)) :
    Recovered generalCategory rs ss ↔
      (∀ p ∈ stripped generalCategory rs, Plain p) ∧
        ∀ p ∈ stripped generalCategory ss, Plain p := by
  have hreads : ∀ rs, mapExpr (text generalCategory rs) = some (stripped generalCategory rs) ↔
      ∀ p ∈ stripped generalCategory rs, Plain p := by
    intro rs
    rw [text_eq]
    exact mapExpr_mapText_iff (stripped generalCategory rs)
  constructor
  · intro h
    exact ⟨(hreads rs).mp h.first, (hreads ss).mp h.second⟩
  · rintro ⟨hrs, hss⟩
    have hfirst := (hreads rs).mpr hrs
    have hsecond := (hreads ss).mpr hss
    refine ⟨hfirst, hsecond, ?_⟩
    intro hne htext
    rw [htext, hsecond] at hfirst
    exact hne (Option.some.inj hfirst).symm

end Records

/-- A quote moves the border between the key and the value: two pairs, one text. -/
theorem not_recovered_quote :
    stripped (fun _ => .notAssigned) [("a\" -> \"b".toList, "c".toList)] ≠
        stripped (fun _ => .notAssigned) [("a".toList, "b\" -> \"c".toList)] ∧
      text (fun _ => .notAssigned) [("a\" -> \"b".toList, "c".toList)] =
        text (fun _ => .notAssigned) [("a".toList, "b\" -> \"c".toList)] ∧
      ¬ Recovered (fun _ => .notAssigned) [("a\" -> \"b".toList, "c".toList)]
        [("a".toList, "b\" -> \"c".toList)] := by
  have hpairs : stripped (fun _ => .notAssigned) [("a\" -> \"b".toList, "c".toList)] ≠
      stripped (fun _ => .notAssigned) [("a".toList, "b\" -> \"c".toList)] := by decide
  have htext : text (fun _ => .notAssigned) [("a\" -> \"b".toList, "c".toList)] =
      text (fun _ => .notAssigned) [("a".toList, "b\" -> \"c".toList)] := by decide
  exact ⟨hpairs, htext, fun h => h.distinct hpairs htext⟩

end PutKvCsv
end Etude
