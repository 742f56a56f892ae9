import Etude.PutKvCsv.Model

/-!
# Verbatim — the text as a format

`doWork` prints the text of the map with `printf`, as a format without arguments.
-/

namespace Etude
namespace PutKvCsv

open Base
open Cat (GeneralCategory isSpace)

theorem mem_dropWhile_iff {p : Char → Bool} {c : Char} (hc : p c = false) (s : Str) :
    c ∈ s.dropWhile p ↔ c ∈ s := by
  constructor
  · intro h
    exact (List.dropWhile_sublist p).subset h
  · intro h
    rw [← List.takeWhile_append_dropWhile (p := p) (l := s), List.mem_append] at h
    rcases h with htake | hdrop
    · exact absurd (List.mem_takeWhile_imp htake) (by simp [hc])
    · exact hdrop

section Percent

variable (generalCategory : Char → GeneralCategory)

/-- Stripping removes white space only. -/
theorem mem_strip_iff {c : Char} (hc : isSpace generalCategory c = false) (s : Str) :
    c ∈ strip generalCategory s ↔ c ∈ s := by
  rw [strip, List.rdropWhile, List.mem_reverse, mem_dropWhile_iff hc, List.mem_reverse,
    mem_dropWhile_iff hc]

theorem mem_between {c : Char} {a b : Str} (ha : c ∉ a) (hb : c ∉ b) (s : Str) :
    c ∈ a ++ s ++ b ↔ c ∈ s := by
  simp only [List.mem_append, ha, hb, or_false, false_or]

theorem mem_append_right_iff {c : Char} {a : Str} (ha : c ∉ a) (s : Str) : c ∈ a ++ s ↔ c ∈ s := by
  simp only [List.mem_append, ha, false_or]

theorem mem_flatMap_append {c : Char} {a : Str} (ha : c ∉ a) (list : List Str) :
    c ∈ (list.flatMap fun x => a ++ x) ↔ ∃ s ∈ list, c ∈ s := by
  simp only [List.mem_flatMap, List.mem_append, ha, false_or]

theorem percent_mem_quoted (s : Str) : '%' ∈ quoted s ↔ '%' ∈ s :=
  mem_between (a := ['\"']) (by decide) (by decide) s

theorem percent_mem_entry (p : Str × Str) : '%' ∈ entry p ↔ '%' ∈ p.1 ∨ '%' ∈ p.2 := by
  rw [entry, List.mem_append, mem_append_right_iff (by decide), percent_mem_quoted,
    percent_mem_quoted]

theorem percent_mem_wrapMap (s : Str) : '%' ∈ wrapMap s ↔ '%' ∈ s :=
  mem_between (by decide) (by decide) s

theorem percent_mem_formatOutput (list : List Str) :
    '%' ∈ formatOutput list ↔ ∃ s ∈ list, '%' ∈ s := by
  match list with
  | [] => simp only [formatOutput, List.not_mem_nil, false_and, exists_false]
  | [s] => simp only [formatOutput, List.mem_singleton, exists_eq_left]
  | s :: t :: list =>
    rw [formatOutput_cons_cons, List.mem_append, mem_append_right_iff (by decide),
      mem_flatMap_append (by decide)]
    exact (List.exists_mem_cons_iff (fun x => '%' ∈ x) s (t :: list)).symm

/-- The printed text has a percent sign exactly when a field of a printed record has one. -/
theorem percent_mem_text (records : List Record) :
    '%' ∈ wrapMap (formatOutput (putAll generalCategory records)) ↔
      ∃ k v, [k, v] ∈ records ∧ ('%' ∈ k ∨ '%' ∈ v) := by
  have hspace : isSpace generalCategory '%' = false := rfl
  rw [percent_mem_wrapMap, percent_mem_formatOutput, putAll_eq]
  constructor
  · rintro ⟨s, hs, hpercent⟩
    rcases List.mem_filterMap.mp hs with ⟨r, hr, hsingle⟩
    match r, hsingle with
    | [k, v], hsingle =>
      rw [putSingle_pair, Option.some.injEq] at hsingle
      rw [← hsingle, percent_mem_entry, mem_strip_iff _ hspace, mem_strip_iff _ hspace] at hpercent
      exact ⟨k, v, hr, hpercent⟩
  · rintro ⟨k, v, hr, hpercent⟩
    refine ⟨_, List.mem_filterMap.mpr ⟨[k, v], hr, putSingle_pair generalCategory k v⟩, ?_⟩
    rw [percent_mem_entry, mem_strip_iff _ hspace, mem_strip_iff _ hspace]
    exact hpercent

/-- The records without the header line, if they have one that is to be skipped. -/
def body (args : List Flag) (csv : List Record) : List Record :=
  if .skipHeader ∈ args then csv.tail else csv

theorem doWork_eq (args : List Flag) (csv : List Record) :
    doWork generalCategory args csv =
      if .skipHeader ∈ args ∧ csv = [] then none
      else uprintfs (wrapMap (formatOutput (putAll generalCategory (body args csv)))) [] := by
  by_cases hskip : Flag.skipHeader ∈ args
  · rw [doWork, body, if_pos hskip, if_pos hskip]
    cases csv with
    | nil =>
        rw [if_pos ⟨hskip, rfl⟩]
        rfl
    | cons r csv =>
        rw [if_neg (fun h => List.cons_ne_nil r csv h.2)]
        rfl
  · rw [doWork, body, if_neg hskip, if_neg hskip, if_neg (fun h => hskip h.1)]
    rfl

/-- The text is printed as it is exactly when no printed field has a percent sign and no header is
missing. -/
theorem doWork_verbatim_iff (args : List Flag) (csv : List Record) :
    doWork generalCategory args csv =
        some (wrapMap (formatOutput (putAll generalCategory (body args csv)))) ↔
      (∀ k v, [k, v] ∈ body args csv → '%' ∉ k ∧ '%' ∉ v) ∧
        ¬ (.skipHeader ∈ args ∧ csv = []) := by
  rw [doWork_eq]
  by_cases hmissing : .skipHeader ∈ args ∧ csv = []
  · rw [if_pos hmissing]
    constructor
    · intro h
      cases h
    · intro h
      exact absurd hmissing h.2
  · rw [if_neg hmissing, uprintfs_eq_self_iff, percent_mem_text]
    constructor
    · intro h
      refine ⟨fun k v hr => ?_, hmissing⟩
      rw [← not_or]
      exact fun hpercent => h ⟨k, v, hr, hpercent⟩
    · rintro ⟨h, -⟩ ⟨k, v, hr, hpercent⟩
      exact not_or.mpr (h k v hr) hpercent

end Percent

/-- The value `100%` takes the quote behind it for a conversion, which fails; of `100%%` one sign
is lost; and there is no header line in no records. -/
theorem doWork_not_verbatim :
    doWork (fun _ => .notAssigned) [] [["a".toList, "100%".toList]] = none ∧
      doWork (fun _ => .notAssigned) [] [["a".toList, "100%%".toList]] =
        some "Map(\n\"a\" -> \"100%\"\n)".toList ∧
      doWork (fun _ => .notAssigned) [.skipHeader] [] = none := by
  decide

end PutKvCsv
end Etude
