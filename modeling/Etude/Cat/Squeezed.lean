import Etude.Cat.Order

/-!
# Squeezed — blank lines with `-s`

`render` groups the lines by a relation that is not reflexive, and takes the head of each group.
What is left has no two blank lines in a row and every other line.
-/

namespace Etude
namespace Cat

open Base Base.GetOpt

/-- No two adjacent lines that are left are blank, the other lines are those of the input, each
maximal run of blank lines becomes its first line, and a second time nothing changes. -/
theorem render_squeeze_spec (generalCategory : Char → GeneralCategory) (s : List Line) :
    (render generalCategory .squeeze s).IsChain
        (fun l l' => ¬ (allSpace generalCategory l = true ∧ allSpace generalCategory l' = true)) ∧
      (render generalCategory .squeeze s).filter (fun l => !allSpace generalCategory l) =
        s.filter (fun l => !allSpace generalCategory l) ∧
      (∀ pre first run post, s = pre ++ first :: (run ++ post) →
        (∀ l ∈ pre.getLast?, allSpace generalCategory l = false) →
        allSpace generalCategory first = true →
        (∀ l ∈ run, allSpace generalCategory l = true) →
        (∀ l ∈ post.head?, allSpace generalCategory l = false) →
        render generalCategory .squeeze s =
          render generalCategory .squeeze pre ++ first :: render generalCategory .squeeze post) ∧
      render generalCategory .squeeze (render generalCategory .squeeze s) =
        render generalCategory .squeeze s := by
  simp only [render_squeeze]
  refine ⟨?_, filter_squeeze _ s, ?_, squeeze_squeeze _ s⟩
  · apply (squeeze_isChain (allSpace generalCategory) s).imp
    intro l l' h
    rw [← Bool.and_eq_true, h]
    decide
  · rintro pre first run post rfl hpre hfirst hrun hpost
    exact squeeze_run hpre hfirst hrun hpost

end Cat
end Etude
