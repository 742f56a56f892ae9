import Etude.Transposed.Accessor

/-!
# Generated — the cases of the generated methods

The templates write cases that can be read back, and `indent` and the margins of the literal leave
them as they are.  So the methods of `ValueAccessor` are those cases.
-/

namespace Etude
namespace Transposed

open Base

/-! ## Indented cases -/

def Indented (l m : Text) : Prop :=
  ∃ k, m = List.replicate k ' ' ++ l

/-- `indent` only puts blanks in front of the lines of a text. -/
def AddsBlanks (indent : Text → ℕ → Text) : Prop :=
  ∀ s n, List.Forall₂ Indented (s.splitOn '\n') ((indent s n).splitOn '\n')

/-- The first character of the line that is not blank, if any, is the `c` of `case`. -/
def CaseLike (l : Text) : Prop :=
  ∀ a ∈ (l.dropWhile isBlank).head?, a = 'c'

theorem CaseLike.indented {l m : Text} (hl : CaseLike l) (hlm : Indented l m) : CaseLike m := by
  rcases hlm with ⟨k, rfl⟩
  rw [CaseLike, List.dropWhile_append_of_pos fun _ hc => (blank_of_mem_replicate hc).1]
  exact hl

theorem CaseLike.stripLine_eq {l : Text} (hl : CaseLike l) : stripLine l = l := by
  rw [stripLine]
  split
  · rename_i rest hrest
    have hbar : '|' = 'c' := hl '|' (by rw [hrest]; rfl)
    exact absurd hbar (by decide)
  · rfl

/-- A line that starts otherwise is no case. -/
theorem CaseLike.ne_append {l : Text} (hl : CaseLike l) {a : Char} {w w' : Text}
    (hw : ∀ s, (w ++ s).dropWhile isBlank = a :: (w' ++ s)) (ha : a ≠ 'c') (s : Text) :
    l ≠ w ++ s := by
  intro h
  refine ha (hl a ?_)
  rw [h, hw s]
  rfl

theorem Case.caseLike_line (c : Case) : CaseLike c.line := by
  intro a ha
  have hhead : (c.line.dropWhile isBlank).head? = some 'c' := rfl
  rw [hhead] at ha
  exact (Option.some.inj ha).symm

theorem mapM_readCase {cs : List Case} (hcs : ∀ c ∈ cs, c.WellFormed) {ms : List Text}
    (h : List.Forall₂ Indented (cs.map Case.line) ms) :
    (ms.filter fun l => !l.all isBlank).mapM readCase = some cs := by
  induction cs generalizing ms with
  | nil =>
      cases h
      rfl
  | cons c cs ih =>
      rw [List.forall_mem_cons] at hcs
      cases h with
      | cons hm hms =>
          rcases hm with ⟨k, rfl⟩
          have hc : 'c' ∈ c.line := List.mem_cons_self
          have hnot : (List.replicate k ' ' ++ c.line).all isBlank = false :=
            List.all_eq_false.mpr ⟨'c', List.mem_append_right _ hc, by decide⟩
          rw [List.filter_cons_of_pos (by rw [hnot]; rfl), List.mapM_cons, readCase_line hcs.1 k,
            ih hcs.2 hms]
          rfl

/-- A line of a block of cases: a case or nothing, after blanks. -/
structure BlockLine (m : Text) : Prop where
  caseLike : CaseLike m
  oneLine : ∀ d ∈ m, isLineBreak d = false

theorem BlockLine.indented {l m : Text} (hl : BlockLine l) (hlm : Indented l m) : BlockLine m := by
  refine ⟨hl.caseLike.indented hlm, ?_⟩
  rcases hlm with ⟨k, rfl⟩
  rw [List.forall_mem_append]
  exact ⟨fun _ hd => (blank_of_mem_replicate hd).2, hl.oneLine⟩

theorem blockLine_of_forall₂ {ls ms : List Text} (h : List.Forall₂ Indented ls ms)
    (hls : ∀ l ∈ ls, BlockLine l) : ∀ m ∈ ms, BlockLine m := by
  induction h with
  | nil =>
      exact hls
  | cons hlm _ ih =>
      rw [List.forall_mem_cons] at hls ⊢
      exact ⟨hls.1.indented hlm, ih hls.2⟩

/-- What a block of cases is made of, and how it is read. -/
theorem block_spec {cs : List Case} (hcs : ∀ c ∈ cs, c.WellFormed) {ms : List Text}
    (h : List.Forall₂ Indented ((['\n'].intercalate (cs.map Case.line)).splitOn '\n') ms) :
    (ms.filter fun l => !l.all isBlank).mapM readCase = some cs ∧ ∀ m ∈ ms, BlockLine m := by
  have hlines : ∀ l ∈ cs.map Case.line, BlockLine l := by
    intro l hl
    rcases List.mem_map.mp hl with ⟨c, hc, rfl⟩
    exact ⟨c.caseLike_line, (hcs c hc).oneLine⟩
  cases cs with
  | nil =>
      -- The empty block is one line, of blanks.
      rw [List.map_nil, List.intercalate_nil, List.splitOn_nil] at h
      refine ⟨?_, blockLine_of_forall₂ h ?_⟩
      · rcases List.forall₂_cons_left_iff.mp h with ⟨m, ms', ⟨k, rfl⟩, hnil, rfl⟩
        cases hnil
        have hblank : (List.replicate k ' ' ++ []).all isBlank = true :=
          List.all_eq_true.mpr fun d hd =>
            (blank_of_mem_replicate (k := k) (by rwa [List.append_nil] at hd)).1
        rw [List.filter_cons_of_neg (by rw [hblank]; simp)]
        rfl
      · rw [List.forall_mem_singleton]
        exact ⟨fun a ha => by simp at ha, fun d hd => by cases hd⟩
  | cons c cs =>
      have hnl : ∀ l ∈ (c :: cs).map Case.line, '\n' ∉ l := by
        intro l hl hmem
        exact absurd ((hlines l hl).oneLine '\n' hmem) (by decide)
      rw [List.splitOn_intercalate '\n' hnl (by simp)] at h
      exact ⟨mapM_readCase hcs h, blockLine_of_forall₂ h hlines⟩

theorem AddsBlanks.block {indent : Text → ℕ → Text} (h : AddsBlanks indent) (s : Text) :
    List.Forall₂ Indented (s.splitOn '\n') (("    ".toList ++ indent s 4).splitOn '\n') := by
  rcases exists_splitOn '\n' (indent s 4) with ⟨first, rest, hs⟩
  have hall := h s 4
  rw [hs] at hall
  rw [splitOn_append (by decide) hs]
  rcases List.forall₂_cons_right_iff.mp hall with ⟨l, ls, ⟨k, rfl⟩, hrest, heq⟩
  rw [heq]
  refine List.Forall₂.cons ⟨4 + k, ?_⟩ hrest
  rw [List.replicate_add, List.append_assoc]
  rfl

/-! ## The lines of the object -/

theorem forall_oneLine {l : Text} (h : l.all (fun c => !isLineBreak c) = true) :
    ∀ c ∈ l, isLineBreak c = false := by
  intro c hc
  have hall := List.all_eq_true.mp h c hc
  rwa [Bool.not_eq_true'] at hall

/-- A line without a margin, which stripping margins leaves as it is. -/
structure BarFree (l : Text) : Prop where
  stripped : stripLine l = l
  oneLine : ∀ d ∈ l, isLineBreak d = false

theorem BarFree.splitOn_eq {l : Text} (h : BarFree l) : l.splitOn '\n' = [l] :=
  List.splitOn_eq_singleton fun hmem => absurd (h.oneLine '\n' hmem) (by decide)

theorem BlockLine.barFree {m : Text} (h : BlockLine m) : BarFree m :=
  ⟨h.caseLike.stripLine_eq, h.oneLine⟩

theorem splitOn_margin (l : Text) : ∃ first rest, l.splitOn '\n' = first :: rest ∧
    (margin ++ l).splitOn '\n' = (margin ++ first) :: rest := by
  rcases exists_splitOn '\n' l with ⟨first, rest, hl⟩
  exact ⟨first, rest, hl, splitOn_append (by decide) hl⟩

/-- Every line of the source loses the margin that it has, and nothing else. -/
theorem splitOn_margins {ls : List Text} {closing : Text}
    (hls : ∀ l ∈ ls, ∀ part ∈ l.splitOn '\n', BarFree part) (hclosing : BarFree closing) :
    (stripMargin (tripleQuoted ([] :: (ls.map (margin ++ ·) ++ [closing])))).splitOn '\n' =
      [] :: (ls.flatMap (fun l => l.splitOn '\n') ++ [closing]) := by
  have hline : ∀ l ∈ ls, ((margin ++ l).splitOn '\n').map stripLine = l.splitOn '\n' := by
    intro l hl
    rcases splitOn_margin l with ⟨first, rest, hparts, hmargin⟩
    have hrest : rest.map stripLine = rest :=
      calc
        rest.map stripLine = rest.map id := List.map_congr_left fun part hpart =>
          (hls l hl part (by rw [hparts]; exact List.mem_cons_of_mem first hpart)).stripped
        _ = rest := List.map_id rest
    rw [hmargin, hparts, List.map_cons, hrest]
    rfl
  have hlast : [closing].map stripLine = [closing] := by
    rw [List.map_singleton, hclosing.stripped]
  rw [splitOn_stripMargin (List.cons_ne_nil _ _)]
  · rw [List.flatMap_cons, List.flatMap_append, List.flatMap_singleton, hclosing.splitOn_eq,
      List.splitOn_nil, List.map_append, List.map_append, hlast, List.flatMap_map,
      List.map_flatMap, List.flatMap_congr hline]
    rfl
  · intro l hl part hpart
    rcases List.mem_cons.mp hl with rfl | hl
    · rw [List.splitOn_nil, List.mem_singleton] at hpart
      rw [hpart]
      exact fun c hc => absurd hc List.not_mem_nil
    rcases List.mem_append.mp hl with hl | hl
    · rcases List.mem_map.mp hl with ⟨l', hl', rfl⟩
      rcases splitOn_margin l' with ⟨first, rest, hparts, hmargin⟩
      have hall := hls l' hl'
      rw [hparts, List.forall_mem_cons] at hall
      rw [hmargin, List.mem_cons] at hpart
      rcases hpart with rfl | hpart
      · rw [List.forall_mem_append]
        exact ⟨forall_oneLine rfl, hall.1.oneLine⟩
      · exact (hall.2 part hpart).oneLine
    · rw [List.mem_singleton.mp hl, hclosing.splitOn_eq, List.mem_singleton] at hpart
      rw [hpart]
      exact hclosing.oneLine

section Object

variable {cToCamel cToPascal : Text → Text} {indent : Text → ℕ → Text} {offset length : Int32}
  {tableName : Text}

/-- The lines of the block of cases that a template gives. -/
def blockLines (indent : Text → ℕ → Text) (offset length : Int32) (f : Template) : List Text :=
  ("    ".toList ++ indent (dataColumns offset length f) 4).splitOn '\n'

theorem barFree_signatures {className : Text} (h : ∀ c ∈ className, isLineBreak c = false) :
    BarFree (getValueSignature className) ∧ BarFree (setValueSignature className) ∧
      BarFree (setValuesSignature className) := by
  refine ⟨⟨rfl, ?_⟩, ⟨rfl, ?_⟩, ⟨rfl, ?_⟩⟩
  · unfold getValueSignature
    rw [List.forall_mem_append, List.forall_mem_append]
    exact ⟨forall_oneLine rfl, h, forall_oneLine rfl⟩
  · unfold setValueSignature
    rw [List.forall_mem_append, List.forall_mem_append, List.forall_mem_append,
      List.forall_mem_append]
    exact ⟨forall_oneLine rfl, h, forall_oneLine rfl, h, forall_oneLine rfl⟩
  · unfold setValuesSignature
    rw [List.forall_mem_append, List.forall_mem_append, List.forall_mem_append,
      List.forall_mem_append]
    exact ⟨forall_oneLine rfl, h, forall_oneLine rfl, h, forall_oneLine rfl⟩

/-- The lines of the object behind the two matches. -/
def closingLines (className : Text) : List Text :=
  [[], setValuesSignature className,
    "    values.foldLeft(obj)((o, v) => setValue(o, v._1, v._2))".toList, "  \x7d".toList,
    "\x7d".toList, "     ".toList]

/-- The object's lines: the blocks stand between the signatures and the closing braces. -/
theorem splitOn_valueAccessor (hclass : ∀ c ∈ cToPascal tableName, isLineBreak c = false)
    (hget : ∀ m ∈ blockLines indent offset length (getter cToCamel), BlockLine m)
    (hset : ∀ m ∈ blockLines indent offset length (setter cToPascal), BlockLine m) :
    (valueAccessor cToCamel cToPascal indent offset length tableName).splitOn '\n' =
      [] :: "object ValueAccessor \x7b".toList :: [] :: getValueSignature (cToPascal tableName) ::
        (blockLines indent offset length (getter cToCamel) ++
          "  \x7d".toList :: [] :: setValueSignature (cToPascal tableName) ::
            (blockLines indent offset length (setter cToPascal) ++
              "  \x7d".toList :: closingLines (cToPascal tableName))) := by
  have hopen : BarFree "object ValueAccessor \x7b".toList := ⟨rfl, forall_oneLine rfl⟩
  have hnil : BarFree [] := ⟨rfl, forall_oneLine rfl⟩
  have hclose : BarFree "  \x7d".toList := ⟨rfl, forall_oneLine rfl⟩
  have hfold : BarFree
      "    values.foldLeft(obj)((o, v) => setValue(o, v._1, v._2))".toList :=
    ⟨rfl, forall_oneLine rfl⟩
  have hend : BarFree "\x7d".toList := ⟨rfl, forall_oneLine rfl⟩
  have hclosing : BarFree "     ".toList := ⟨rfl, forall_oneLine rfl⟩
  rcases barFree_signatures hclass with ⟨hgetValue, hsetValue, hsetValues⟩
  have hsingle : ∀ {l : Text}, BarFree l → ∀ part ∈ l.splitOn '\n', BarFree part := by
    intro l hl part hpart
    rw [hl.splitOn_eq, List.mem_singleton] at hpart
    rwa [hpart]
  rw [valueAccessor, splitOn_margins _ hclosing]
  · simp only [valueAccessorLines, List.flatMap_cons, List.flatMap_nil, hopen.splitOn_eq,
      hgetValue.splitOn_eq, hclose.splitOn_eq, hsetValue.splitOn_eq, hsetValues.splitOn_eq,
      hfold.splitOn_eq, hend.splitOn_eq, List.splitOn_nil, List.append_assoc, List.cons_append,
      List.nil_append]
    rfl
  · simp only [valueAccessorLines, List.forall_mem_cons]
    exact ⟨hsingle hopen, hsingle hnil, hsingle hgetValue, fun m hm => (hget m hm).barFree,
      hsingle hclose, hsingle hnil, hsingle hsetValue, fun m hm => (hset m hm).barFree,
      hsingle hclose, hsingle hnil, hsingle hsetValues, hsingle hfold, hsingle hclose,
      hsingle hend, fun l hl => absurd hl List.not_mem_nil⟩

/-- A method is read off the lines between its signature and its closing brace. -/
theorem methodBody_eq {start opening object line : Text} (before : List Text)
    {block after : List Text}
    (hobject : object.splitOn '\n' =
      before ++ line :: (block ++ "  \x7d".toList :: after))
    (hbefore : ∀ l ∈ before, opensMethod start opening l = false)
    (hline : opensMethod start opening line = true)
    (hblock : ∀ m ∈ block, m ≠ "  \x7d".toList) :
    methodBody start opening object = block := by
  have hstart : (object.splitOn '\n').dropWhile (fun l => !opensMethod start opening l) =
      line :: (block ++ "  \x7d".toList :: after) := by
    rw [hobject, List.dropWhile_append_of_pos fun l hl => by rw [hbefore l hl]; rfl,
      List.dropWhile_cons_of_neg (by rw [hline]; decide)]
  rw [methodBody, hstart, List.tail_cons,
    List.takeWhile_append_of_pos fun m hm => decide_eq_true (hblock m hm),
    List.takeWhile_cons_of_neg (by simp), List.append_nil]

theorem BlockLine.ne_brace {m : Text} (h : BlockLine m) : m ≠ "  \x7d".toList := by
  have hbrace : ∀ s, ("  \x7d".toList ++ s).dropWhile isBlank = '\x7d' :: ([] ++ s) :=
    fun _ => rfl
  exact h.caseLike.ne_append hbrace (by decide) []

theorem opensMethod_eq_false {start l : Text} (h : start.isPrefixOf l = false) (opening : Text) :
    opensMethod start opening l = false := by
  rw [opensMethod, h, Bool.false_and]

theorem opensMethod_append {opening rest : Text} (h : opening <:+ rest) (start : Text) :
    opensMethod start opening (start ++ rest) = true := by
  rw [opensMethod, Bool.and_eq_true, List.isPrefixOf_iff_prefix, List.isSuffixOf_iff_suffix]
  exact ⟨List.prefix_append start rest, h.trans (List.suffix_append start rest)⟩

/-- No line of a block is a signature. -/
theorem BlockLine.not_opensMethod {m : Text} (h : BlockLine m) {start w : Text} {a : Char}
    (hw : ∀ s, (start ++ s).dropWhile isBlank = a :: (w ++ s)) (ha : a ≠ 'c') (opening : Text) :
    opensMethod start opening m = false := by
  refine opensMethod_eq_false ?_ opening
  by_contra hpre
  rw [Bool.not_eq_false, List.isPrefixOf_iff_prefix] at hpre
  rcases hpre with ⟨s, hs⟩
  exact h.caseLike.ne_append hw ha s hs.symm

theorem opensMethod_getValueSignature (className : Text) :
    opensMethod "  def getValue(obj: ".toList " = name match \x7b".toList
      (getValueSignature className) = true := by
  have hend : " = name match \x7b".toList <:+ ", name: String): Double = name match \x7b".toList :=
    ⟨", name: String): Double".toList, by decide⟩
  exact opensMethod_append (hend.trans (List.suffix_append className _)) _

/-- The other two signatures end with the class of the result. -/
theorem suffix_signature (className middle opening : Text) :
    opening <:+ className ++ (middle ++ (className ++ opening)) :=
  (List.suffix_append className opening).trans
    ((List.suffix_append middle _).trans (List.suffix_append className _))

theorem opensMethod_setValueSignature (className : Text) :
    opensMethod "  def setValue(obj: ".toList " = name match \x7b".toList
      (setValueSignature className) = true :=
  opensMethod_append (suffix_signature className _ _) _

theorem opensMethod_setValuesSignature (className : Text) :
    opensMethod "  def setValues(obj: ".toList " = \x7b".toList
      (setValuesSignature className) = true :=
  opensMethod_append (suffix_signature className _ _) _

section Bodies

variable (hclass : ∀ c ∈ cToPascal tableName, isLineBreak c = false)
  (hget : ∀ m ∈ blockLines indent offset length (getter cToCamel), BlockLine m)
  (hset : ∀ m ∈ blockLines indent offset length (setter cToPascal), BlockLine m)

include hclass hget hset

theorem methodBody_getValue :
    methodBody "  def getValue(obj: ".toList " = name match \x7b".toList
        (valueAccessor cToCamel cToPascal indent offset length tableName) =
      blockLines indent offset length (getter cToCamel) := by
  refine methodBody_eq [[], "object ValueAccessor \x7b".toList, []]
    (splitOn_valueAccessor hclass hget hset) ?_ (opensMethod_getValueSignature _)
    fun m hm => (hget m hm).ne_brace
  simp only [List.forall_mem_cons]
  exact ⟨rfl, rfl, rfl, fun l hl => absurd hl List.not_mem_nil⟩

theorem methodBody_setValue :
    methodBody "  def setValue(obj: ".toList " = name match \x7b".toList
        (valueAccessor cToCamel cToPascal indent offset length tableName) =
      blockLines indent offset length (setter cToPascal) := by
  have hobject : (valueAccessor cToCamel cToPascal indent offset length tableName).splitOn '\n' =
      ([[], "object ValueAccessor \x7b".toList, [], getValueSignature (cToPascal tableName)] ++
        (blockLines indent offset length (getter cToCamel) ++ ["  \x7d".toList, []])) ++
          setValueSignature (cToPascal tableName) ::
            (blockLines indent offset length (setter cToPascal) ++
              "  \x7d".toList :: closingLines (cToPascal tableName)) := by
    rw [splitOn_valueAccessor hclass hget hset]
    simp only [List.append_assoc, List.cons_append, List.nil_append]
  refine methodBody_eq _ hobject ?_ (opensMethod_setValueSignature _)
    fun m hm => (hset m hm).ne_brace
  rw [List.forall_mem_append, List.forall_mem_append]
  simp only [List.forall_mem_cons]
  exact ⟨⟨rfl, rfl, rfl, rfl, fun l hl => absurd hl List.not_mem_nil⟩,
    fun m hm => (hget m hm).not_opensMethod (fun _ => rfl) (by decide) _,
    rfl, rfl, fun l hl => absurd hl List.not_mem_nil⟩

/-- Both blocks stand before the method that folds over a map. -/
theorem methodBody_setValues :
    methodBody "  def setValues(obj: ".toList " = \x7b".toList
        (valueAccessor cToCamel cToPascal indent offset length tableName) = foldBody := by
  have hobject : (valueAccessor cToCamel cToPascal indent offset length tableName).splitOn '\n' =
      ([[], "object ValueAccessor \x7b".toList, [], getValueSignature (cToPascal tableName)] ++
        (blockLines indent offset length (getter cToCamel) ++
          (["  \x7d".toList, [], setValueSignature (cToPascal tableName)] ++
            (blockLines indent offset length (setter cToPascal) ++ ["  \x7d".toList, []])))) ++
          setValuesSignature (cToPascal tableName) ::
            (foldBody ++ "  \x7d".toList :: ["\x7d".toList, "     ".toList]) := by
    rw [splitOn_valueAccessor hclass hget hset, closingLines, foldBody]
    simp only [List.append_assoc, List.cons_append, List.nil_append]
  refine methodBody_eq _ hobject ?_ (opensMethod_setValuesSignature _) ?_
  · rw [List.forall_mem_append, List.forall_mem_append, List.forall_mem_append,
      List.forall_mem_append]
    simp only [List.forall_mem_cons]
    exact ⟨⟨rfl, rfl, rfl, rfl, fun l hl => absurd hl List.not_mem_nil⟩,
      fun m hm => (hget m hm).not_opensMethod (fun _ => rfl) (by decide) _,
      ⟨rfl, rfl, rfl, fun l hl => absurd hl List.not_mem_nil⟩,
      fun m hm => (hset m hm).not_opensMethod (fun _ => rfl) (by decide) _,
      rfl, rfl, fun l hl => absurd hl List.not_mem_nil⟩
  · rw [foldBody, List.forall_mem_singleton]
    decide

end Bodies

end Object

end Transposed
end Etude
