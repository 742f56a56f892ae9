import Etude.Base.Decimal
import Etude.Transposed.Generated

/-!
# Consistent — the generated accessors agree

Getter and setter of a column have the same name and the same index, and different columns have
different names.  So `ValueAccessor` is a family of fields read and written by name: what is
set is what is got, other columns stay as they are, and a map may be set in any order.
-/

namespace Etude
namespace Transposed

open Base

/-! ## Columns -/

def nameStart : Text :=
  "电池单体".toList

def nameEnd : Text :=
  "电压".toList

def columnName (i : ℕ) : Text :=
  nameStart ++ (Nat.toDigits 10 i ++ nameEnd)

def fieldName (i : ℕ) : Text :=
  voltage ++ Nat.toDigits 10 i

def getterCase (i : ℕ) : Case where
  name := columnName i
  method := fieldName i
  argument := []

def setterCase (i : ℕ) : Case where
  name := columnName i
  method := withName (fieldName i)
  argument := "value".toList

/-- The indices of the columns, from 1. -/
def indices (length : Int32) : List ℕ :=
  (List.range length.toInt.toNat).map fun k => k + 1

theorem columnName_injective : Function.Injective columnName := by
  intro i j h
  apply toDigits_injective
  apply List.append_cancel_right
  exact List.append_cancel_left h

theorem withName_fieldName (i : ℕ) :
    withName (fieldName i) = "with".toList ++ ("Voltage".toList ++ Nat.toDigits 10 i) :=
  rfl

/-- The index can be read off the method that updates the field. -/
theorem withName_fieldName_injective : Function.Injective fun i => withName (fieldName i) := by
  intro i j h
  have hcapital : "with".toList ++ ("Voltage".toList ++ Nat.toDigits 10 i) =
      "with".toList ++ ("Voltage".toList ++ Nat.toDigits 10 j) := h
  apply toDigits_injective
  apply List.append_cancel_left
  exact List.append_cancel_left hcapital

/-! ## The templates write these cases -/

theorem showInt_ofNat {n : ℕ} (hn : n < 2 ^ 31) : showInt (Int32.ofNat n) = Nat.toDigits 10 n := by
  have htoInt : (Int32.ofNat n).toInt = n := Int32.toInt_ofNat_of_lt hn
  have hsign : ¬ Int32.ofNat n < 0 := by
    rw [Int32.lt_iff_toInt_lt, htoInt]
    simp
  rw [showInt, if_neg hsign, htoInt, Int.natAbs_natCast]

/-- A character that ends no part of a case. -/
def isPlain (c : Char) : Bool :=
  !isLineBreak c && c != '\"' && c != '('

theorem isPlain_iff {c : Char} :
    isPlain c = true ↔ isLineBreak c = false ∧ c ≠ '\"' ∧ c ≠ '(' := by
  simp [isPlain, and_assoc]

theorem isPlain_toDigits {n : ℕ} {c : Char} (hc : c ∈ Nat.toDigits 10 n) : isPlain c = true := by
  have hdigit : c.isDigit = true := Nat.isDigit_of_mem_toDigits (by decide) (by decide) hc
  have hrange : 48 ≤ c.toNat ∧ c.toNat ≤ 57 := Char.isDigit_iff_toNat.mp hdigit
  have hne : ∀ d : Char, d.toNat < 48 → c ≠ d := by
    rintro d hd rfl
    omega
  rw [isPlain_iff, isLineBreak]
  exact ⟨by simp [hne '\n' (by decide), hne '\x0c' (by decide)], hne '\"' (by decide),
    hne '(' (by decide)⟩

theorem isPlain_columnName (i : ℕ) : ∀ c ∈ columnName i, isPlain c = true := by
  rw [columnName, List.forall_mem_append, List.forall_mem_append]
  exact ⟨List.all_eq_true.mp rfl, fun _ => isPlain_toDigits, List.all_eq_true.mp rfl⟩

theorem isPlain_fieldName (i : ℕ) : ∀ c ∈ fieldName i, isPlain c = true := by
  rw [fieldName, List.forall_mem_append]
  exact ⟨List.all_eq_true.mp rfl, fun _ => isPlain_toDigits⟩

theorem isPlain_withName (i : ℕ) : ∀ c ∈ withName (fieldName i), isPlain c = true := by
  rw [withName_fieldName, List.forall_mem_append, List.forall_mem_append]
  exact ⟨List.all_eq_true.mp rfl, List.all_eq_true.mp rfl, fun _ => isPlain_toDigits⟩

/-- A case of plain texts is read back. -/
theorem Case.wellFormed {c : Case} (hname : ∀ d ∈ c.name, isPlain d = true)
    (hmethod : ∀ d ∈ c.method, isPlain d = true)
    (hargument : ∀ d ∈ c.argument, isLineBreak d = false) : c.WellFormed where
  name hmem := (isPlain_iff.mp (hname _ hmem)).2.1 rfl
  method hmem := (isPlain_iff.mp (hmethod _ hmem)).2.2 rfl
  oneLine := by
    rw [Case.line, List.forall_mem_append, List.forall_mem_append, List.forall_mem_cons,
      List.forall_mem_append, List.forall_mem_append, List.forall_mem_cons,
      List.forall_mem_append, List.forall_mem_singleton]
    exact ⟨forall_oneLine rfl, fun d hd => (isPlain_iff.mp (hname d hd)).1, rfl,
      forall_oneLine rfl, fun d hd => (isPlain_iff.mp (hmethod d hd)).1, rfl, hargument, rfl⟩

theorem wellFormed_getterCase (i : ℕ) : (getterCase i).WellFormed :=
  Case.wellFormed (isPlain_columnName i) (isPlain_fieldName i) (forall_oneLine rfl)

theorem wellFormed_setterCase (i : ℕ) : (setterCase i).WellFormed :=
  Case.wellFormed (isPlain_columnName i) (isPlain_withName i) (forall_oneLine rfl)

theorem Case.WellFormed.template_line {c : Case} (hc : c.WellFormed) :
    template c.line = c.line := by
  have hsnoc : c.line = (caseStart ++ (c.name ++ '\"' :: (arrow ++
      (c.method ++ '(' :: c.argument)))) ++ [')'] := by
    simp only [Case.line, List.append_assoc, List.cons_append]
  have hlast : c.line.getLast? = some ')' := by
    rw [hsnoc, List.getLast?_concat]
  exact trim_stripMargin (a := 'c') 7 5 hc.oneLine rfl rfl hlast rfl

theorem case_split : "case \"电池单体".toList = caseStart ++ nameStart := by
  decide

theorem getter_split : "电压\" => obj.".toList = nameEnd ++ '\"' :: arrow := by
  decide

theorem setter_split :
    "电压\" => obj.with".toList = nameEnd ++ '\"' :: (arrow ++ "with".toList) := by
  decide

theorem getter_eq {cToCamel : Text → Text} (hcamel : cToCamel voltage = voltage) {i : ℕ}
    (hi : i < 2 ^ 31) (no : Int32) :
    getter cToCamel no voltage (Int32.ofNat i) = (getterCase i).line := by
  have hbody : "case \"电池单体".toList ++ Nat.toDigits 10 i ++ "电压\" => obj.".toList ++ voltage ++
      Nat.toDigits 10 i ++ "()".toList = (getterCase i).line := by
    rw [case_split, getter_split]
    simp only [getterCase, Case.line, columnName, fieldName, List.append_assoc, List.cons_append]
    rfl
  unfold getter
  rw [showInt_ofNat hi, hcamel]
  exact (congrArg template hbody).trans (wellFormed_getterCase i).template_line

theorem setter_eq {cToPascal : Text → Text} (hpascal : cToPascal voltage = "Voltage".toList) {i : ℕ}
    (hi : i < 2 ^ 31) (no : Int32) :
    setter cToPascal no voltage (Int32.ofNat i) = (setterCase i).line := by
  have hbody : "case \"电池单体".toList ++ Nat.toDigits 10 i ++ "电压\" => obj.with".toList ++
      "Voltage".toList ++ Nat.toDigits 10 i ++ "(value)".toList = (setterCase i).line := by
    rw [case_split, setter_split]
    simp only [setterCase, Case.line, columnName, withName_fieldName, List.append_assoc,
      List.cons_append]
    rfl
  unfold setter
  rw [showInt_ofNat hi, hpascal]
  exact (congrArg template hbody).trans (wellFormed_setterCase i).template_line

theorem columnLines_eq {f : Template} {line : ℕ → Text}
    (hf : ∀ i < 2 ^ 31, ∀ no, f no voltage (Int32.ofNat i) = line i) (offset length : Int32) :
    columnLines offset length f = (indices length).map line := by
  rw [columnLines, indices, List.map_map]
  refine List.map_congr_left fun k hk => ?_
  have hlength := Int32.toInt_lt length
  have hk' : k + 1 < 2 ^ 31 := by
    rw [List.mem_range] at hk
    omega
  exact hf (k + 1) hk' _

/-! ## The methods -/

section Methods

variable {cToCamel cToPascal : Text → Text} {indent : Text → ℕ → Text} {offset length : Int32}

/-- A template of cases writes a block of them, whatever `indent` adds. -/
theorem block_cases (hindent : AddsBlanks indent) (hlength : 0 ≤ length.toInt)
    (hfits : Fits offset length) {f : Template} {c : ℕ → Case} (hc : ∀ i, (c i).WellFormed)
    (hf : ∀ i < 2 ^ 31, ∀ no, f no voltage (Int32.ofNat i) = (c i).line) :
    ((blockLines indent offset length f).filter fun l => !l.all isBlank).mapM readCase =
        some ((indices length).map c) ∧
      ∀ m ∈ blockLines indent offset length f, BlockLine m := by
  have hcs : ∀ d ∈ (indices length).map c, d.WellFormed := by
    intro d hd
    rcases List.mem_map.mp hd with ⟨i, -, rfl⟩
    exact hc i
  have hlines : dataColumns offset length f =
      ['\n'].intercalate (((indices length).map c).map Case.line) :=
    calc
      dataColumns offset length f = ['\n'].intercalate (columnLines offset length f) :=
        dataColumns_eq hlength hfits f
      _ = ['\n'].intercalate ((indices length).map fun i => (c i).line) := by
        rw [columnLines_eq hf]
      _ = ['\n'].intercalate (((indices length).map c).map Case.line) := by
        rw [List.map_map]
        rfl
  have hblock := hindent.block (dataColumns offset length f)
  rw [hlines] at hblock
  refine block_spec hcs ?_
  rw [blockLines, hlines]
  exact hblock

variable (hcamel : cToCamel voltage = voltage) (hpascal : cToPascal voltage = "Voltage".toList)
  (hindent : AddsBlanks indent) (hlength : 0 ≤ length.toInt) (hfits : Fits offset length)
  {tableName : Text} (hclass : ∀ c ∈ cToPascal tableName, isLineBreak c = false)

include hcamel hpascal hindent hlength hfits hclass

theorem methodCases_getValue :
    methodCases "  def getValue(obj: ".toList
        (valueAccessor cToCamel cToPascal indent offset length tableName) =
      some ((indices length).map getterCase) := by
  rcases block_cases hindent hlength hfits wellFormed_getterCase
    (fun i hi no => getter_eq hcamel hi no) with ⟨hread, hget⟩
  rcases block_cases hindent hlength hfits wellFormed_setterCase
    (fun i hi no => setter_eq hpascal hi no) with ⟨-, hset⟩
  rw [methodCases, methodBody_getValue hclass hget hset, hread]

theorem methodCases_setValue :
    methodCases "  def setValue(obj: ".toList
        (valueAccessor cToCamel cToPascal indent offset length tableName) =
      some ((indices length).map setterCase) := by
  rcases block_cases hindent hlength hfits wellFormed_getterCase
    (fun i hi no => getter_eq hcamel hi no) with ⟨-, hget⟩
  rcases block_cases hindent hlength hfits wellFormed_setterCase
    (fun i hi no => setter_eq hpascal hi no) with ⟨hread, hset⟩
  rw [methodCases, methodBody_setValue hclass hget hset, hread]

theorem methodBody_setValues_valueAccessor :
    methodBody "  def setValues(obj: ".toList " = \x7b".toList
        (valueAccessor cToCamel cToPascal indent offset length tableName) = foldBody := by
  rcases block_cases hindent hlength hfits wellFormed_getterCase
    (fun i hi no => getter_eq hcamel hi no) with ⟨-, hget⟩
  rcases block_cases hindent hlength hfits wellFormed_setterCase
    (fun i hi no => setter_eq hpascal hi no) with ⟨-, hset⟩
  exact methodBody_setValues hclass hget hset

end Methods

/-! ## Fields by name -/

/-- The columns of a row. -/
def columns {Row Value : Type} (C : RowClass Row Value) : Fields ℕ Row Value where
  get obj i := C.call obj (fieldName i)
  put obj i v := C.callWith obj (withName (fieldName i)) v
  get_put obj i v := C.call_with obj (fieldName i) v
  get_put_ne obj i j v hji :=
    C.call_with_ne obj (fieldName i) (fieldName j) v fun h =>
      hji (withName_fieldName_injective h).symm
  put_comm obj i j v w hij :=
    C.with_comm obj (fieldName i) (fieldName j) v w fun h => hij (withName_fieldName_injective h)

def naming (length : Int32) : Naming Text ℕ where
  field name := (indices length).find? fun i => columnName i = name
  injective k l i hk hl := by
    have hk' := List.find?_some hk
    have hl' := List.find?_some hl
    rw [decide_eq_true_iff] at hk' hl'
    exact hk'.symm.trans hl'

theorem naming_isSome {length : Int32} {n : Text} (hn : n ∈ (indices length).map columnName) :
    ((naming length).field n).isSome := by
  rcases List.mem_map.mp hn with ⟨i, hi, rfl⟩
  exact List.find?_isSome.mpr ⟨i, hi, decide_eq_true rfl⟩

section Refinement

variable {Row Value : Type} (C : RowClass Row Value) {object : Text} {length : Int32}

/-- Reading by name: the case with the name is that of the column with the name. -/
theorem getValue_eq_read (hcases : methodCases "  def getValue(obj: ".toList object =
    some ((indices length).map getterCase)) (obj : Row) (name : Text) :
    getValue C object obj name = (columns C).read (naming length) obj name := by
  have hfind : ((indices length).map getterCase).find? (fun c => decide (c.name = name)) =
      ((naming length).field name).map getterCase := List.find?_map
  rw [getValue, hcases, Option.bind_eq_bind, Option.bind_some, hfind, Fields.read]
  cases (naming length).field name with
  | none =>
      rfl
  | some i =>
      rfl

theorem setValue_eq_write (hcases : methodCases "  def setValue(obj: ".toList object =
    some ((indices length).map setterCase)) (obj : Row) (name : Text) (value : Value) :
    setValue C object obj name value = (columns C).write (naming length) obj name value := by
  have hfind : ((indices length).map setterCase).find? (fun c => decide (c.name = name)) =
      ((naming length).field name).map setterCase := List.find?_map
  rw [setValue, hcases, Option.bind_eq_bind, Option.bind_some, hfind, Fields.write]
  cases (naming length).field name with
  | none =>
      rfl
  | some i =>
      rfl

theorem setValues_eq_writeEach
    (hset : methodCases "  def setValue(obj: ".toList object =
      some ((indices length).map setterCase))
    (hfold : methodBody "  def setValues(obj: ".toList " = \x7b".toList object = foldBody)
    (obj : Row) (values : List (Text × Value)) :
    setValues C object obj values =
      writeEach ((columns C).write (naming length)) obj values := by
  have hwrite : setValue C object = (columns C).write (naming length) := by
    funext obj name value
    exact setValue_eq_write C hset obj name value
  rw [setValues, if_pos hfold, hwrite]

/-- What the accessors of the listed names do. -/
structure Accessors (object : Text) (names : List Text) : Prop where
  get_set : ∀ obj, ∀ n ∈ names, ∀ v,
    (setValue C object obj n v).bind (fun o => getValue C object o n) = some v
  get_set_ne : ∀ obj, ∀ n ∈ names, ∀ m ∈ names, m ≠ n → ∀ v,
    (setValue C object obj n v).bind (fun o => getValue C object o m) = getValue C object obj m
  setValues_isSome : ∀ obj (values : List (Text × Value)), (∀ e ∈ values, e.1 ∈ names) →
    (setValues C object obj values).isSome
  setValues_perm : ∀ obj (values values' : List (Text × Value)), values.Perm values' →
    (values.map Prod.fst).Nodup → setValues C object obj values = setValues C object obj values'

theorem accessors_of_cases
    (hget : methodCases "  def getValue(obj: ".toList object =
      some ((indices length).map getterCase))
    (hset : methodCases "  def setValue(obj: ".toList object =
      some ((indices length).map setterCase))
    (hfold : methodBody "  def setValues(obj: ".toList " = \x7b".toList object = foldBody) :
    Accessors C object ((indices length).map columnName) where
  get_set obj n hn v := by
    rw [setValue_eq_write C hset]
    simp only [getValue_eq_read C hget]
    exact (columns C).read_write (naming length) (naming_isSome hn) obj v
  get_set_ne obj n hn m _ hmn v := by
    rw [setValue_eq_write C hset]
    simp only [getValue_eq_read C hget]
    exact (columns C).read_write_ne (naming length) (naming_isSome hn) hmn obj v
  setValues_isSome obj values hnames := by
    rw [setValues_eq_writeEach C hset hfold]
    exact writeEach_isSome (fun e he s =>
      (columns C).write_isSome (naming length) (naming_isSome (hnames e he)) s e.2) obj
  setValues_perm obj values values' hperm hkeys := by
    rw [setValues_eq_writeEach C hset hfold, setValues_eq_writeEach C hset hfold]
    exact (columns C).writeAll_perm (naming length) hperm hkeys obj

end Refinement

/-- The object that the program prints. -/
theorem accessors_accessor {Row Value : Type} (C : RowClass Row Value)
    {cToCamel cToPascal : Text → Text} {indent : Text → ℕ → Text}
    (hcamel : cToCamel voltage = voltage) (hpascal : cToPascal voltage = "Voltage".toList)
    (hindent : AddsBlanks indent) (modelName modelPackage dbSchema : Text) {tableName : Text}
    (hclass : ∀ c ∈ cToPascal tableName, isLineBreak c = false) :
    Accessors C (accessor cToCamel cToPascal indent modelName modelPackage dbSchema tableName)
      ((indices 24).map columnName) :=
  accessors_of_cases C
    (methodCases_getValue hcamel hpascal hindent (by decide) (Or.inr (by decide)) hclass)
    (methodCases_setValue hcamel hpascal hindent (by decide) (Or.inr (by decide)) hclass)
    (methodBody_setValues_valueAccessor hcamel hpascal hindent (by decide) (Or.inr (by decide))
      hclass)

/-! ## Every range of columns -/

section Consistent

variable (cToCamel cToPascal : Text → Text) (indent : Text → ℕ → Text)

/-- The generator gives a range of columns one line each, and accessors that belong together. -/
structure Consistent (offset length : Int32) : Prop where
  joined : ∀ f, dataColumns offset length f = ['\n'].intercalate (columnLines offset length f)
  lines : ∀ f, (∀ l ∈ columnLines offset length f, l ≠ [] ∧ '\n' ∉ l) →
    textLines (dataColumns offset length f) = columnLines offset length f
  names_nodup : ((indices length).map columnName).Nodup
  getters : ∀ tableName, (∀ c ∈ cToPascal tableName, isLineBreak c = false) →
    methodCases "  def getValue(obj: ".toList
        (valueAccessor cToCamel cToPascal indent offset length tableName) =
      some ((indices length).map getterCase)
  setters : ∀ tableName, (∀ c ∈ cToPascal tableName, isLineBreak c = false) →
    methodCases "  def setValue(obj: ".toList
        (valueAccessor cToCamel cToPascal indent offset length tableName) =
      some ((indices length).map setterCase)
  accessors : ∀ tableName, (∀ c ∈ cToPascal tableName, isLineBreak c = false) →
    ∀ (Row Value : Type) (C : RowClass Row Value),
      Accessors C (valueAccessor cToCamel cToPascal indent offset length tableName)
        ((indices length).map columnName)

variable {cToCamel cToPascal indent}

/-- The accessors are consistent exactly if the number behind the last column is an `Int`, or there
is no column. -/
theorem consistent_iff (hcamel : cToCamel voltage = voltage)
    (hpascal : cToPascal voltage = "Voltage".toList) (hindent : AddsBlanks indent)
    (offset length : Int32) (hlength : 0 ≤ length) :
    Consistent cToCamel cToPascal indent offset length ↔ Fits offset length := by
  have hlength' : 0 ≤ length.toInt := Int32.le_iff_toInt_le.mp hlength
  constructor
  · intro h
    by_contra hfits
    rw [Fits, not_or, Int.not_le] at hfits
    -- The range is empty, but some line should be there.
    have hlines := h.lines (fun _ _ _ => ['x']) ?_
    · rw [dataColumns_wrapped hfits.2, textLines, if_pos rfl] at hlines
      have hnone := congrArg List.length hlines
      rw [columnLines, List.length_nil, List.length_map, List.length_range] at hnone
      have hzero : length.toInt = 0 := by omega
      exact hfits.1 (Int32.toInt_inj.mp hzero)
    · intro l hl
      rcases List.mem_map.mp hl with ⟨k, -, rfl⟩
      show ['x'] ≠ [] ∧ '\n' ∉ ['x']
      decide
  · intro hfits
    refine ⟨dataColumns_eq hlength' hfits, ?_, ?_, ?_, ?_, ?_⟩
    · intro f hf
      rw [dataColumns_eq hlength' hfits]
      exact textLines_join (fun l hl => (hf l hl).1) fun l hl => (hf l hl).2
    · refine List.Nodup.map columnName_injective ?_
      exact List.nodup_range.map (add_left_injective 1)
    · intro tableName hclass
      exact methodCases_getValue hcamel hpascal hindent hlength' hfits hclass
    · intro tableName hclass
      exact methodCases_setValue hcamel hpascal hindent hlength' hfits hclass
    · intro tableName hclass Row Value C
      exact accessors_of_cases C
        (methodCases_getValue hcamel hpascal hindent hlength' hfits hclass)
        (methodCases_setValue hcamel hpascal hindent hlength' hfits hclass)
        (methodBody_setValues_valueAccessor hcamel hpascal hindent hlength' hfits hclass)

end Consistent

/-- Blanks in front of every line but the first. -/
def indentRest (s : Text) (n : ℕ) : Text :=
  s.flatMap fun c => if c = '\n' then '\n' :: List.replicate n ' ' else [c]

theorem splitOn_indentRest (s : Text) (n : ℕ) : ∃ first rest rest',
    s.splitOn '\n' = first :: rest ∧ (indentRest s n).splitOn '\n' = first :: rest' ∧
      List.Forall₂ Indented rest rest' := by
  induction s with
  | nil =>
      exact ⟨[], [], [], List.splitOn_nil _, List.splitOn_nil _, .nil⟩
  | cons c s ih =>
      rcases ih with ⟨first, rest, rest', hs, hs', hrest⟩
      by_cases hc : c = '\n'
      · have hblank : '\n' ∉ List.replicate n ' ' := fun h =>
          absurd (List.eq_of_mem_replicate h) (by decide)
        have hindent : indentRest (c :: s) n =
            '\n' :: (List.replicate n ' ' ++ indentRest s n) := by
          rw [indentRest, List.flatMap_cons, if_pos hc]
          rfl
        refine ⟨[], first :: rest, (List.replicate n ' ' ++ first) :: rest', ?_, ?_,
          .cons ⟨n, rfl⟩ hrest⟩
        · rw [hc, splitOn_cons_self, hs]
        · rw [hindent, splitOn_cons_self, splitOn_append hblank hs']
      · have hindent : indentRest (c :: s) n = c :: indentRest s n := by
          rw [indentRest, List.flatMap_cons, if_neg hc]
          rfl
        refine ⟨c :: first, rest, rest', splitOn_cons_of_ne hc hs, ?_, hrest⟩
        rw [hindent]
        exact splitOn_cons_of_ne hc hs'

theorem addsBlanks_indentRest : AddsBlanks indentRest := by
  intro s n
  rcases splitOn_indentRest s n with ⟨first, rest, rest', hs, hs', hrest⟩
  rw [hs, hs']
  exact .cons ⟨0, rfl⟩ hrest

/-- The columns that the generator is run for. -/
theorem consistent_five : Consistent (fun s => s) capitalize indentRest 5 24 :=
  (consistent_iff rfl rfl addsBlanks_indentRest 5 24 (by decide)).mpr (Or.inr (by decide))

/-- The largest `Int` is the number of a field, but there is no range up to it. -/
theorem not_consistent : ¬ Consistent (fun s => s) capitalize indentRest 2147483647 1 := by
  intro h
  have hlines := h.lines (fun _ _ _ => ['x']) (by decide)
  exact absurd hlines (by decide)

end Transposed
end Etude
