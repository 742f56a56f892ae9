import Etude.Base.Fields
import Etude.Base.Traverse
import Etude.Transposed.Columns

/-!
# Accessor — what the generated text means

A method of the generated object is the lines between its signature and its closing brace.  Those
of `getValue` and `setValue` are cases of a match on a name, `case "name" => obj.method(argument)`,
and the one of `setValues` folds `setValue` over a map.  The class of `obj` is generated elsewhere:
`RowClass` says of it that a `with` method updates its own field only.
-/

namespace Etude
namespace Transposed

open Base

/-! ## Reading the generated text -/

/-- A case of a generated match: for `name`, `obj.method(argument)`. -/
structure Case where
  name : Text
  method : Text
  argument : Text
  deriving DecidableEq, Repr

def caseStart : Text :=
  "case \"".toList

def arrow : Text :=
  " => obj.".toList

def readCase (line : Text) : Option Case := do
  let rest ← (line.dropWhile isBlank).dropPrefix? caseStart
  let name := rest.takeWhile fun c => c ≠ '\"'
  let rest ← (rest.dropWhile fun c => c ≠ '\"').dropPrefix? ('\"' :: arrow)
  let method := rest.takeWhile fun c => c ≠ '('
  let rest ← (rest.dropWhile fun c => c ≠ '(').dropPrefix? ['(']
  if rest.getLast? = some ')' then some ⟨name, method, rest.dropLast⟩ else none

/-- A first line of a method: it starts with the method's name and ends with what opens its
body. -/
def opensMethod (start opening l : Text) : Bool :=
  start.isPrefixOf l && opening.isSuffixOf l

/-- The lines of a method behind its first one, up to its closing brace. -/
def methodBody (start opening object : Text) : List Text :=
  (((object.splitOn '\n').dropWhile fun l => !opensMethod start opening l).tail).takeWhile fun l =>
    l ≠ "  \x7d".toList

/-- The cases of a method that is a match on the name; blank lines are none. -/
def methodCases (start object : Text) : Option (List Case) :=
  ((methodBody start " = name match \x7b".toList object).filter fun l => !l.all isBlank).mapM
    readCase

def capitalize : Text → Text
  | [] => []
  | c :: cs => c.toUpper :: cs

/-- The method that returns a copy of a row with another value in the field `x`. -/
def withName (x : Text) : Text :=
  "with".toList ++ capitalize x

/-- The class of the rows: `obj.x()` reads the field `x`, and `obj.withX(value)` updates it and no
other field. -/
structure RowClass (Row Value : Type) where
  call : Row → Text → Value
  callWith : Row → Text → Value → Row
  call_with : ∀ obj x v, call (callWith obj (withName x) v) x = v
  call_with_ne : ∀ obj x y v, withName x ≠ withName y →
    call (callWith obj (withName x) v) y = call obj y
  with_comm : ∀ obj x y v w, withName x ≠ withName y →
    callWith (callWith obj (withName x) v) (withName y) w =
      callWith (callWith obj (withName y) w) (withName x) v

/-- Rows that keep a value for every `with` method. -/
instance {Value : Type} : Inhabited (RowClass (Text → Value) Value) where
  default :=
    { call := fun obj x => obj (withName x)
      callWith := fun obj m v => Function.update obj m v
      call_with := fun obj x v => Function.update_self (withName x) v obj
      call_with_ne := fun obj _ _ v h => Function.update_of_ne (Ne.symm h) v obj
      with_comm := fun obj _ _ v w h => Function.update_comm h v w obj }

section Methods

variable {Row Value : Type} (C : RowClass Row Value) (object : Text)

/-- `ValueAccessor.getValue`: the first case with the name, and a `MatchError` without one. -/
def getValue (obj : Row) (name : Text) : Option Value := do
  let cases ← methodCases "  def getValue(obj: ".toList object
  let c ← cases.find? fun c => c.name = name
  if c.argument = [] then some (C.call obj c.method) else none

/-- `ValueAccessor.setValue` -/
def setValue (obj : Row) (name : Text) (value : Value) : Option Row := do
  let cases ← methodCases "  def setValue(obj: ".toList object
  let c ← cases.find? fun c => c.name = name
  if c.argument = "value".toList then some (C.callWith obj c.method value) else none

/-- The body of a method that puts every entry of a map into an object. -/
def foldBody : List Text :=
  ["    values.foldLeft(obj)((o, v) => setValue(o, v._1, v._2))".toList]

/-- `ValueAccessor.setValues`, for a map given by its entries in the order of iteration; the text
of any other body has no meaning here. -/
def setValues (obj : Row) (values : List (Text × Value)) : Option Row :=
  if methodBody "  def setValues(obj: ".toList " = \x7b".toList object = foldBody then
    writeEach (setValue C object) obj values
  else
    none

end Methods

/-! ## A setter for tests -/

/-- `TestObject` has no fields, and `value1` returns the object. -/
structure TestObject where
  deriving DecidableEq, Repr

def TestObject.value1 {Value : Type} (obj : TestObject) (_v : Value) : TestObject :=
  obj

namespace TestValueSetter

variable {Value : Type}

def setValue (obj : TestObject) (name : Text) (value : Value) : Option TestObject :=
  if name = ['0'] then some (obj.value1 value) else none

def setValues (obj : TestObject) (values : List (Text × Value)) : Option TestObject :=
  writeEach setValue obj values

theorem setValues_perm {values values' : List (Text × Value)} (hperm : values.Perm values')
    (hkeys : (values.map Prod.fst).Nodup) (obj : TestObject) :
    setValues obj values = setValues obj values' := by
  refine writeEach_perm ?_ hperm hkeys obj
  intro obj k l v w hkl
  by_cases hk : k = ['0']
  · have hl : l ≠ ['0'] := fun h => hkl (hk.trans h.symm)
    simp [setValue, hk, hl]
  · simp [setValue, hk]

end TestValueSetter

/-! ## Cases -/

namespace Case

def line (c : Case) : Text :=
  caseStart ++ (c.name ++ '\"' :: (arrow ++ (c.method ++ '(' :: (c.argument ++ [')']))))

/-- The parts of a case can be told apart, and it stands on one line. -/
structure WellFormed (c : Case) : Prop where
  name : '\"' ∉ c.name
  method : '(' ∉ c.method
  oneLine : ∀ d ∈ c.line, isLineBreak d = false

end Case

theorem takeWhile_append_cons {p : Char → Bool} {l : Text} (hl : ∀ c ∈ l, p c = true) {d : Char}
    (hd : p d = false) (rest : Text) :
    (l ++ d :: rest).takeWhile p = l ∧ (l ++ d :: rest).dropWhile p = d :: rest := by
  rw [List.takeWhile_append_of_pos hl, List.dropWhile_append_of_pos hl,
    List.takeWhile_cons_of_neg (by simp [hd]), List.dropWhile_cons_of_neg (by simp [hd]),
    List.append_nil]
  exact ⟨rfl, rfl⟩

theorem dropPrefix_append (w s : Text) : (w ++ s).dropPrefix? w = some s :=
  List.dropPrefix?_append_of_beq s BEq.rfl

/-- A case is read back from its line, whatever blanks are before it. -/
theorem readCase_line {c : Case} (hc : c.WellFormed) (k : ℕ) :
    readCase (List.replicate k ' ' ++ c.line) = some c := by
  have hline : (List.replicate k ' ' ++ c.line).dropWhile isBlank = c.line := by
    rw [List.dropWhile_append_of_pos fun _ hc => (blank_of_mem_replicate hc).1]
    rfl
  have hname := takeWhile_append_cons (p := fun d => d ≠ '\"') (d := '\"') (l := c.name)
    (fun d hd => by simpa using ne_of_mem_of_not_mem hd hc.name) (by simp)
    (arrow ++ (c.method ++ '(' :: (c.argument ++ [')'])))
  have hmethod := takeWhile_append_cons (p := fun d => d ≠ '(') (d := '(') (l := c.method)
    (fun d hd => by simpa using ne_of_mem_of_not_mem hd hc.method) (by simp) (c.argument ++ [')'])
  have harrow : ('\"' :: (arrow ++ (c.method ++ '(' :: (c.argument ++ [')'])))).dropPrefix?
      ('\"' :: arrow) = some (c.method ++ '(' :: (c.argument ++ [')'])) :=
    dropPrefix_append ('\"' :: arrow) (c.method ++ '(' :: (c.argument ++ [')']))
  have hopen : ('(' :: (c.argument ++ [')'])).dropPrefix? ['('] = some (c.argument ++ [')']) :=
    dropPrefix_append ['('] (c.argument ++ [')'])
  rw [readCase, hline, Case.line, dropPrefix_append]
  simp only [Option.bind_eq_bind, Option.bind_some, hname.1, hname.2, harrow, hmethod.1, hmethod.2,
    hopen, List.getLast?_concat, if_true, List.dropLast_concat]

end Transposed
end Etude
