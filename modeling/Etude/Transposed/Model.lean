import Mathlib.Data.Nat.Digits.Defs
import Etude.Base.Margin

/-!
# Model — the generator of wide-column tables

`dataColumns` writes one line for each column of a range of field numbers; the template that writes
the line is a parameter.  `getter` and `setter` are the templates of the cases of `getValue` and
`setValue` in the generated `ValueAccessor`, `dataColumn` is that of the columns in the model file.
`cToCamel`, `cToPascal` and `indent` belong to the library that the generator imports.
-/

namespace Etude
namespace Transposed

open Base

abbrev Text :=
  List Char

/-- A template that is given a field number, a field name and a column index. -/
abbrev Template :=
  Int32 → Text → Int32 → Text

/-! ## Scala -/

/-- `s"${n}"` -/
def showInt (n : Int32) : Text :=
  if n < 0 then '-' :: Nat.toDigits 10 n.toInt.natAbs else Nat.toDigits 10 n.toInt.natAbs

/-- `start until stop` -/
def rangeUntil (start stop : Int32) : List Int32 :=
  (List.range (stop.toInt - start.toInt).toNat).map fun k => start + Int32.ofNat k

def reduceOption {α : Type*} (op : α → α → α) : List α → Option α
  | [] => none
  | x :: xs => some (xs.foldl op x)

/-! ## Columns -/

def voltage : Text :=
  "voltage".toList

def dataColumns (offset length : Int32) (dataColumn : Template) : Text :=
  (reduceOption (fun l r => l ++ '\n' :: r)
    ((rangeUntil offset (offset + length)).map fun n =>
      let idx := n - offset + 1
      dataColumn n voltage idx)).getD []

/-- The margin that the source gives the lines of its literals. -/
def margin : Text :=
  "       |".toList

/-- A template of one line, in the form that all of them have. -/
def template (line : Text) : Text :=
  trim (stripMargin (tripleQuoted [[], margin ++ line, "     ".toList]))

def dataColumn : Template := fun no name idx =>
  template ("<field no=\"".toList ++ showInt no ++ "\" name=\"".toList ++ name ++
    '_' :: showInt idx ++ "\" type=\"double\" required=\"false\" comment=\"电池单体".toList ++
    showInt idx ++ "电压\"/>".toList)

/-! ## The generated object -/

section Signatures

variable (className : Text)

def getValueSignature : Text :=
  "  def getValue(obj: ".toList ++ (className ++ ", name: String): Double = name match \x7b".toList)

def setValueSignature : Text :=
  "  def setValue(obj: ".toList ++ (className ++ (", name: String, value: Double): ".toList ++
    (className ++ " = name match \x7b".toList)))

def setValuesSignature : Text :=
  "  def setValues(obj: ".toList ++ (className ++ (", values: Map[String, Double]): ".toList ++
    (className ++ " = \x7b".toList)))

end Signatures

section Library

variable (cToCamel cToPascal : Text → Text) (indent : Text → ℕ → Text)

def getter : Template := fun _ name idx =>
  template ("case \"电池单体".toList ++ showInt idx ++ "电压\" => obj.".toList ++ cToCamel name ++
    showInt idx ++ "()".toList)

def setter : Template := fun _ name idx =>
  template ("case \"电池单体".toList ++ showInt idx ++ "电压\" => obj.with".toList ++ cToPascal name ++
    showInt idx ++ "(value)".toList)

/-- The lines of the object `ValueAccessor` for a range of columns. -/
def valueAccessorLines (offset length : Int32) (tableName : Text) : List Text := [
  "object ValueAccessor \x7b".toList,
  [],
  getValueSignature (cToPascal tableName),
  "    ".toList ++ indent (dataColumns offset length (getter cToCamel)) 4,
  "  \x7d".toList,
  [],
  setValueSignature (cToPascal tableName),
  "    ".toList ++ indent (dataColumns offset length (setter cToPascal)) 4,
  "  \x7d".toList,
  [],
  setValuesSignature (cToPascal tableName),
  "    values.foldLeft(obj)((o, v) => setValue(o, v._1, v._2))".toList,
  "  \x7d".toList,
  "\x7d".toList]

def valueAccessor (offset length : Int32) (tableName : Text) : Text :=
  stripMargin (tripleQuoted ([] ::
    ((valueAccessorLines cToCamel cToPascal indent offset length tableName).map (margin ++ ·) ++
      ["     ".toList])))

/-- The table has 24 columns from field 5 on; of the arguments only the table's name is used. -/
def accessor (_modelName _modelPackage _dbSchema tableName : Text) : Text :=
  valueAccessor cToCamel cToPascal indent 5 24 tableName

end Library

end Transposed
end Etude
