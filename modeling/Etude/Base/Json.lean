import Mathlib.Data.List.Induction

/-!
# Json — JSON values, field access and typed codecs

An object is a finite map from keys to values, held as a list of entries in key order.  This
file defines `insertField` and `fromFields`, reading a field of an object with the errors of a
failed lookup, and the classes `FromJSON` and `ToJSON` for the types that have a JSON form.
-/

namespace Etude
namespace Base

/-! ## Finite maps with string keys -/

section Fields

variable {β : Type*}

/-- The map with `key` bound to `x`, whatever it was bound to before. -/
def insertField (key : String) (x : β) : List (String × β) → List (String × β)
  | [] => [(key, x)]
  | (key', x') :: rest =>
      if key < key' then (key, x) :: (key', x') :: rest
      else if key = key' then (key, x) :: rest
      else (key', x') :: insertField key x rest

/-- The map with the given entries; a later entry replaces an earlier one of the same key. -/
def fromFields (entries : List (String × β)) : List (String × β) :=
  entries.foldl (fun o e => insertField e.1 e.2 o) []

@[simp] theorem lookup_insertField_self (key : String) (x : β) (o : List (String × β)) :
    (insertField key x o).lookup key = some x := by
  induction o with
  | nil =>
      simp [insertField]
  | cons e rest ih =>
      rcases e with ⟨key', x'⟩
      -- The three branches of `insertField`: before, in place of, or behind this entry.
      by_cases hlt : key < key'
      · simp [insertField, hlt]
      · by_cases heq : key = key'
        · simp [insertField, heq]
        · have hbeq : (key == key') = false := by
            simpa using heq
          simpa [insertField, hlt, heq, List.lookup_cons, hbeq] using ih

theorem lookup_insertField_of_ne {key key' : String} (hne : key' ≠ key) (x : β)
    (o : List (String × β)) : (insertField key x o).lookup key' = o.lookup key' := by
  have hbeq : (key' == key) = false := by
    simpa using hne
  induction o with
  | nil =>
      simp [insertField, List.lookup_cons, hbeq]
  | cons e rest ih =>
      rcases e with ⟨k, y⟩
      by_cases hlt : key < k
      · simp [insertField, hlt, List.lookup_cons, hbeq]
      · by_cases heq : key = k
        · subst heq
          simp [insertField, List.lookup_cons, hbeq]
        · simp [insertField, hlt, heq, List.lookup_cons, ih]

/-- A lookup in a map finds the last of the entries with its key. -/
theorem lookup_fromFields (key : String) (entries : List (String × β)) :
    (fromFields entries).lookup key = entries.reverse.lookup key := by
  induction entries using List.reverseRecOn with
  | nil =>
      rfl
  | append_singleton es e ih =>
      have hfold : fromFields (es ++ [e]) = insertField e.1 e.2 (fromFields es) := by
        simp [fromFields]
      rcases e with ⟨key', x⟩
      -- The entry inserted last is the first of the reversed list.
      rw [hfold, List.reverse_append, List.reverse_singleton, List.singleton_append]
      by_cases hkey : key = key'
      · subst hkey
        simp
      · rw [lookup_insertField_of_ne hkey, ih]
        have hbeq : (key == key') = false := by
          simpa using hkey
        simp [List.lookup_cons, hbeq]

end Fields

/-! ## Values -/

inductive Value where
  | object (fields : List (String × Value))
  | array (items : List Value)
  | string (text : String)
  | number (coefficient exponent : Int)
  | bool (b : Bool)
  | null

/-- What an error message calls the value. -/
def Value.kind : Value → String
  | .object _ => "Object"
  | .array _ => "Array"
  | .string _ => "String"
  | .number _ _ => "Number"
  | .bool _ => "Boolean"
  | .null => "Null"

abbrev Parser (α : Type*) := Except String α

class FromJSON (α : Type) where
  parseJSON : Value → Parser α

class ToJSON (α : Type) where
  toJSON : α → Value

export FromJSON (parseJSON)
export ToJSON (toJSON)

def typeMismatch {α : Type} (expected : String) (v : Value) : Parser α :=
  .error ("expected " ++ expected ++ ", encountered " ++ v.kind)

def withObject {α : Type} (expected : String) (f : List (String × Value) → Parser α) :
    Value → Parser α
  | .object o => f o
  | v => typeMismatch expected v

instance : FromJSON String where
  parseJSON
    | .string s => .ok s
    | v => typeMismatch "String" v

instance : ToJSON String where
  toJSON s := .string s

instance : FromJSON Bool where
  parseJSON
    | .bool b => .ok b
    | v => typeMismatch "Bool" v

instance : ToJSON Bool where
  toJSON b := .bool b

instance {α : Type} [FromJSON α] : FromJSON (Option α) where
  parseJSON
    | .null => .ok none
    | v => some <$> parseJSON v

instance {α : Type} [ToJSON α] : ToJSON (Option α) where
  toJSON
    | none => .null
    | some a => toJSON a

/-- `o .: key` -/
def field {α : Type} [FromJSON α] (o : List (String × Value)) (key : String) : Parser α :=
  match o.lookup key with
  | some v => parseJSON v
  | none => .error ("key \"" ++ key ++ "\" not found")

/-- `o .:? key`: an absent field and a null one both read as `none`. -/
def optField {α : Type} [FromJSON α] (o : List (String × Value)) (key : String) :
    Parser (Option α) :=
  match o.lookup key with
  | some v => parseJSON v
  | none => .ok none

/-- The entry of a field that may be absent, for encoders that leave out an absent one. -/
def omitNothing {α : Type} [ToJSON α] (key : String) : Option α → List (String × Value)
  | none => []
  | some a => [(key, toJSON a)]

theorem field_of_lookup {α : Type} [FromJSON α] {o : List (String × Value)} {key : String}
    {v : Value} (h : o.lookup key = some v) : field o key = (parseJSON v : Parser α) := by
  simp [field, h]

theorem field_of_absent {α : Type} [FromJSON α] {o : List (String × Value)} {key : String}
    (h : o.lookup key = none) :
    (field o key : Parser α) = .error ("key \"" ++ key ++ "\" not found") := by
  simp [field, h]

/-- A field that is read as a string was there, and was a string. -/
theorem lookup_of_field_eq {o : List (String × Value)} {key s : String}
    (h : field o key = (.ok s : Parser String)) : o.lookup key = some (.string s) := by
  cases hv : o.lookup key with
  | none =>
      rw [field_of_absent hv] at h
      cases h
  | some v =>
      rw [field_of_lookup hv] at h
      cases v <;> cases h
      rfl

theorem optField_of_lookup {α : Type} [FromJSON α] {o : List (String × Value)} {key : String}
    {v : Value} (h : o.lookup key = some v) :
    optField o key = (parseJSON v : Parser (Option α)) := by
  simp [optField, h]

theorem optField_of_absent {α : Type} [FromJSON α] {o : List (String × Value)} {key : String}
    (h : o.lookup key = none) : (optField o key : Parser (Option α)) = .ok none := by
  simp [optField, h]

/-- A value that is not written as `null` and is read back is read back as an optional one. -/
theorem parseJSON_some {α : Type} [FromJSON α] {v : Value} {a : α} (hnull : v ≠ .null)
    (h : parseJSON v = (.ok a : Parser α)) : parseJSON v = (.ok (some a) : Parser (Option α)) := by
  cases v with
  | null =>
      exact absurd rfl hnull
  | object o =>
      exact congrArg (Except.map some) h
  | array vs =>
      exact congrArg (Except.map some) h
  | string s =>
      exact congrArg (Except.map some) h
  | number c e =>
      exact congrArg (Except.map some) h
  | bool b =>
      exact congrArg (Except.map some) h

/-! ## Bytes -/

/-- The translation between values and their text, as bytes. -/
structure JsonText where
  encodeValue : Value → List UInt8
  decodeValue : List UInt8 → Option Value

namespace JsonText

variable {α : Type} (text : JsonText)

def encode [ToJSON α] (a : α) : List UInt8 :=
  text.encodeValue (toJSON a)

def decode (α : Type) [FromJSON α] (bytes : List UInt8) : Option α :=
  (text.decodeValue bytes).bind fun v => (parseJSON v : Parser α).toOption

/-- The text of `v` is read back as `v`. -/
def ReadsBack (v : Value) : Prop :=
  text.decodeValue (text.encodeValue v) = some v

variable {text}

/-- What is decoded from the text of `a` is what its value parses to. -/
theorem decode_encode [ToJSON α] [FromJSON α] {a : α} (h : text.ReadsBack (toJSON a)) :
    text.decode α (text.encode a) = (parseJSON (toJSON a) : Parser α).toOption := by
  have hvalue : text.decodeValue (text.encodeValue (toJSON a)) = some (toJSON a) := h
  simp [decode, encode, hvalue]

end JsonText

end Base
end Etude
