import Etude.Base.Json

/-!
# DataObject — analog and digital inputs as tagged JSON objects

The records of `AI.hs` and `DI.hs`, the union of the two in `DataObject.hs`, and the round trip
between a union and its JSON.  The floating-point numbers are a type `F` with a JSON form.
-/

namespace Etude
namespace SensorJson

open Base

variable {F : Type}

/-! ## The records -/

structure AI (F : Type) where
  id : String
  value : Option F
  deriving DecidableEq, Repr

structure DI where
  id : String
  value : Option Bool
  deriving DecidableEq, Repr

instance [FromJSON F] : FromJSON (AI F) where
  parseJSON := withObject "AI" fun o => do
    return {
      id := ← field o "id"
      value := ← optField o "value" }

/-- `omitNothingFields = True` -/
instance [ToJSON F] : ToJSON (AI F) where
  toJSON ai := .object (fromFields (("id", toJSON ai.id) :: omitNothing "value" ai.value))

instance : FromJSON DI where
  parseJSON := withObject "DI" fun o => do
    return {
      id := ← field o "id"
      value := ← optField o "value" }

instance : ToJSON DI where
  toJSON di := .object (fromFields [("id", toJSON di.id), ("value", toJSON di.value)])

/-! ## The union -/

inductive DataObject (F : Type) where
  | aiObject (ai : AI F)
  | diObject (di : DI)
  deriving DecidableEq, Repr

def aiObjectType : String :=
  "type.googleapis.com/AIObject"

def diObjectType : String :=
  "type.googleapis.com/DIObject"

/-- `Object $ insert "@type" kind o`; a value that is no object matches no pattern. -/
def insertType (kind : String) : Value → Option Value
  | .object o => some (.object (insertField "@type" (.string kind) o))
  | _ => none

def DataObject.toJSON [ToJSON F] : DataObject F → Option Value
  | .aiObject ai => insertType aiObjectType (Base.toJSON ai)
  | .diObject di => insertType diObjectType (Base.toJSON di)

instance [FromJSON F] : FromJSON (DataObject F) where
  parseJSON := withObject "DataObject" fun o => do
    let kind : String ← field o "@type"
    if kind = aiObjectType then
      DataObject.aiObject <$> (parseJSON (.object o) : Parser (AI F))
    else if kind = diObjectType then
      DataObject.diObject <$> (parseJSON (.object o) : Parser DI)
    else
      throw ("unknown kind: " ++ kind)

/-! ## Records read from any object that has their fields -/

theorem parseJSON_ai [FromJSON F] {o : List (String × Value)} {id : String} {value : Option F}
    (hid : o.lookup "id" = some (.string id))
    (hvalue : optField o "value" = (.ok value : Parser (Option F))) :
    (parseJSON (.object o) : Parser (AI F)) = .ok { id := id, value := value } := by
  have hid' : field o "id" = (.ok id : Parser String) := field_of_lookup hid
  simp only [parseJSON, withObject, hid', hvalue]
  rfl

theorem parseJSON_di {o : List (String × Value)} {id : String} {value : Option Bool}
    (hid : o.lookup "id" = some (.string id))
    (hvalue : optField o "value" = (.ok value : Parser (Option Bool))) :
    (parseJSON (.object o) : Parser DI) = .ok { id := id, value := value } := by
  have hid' : field o "id" = (.ok id : Parser String) := field_of_lookup hid
  simp only [parseJSON, withObject, hid', hvalue]
  rfl

/-! ## The type of an object -/

def DataObject.type : DataObject F → String
  | .aiObject _ => aiObjectType
  | .diObject _ => diObjectType

theorem diObjectType_ne : diObjectType ≠ aiObjectType := by
  decide

/-- The type that is inserted is read back, and hides none of the other fields. -/
theorem lookup_insertType {kind : String} {o : List (String × Value)} :
    ∃ o', insertType kind (.object o) = some (.object o') ∧
      o'.lookup "@type" = some (.string kind) ∧
      ∀ key, key ≠ "@type" → o'.lookup key = o.lookup key :=
  ⟨_, rfl, lookup_insertField_self _ _ _, fun _ hkey => lookup_insertField_of_ne hkey _ _⟩

/-- What `toJSON` writes is an object with the type of its constructor. -/
theorem toJSON_type [ToJSON F] (d : DataObject F) :
    ∃ o, d.toJSON = some (.object o) ∧ o.lookup "@type" = some (.string d.type) := by
  cases d with
  | aiObject ai =>
      rcases lookup_insertType with ⟨o, ho, htype, -⟩
      exact ⟨o, ho, htype⟩
  | diObject di =>
      rcases lookup_insertType with ⟨o, ho, htype, -⟩
      exact ⟨o, ho, htype⟩

/-- The type of an object decides which record it is read as. -/
theorem parseJSON_of_type [FromJSON F] {o : List (String × Value)} {kind : String}
    (hkind : o.lookup "@type" = some (.string kind)) :
    (parseJSON (.object o) : Parser (DataObject F)) =
      if kind = aiObjectType then DataObject.aiObject <$> (parseJSON (.object o) : Parser (AI F))
      else if kind = diObjectType then DataObject.diObject <$> (parseJSON (.object o) : Parser DI)
      else .error ("unknown kind: " ++ kind) := by
  have hfield : field o "@type" = (.ok kind : Parser String) := field_of_lookup hkind
  simp only [parseJSON, withObject, hfield]
  rfl

/-- An object is read as the constructor that its type names, whatever its other fields are. -/
theorem type_of_parseJSON [FromJSON F] {o : List (String × Value)} {d : DataObject F}
    (h : (parseJSON (.object o) : Parser (DataObject F)) = .ok d) :
    o.lookup "@type" = some (.string d.type) := by
  cases hfield : (field o "@type" : Parser String) with
  | error e =>
      simp only [parseJSON, withObject, hfield] at h
      cases h
  | ok kind =>
      have hkind := lookup_of_field_eq hfield
      rw [parseJSON_of_type hkind] at h
      split_ifs at h with hai hdi
      · cases hrec : (parseJSON (.object o) : Parser (AI F)) with
        | error e =>
            rw [hrec] at h
            cases h
        | ok ai =>
            rw [hrec] at h
            cases h
            rw [hkind, hai]
            rfl
      · cases hrec : (parseJSON (.object o) : Parser DI) with
        | error e =>
            rw [hrec] at h
            cases h
        | ok di =>
            rw [hrec] at h
            cases h
            rw [hkind, hdi]
            rfl

/-! ## The round trip -/

/-- The numbers in `finite` are written as JSON numbers, and read back as they were. -/
def NumbersReadBack [FromJSON F] [ToJSON F] (finite : F → Prop) : Prop :=
  ∀ x, finite x → (∃ c e, toJSON x = .number c e) ∧ (parseJSON (toJSON x) : Parser F) = .ok x

/-- An analog value is absent or finite. -/
def DataObject.HasFiniteValue (finite : F → Prop) : DataObject F → Prop
  | .aiObject ai => ∀ x, ai.value = some x → finite x
  | .diObject _ => True

section RoundTrip

variable [FromJSON F] [ToJSON F] {finite : F → Prop}

theorem optField_value_ai (hF : NumbersReadBack finite) {ai : AI F}
    (hvalue : ∀ x, ai.value = some x → finite x) {o : List (String × Value)}
    (ho : o.lookup "value" =
      (fromFields (("id", toJSON ai.id) :: omitNothing "value" ai.value)).lookup "value") :
    optField o "value" = (.ok ai.value : Parser (Option F)) := by
  rw [lookup_fromFields] at ho
  cases hv : ai.value with
  | none =>
      rw [hv] at ho
      exact optField_of_absent ho
  | some x =>
      rcases hF x (hvalue x hv) with ⟨⟨c, e, hnumber⟩, hback⟩
      have hlookup : o.lookup "value" = some (toJSON x) := by
        rw [ho, hv]
        rfl
      rw [optField_of_lookup hlookup]
      exact parseJSON_some (by rw [hnumber]; exact Value.noConfusion) hback

theorem optField_value_di {di : DI} {o : List (String × Value)}
    (ho : o.lookup "value" =
      (fromFields [("id", toJSON di.id), ("value", toJSON di.value)]).lookup "value") :
    optField o "value" = (.ok di.value : Parser (Option Bool)) := by
  rw [lookup_fromFields] at ho
  have hlookup : o.lookup "value" = some (toJSON di.value) := ho
  rw [optField_of_lookup hlookup]
  cases di.value with
  | none =>
      rfl
  | some b =>
      rfl

theorem parseJSON_toJSON (hF : NumbersReadBack finite) {d : DataObject F}
    (hd : d.HasFiniteValue finite) :
    ∃ v, d.toJSON = some v ∧ (parseJSON v : Parser (DataObject F)) = .ok d := by
  cases d with
  | aiObject ai =>
      rcases lookup_insertType with ⟨o, ho, htype, hother⟩
      refine ⟨.object o, ho, ?_⟩
      have hid : o.lookup "id" = some (.string ai.id) := by
        rw [hother "id" (by decide), lookup_fromFields]
        cases ai.value <;> rfl
      have hvalue := optField_value_ai hF hd (hother "value" (by decide))
      rw [parseJSON_of_type htype, if_pos rfl, parseJSON_ai hid hvalue]
      rfl
  | diObject di =>
      rcases lookup_insertType with ⟨o, ho, htype, hother⟩
      refine ⟨.object o, ho, ?_⟩
      have hid : o.lookup "id" = some (.string di.id) := by
        rw [hother "id" (by decide), lookup_fromFields]
        rfl
      have hvalue := optField_value_di (hother "value" (by decide))
      rw [parseJSON_of_type htype, if_neg diObjectType_ne, if_pos rfl, parseJSON_di hid hvalue]
      rfl

/-- Every object with an absent or finite value is read back from its JSON, and whatever is read
as an object has the type that this object is written with. -/
theorem dataObject_round_trip (hF : NumbersReadBack finite) :
    (∀ d : DataObject F, d.HasFiniteValue finite →
        ∃ v, d.toJSON = some v ∧ (parseJSON v : Parser (DataObject F)) = .ok d) ∧
      (∀ (o : List (String × Value)) (d : DataObject F),
        (parseJSON (.object o) : Parser (DataObject F)) = .ok d →
          ∃ o', d.toJSON = some (.object o') ∧ o.lookup "@type" = o'.lookup "@type") ∧
      ∀ (ai : AI F) (di : DI) (o o' : List (String × Value)),
        (DataObject.aiObject ai).toJSON = some (.object o) →
          (DataObject.diObject di : DataObject F).toJSON = some (.object o') →
            o.lookup "@type" ≠ o'.lookup "@type" := by
  refine ⟨fun d => parseJSON_toJSON hF, ?_, ?_⟩
  · intro o d h
    rcases toJSON_type d with ⟨o', ho', htype⟩
    exact ⟨o', ho', by rw [type_of_parseJSON h, htype]⟩
  · intro ai di o o' ho ho' heq
    rcases toJSON_type (.aiObject ai) with ⟨p, hp, htype⟩
    rcases toJSON_type (.diObject di : DataObject F) with ⟨p', hp', htype'⟩
    rw [ho] at hp
    rw [ho'] at hp'
    cases hp
    cases hp'
    rw [htype, htype'] at heq
    injection heq with heq
    injection heq with heq
    exact diObjectType_ne heq.symm

end RoundTrip

/-! ### Numbers with a decimal point -/

structure Decimal where
  coefficient : Int
  exponent : Int
  deriving DecidableEq, Repr

instance : FromJSON Decimal where
  parseJSON
    | .number c e => .ok ⟨c, e⟩
    | v => typeMismatch "Float" v

instance : ToJSON Decimal where
  toJSON x := .number x.coefficient x.exponent

/-- The temperature of `Main.hs`, 36.8 degrees. -/
def cpuTemp : DataObject Decimal :=
  .aiObject { id := "CPU Temp", value := some ⟨368, -1⟩ }

theorem cpuTemp_round_trip :
    (∃ v, cpuTemp.toJSON = some v ∧ (parseJSON v : Parser (DataObject Decimal)) = .ok cpuTemp) ∧
      ∀ (o : List (String × Value)),
        (parseJSON (.object o) : Parser (DataObject Decimal)) = .ok cpuTemp →
          o.lookup "@type" = some (.string aiObjectType) := by
  have hF : NumbersReadBack (fun _ : Decimal => True) := by
    intro x _
    exact ⟨⟨x.coefficient, x.exponent, rfl⟩, rfl⟩
  rcases dataObject_round_trip hF with ⟨hback, htype, -⟩
  refine ⟨hback cpuTemp (fun _ _ => trivial), ?_⟩
  intro o h
  rcases htype o cpuTemp h with ⟨o', ho', heq⟩
  rw [heq]
  cases ho'
  rfl

end SensorJson
end Etude
