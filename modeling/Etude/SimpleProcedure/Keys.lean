import Mathlib.Data.List.Basic
import Mathlib.Data.List.Induction

/-!
# Keys — ids from a counter of calls

The stored procedures of `SimpleProcedure.java` count their calls and take the count for an id that
is left out.  Ids that are given are not looked at, so the count may meet one of them.
-/

namespace Etude
namespace SimpleProcedure

/-! ## The table -/

/-- A row of `sampletable`. -/
structure Row where
  id : Int32
  name : Option String
  email : Option String
  deriving DecidableEq, Repr

inductive SqlException
  /-- Another row has the id. -/
  | uniqueConstraint
  | valueTooLarge
  deriving DecidableEq, Repr

/-- What a session sees: the counter of its own class and the table. -/
structure Session where
  count : Int32
  table : List Row
  deriving DecidableEq, Repr

abbrev Returns :=
  Except SqlException Unit

def Session.start : Session where
  count := 0
  table := []

def Session.ids (s : Session) : List Int32 :=
  s.table.map Row.id

section Calls

-- the texts that a column of fifty takes, which the encoding of the database decides
variable (fits : Option String → Bool)

/-- `INSERT INTO sampletable VALUES (?,?,?)` -/
def executeInsert (s : Session) (row : Row) : Session × Returns :=
  if !(fits row.name && fits row.email) then (s, .error .valueTooLarge)
  else if row.id ∈ s.ids then (s, .error .uniqueConstraint)
  else ({ s with table := s.table ++ [row] }, .ok ())

/-- `UPDATE sampletable SET name = ?, email = ? WHERE id = ?` -/
def executeUpdate (s : Session) (name email : Option String) (id : Int32) : Session × Returns :=
  if id ∈ s.ids && !(fits name && fits email) then (s, .error .valueTooLarge)
  else
    ({ s with
        table := s.table.map fun row =>
          if row.id = id then { row with name := name, email := email } else row }, .ok ())

def insertIntoTable (s : Session) (id : Int32) (name email : Option String) : Session × Returns :=
  let s := { s with count := s.count + 1 }
  executeInsert fits s
    { id := if id = 0 then s.count else id
      name := name
      email := email }

def updateFromTable (s : Session) (id : Int32) (name email : Option String) : Session × Returns :=
  let s := { s with count := s.count + 1 }
  executeUpdate fits s name email id

inductive Call
  | insert (id : Int32) (name email : Option String)
  | update (id : Int32) (name email : Option String)
  deriving DecidableEq, Repr

def call (s : Session) : Call → Session × Returns
  | .insert id name email => insertIntoTable fits s id name email
  | .update id name email => updateFromTable fits s id name email

/-- A session after a sequence of calls, whether or not they fail. -/
def after (calls : List Call) : Session :=
  calls.foldl (fun s c => (call fits s c).1) Session.start

end Calls

section Keys

variable {fits : Option String → Bool}

/-! ## One call -/

theorem ids_executeInsert (s : Session) (row : Row) (k : Int32) :
    k ∈ (executeInsert fits s row).1.ids ↔
      k ∈ s.ids ∨ (fits row.name = true ∧ fits row.email = true) ∧ row.id = k := by
  rw [executeInsert]
  split_ifs with hlarge hmem
  · rw [Bool.not_eq_true', Bool.and_eq_false_iff] at hlarge
    refine (or_iff_left ?_).symm
    rintro ⟨⟨hname, hemail⟩, -⟩
    rw [hname, hemail] at hlarge
    simp at hlarge
  · -- the id is in the table already
    refine (or_iff_left_of_imp ?_).symm
    rintro ⟨-, rfl⟩
    exact hmem
  · have hfits : fits row.name = true ∧ fits row.email = true := by
      rwa [Bool.not_eq_true', Bool.not_eq_false, Bool.and_eq_true] at hlarge
    rw [Session.ids, List.map_append, List.mem_append, List.map_singleton, List.mem_singleton,
      ← Session.ids, and_iff_right hfits, eq_comm]

theorem ids_executeUpdate (s : Session) (name email : Option String) (id : Int32) :
    (executeUpdate fits s name email id).1.ids = s.ids := by
  rw [executeUpdate]
  split_ifs
  · rfl
  · rw [Session.ids, List.map_map, Session.ids]
    refine List.map_congr_left fun row _ => ?_
    rw [Function.comp_apply]
    split_ifs <;> rfl

theorem count_call (s : Session) (c : Call) : (call fits s c).1.count = s.count + 1 := by
  cases c with
  | insert id name email =>
      rw [call, insertIntoTable, executeInsert]
      split_ifs <;> rfl
  | update id name email =>
      rw [call, updateFromTable, executeUpdate]
      split_ifs <;> rfl

/-! ## All calls -/

theorem after_concat (calls : List Call) (c : Call) :
    after fits (calls ++ [c]) = (call fits (after fits calls) c).1 := by
  rw [after, List.foldl_append]
  rfl

theorem count_after (calls : List Call) :
    (after fits calls).count = Int32.ofNat calls.length := by
  induction calls using List.reverseRecOn with
  | nil =>
      rfl
  | append_singleton calls c ih =>
      rw [after_concat, count_call, ih, List.length_append, Int32.ofNat_add]
      rfl

/-- The id that the call `q` inserts. -/
def keyAt (q : ℕ) (id : Int32) : Int32 :=
  if id = 0 then Int32.ofNat (q + 1) else id

/-- The call `q` inserts the id `k`, unless it is there. -/
def Inserts (fits : Option String → Bool) (calls : List Call) (q : ℕ) (k : Int32) : Prop :=
  ∃ id name email, calls[q]? = some (.insert id name email) ∧
    (fits name = true ∧ fits email = true) ∧ keyAt q id = k

theorem inserts_concat (calls : List Call) (c : Call) (k : Int32) :
    (∃ q, Inserts fits (calls ++ [c]) q k) ↔
      (∃ q, Inserts fits calls q k) ∨
        ∃ id name email, c = .insert id name email ∧ (fits name = true ∧ fits email = true) ∧
          keyAt calls.length id = k := by
  constructor
  · rintro ⟨q, id, name, email, hq, hfits, hkey⟩
    rcases Nat.lt_trichotomy q calls.length with hlt | rfl | hgt
    · rw [List.getElem?_append_left hlt] at hq
      exact Or.inl ⟨q, id, name, email, hq, hfits, hkey⟩
    · rw [List.getElem?_concat_length] at hq
      exact Or.inr ⟨id, name, email, Option.some.inj hq, hfits, hkey⟩
    · rw [List.getElem?_eq_none (by rw [List.length_append]; exact hgt)] at hq
      cases hq
  · rintro (⟨q, id, name, email, hq, hfits, hkey⟩ | ⟨id, name, email, rfl, hfits, hkey⟩)
    · have hlt : q < calls.length := (List.getElem?_eq_some_iff.mp hq).1
      exact ⟨q, id, name, email, by rw [List.getElem?_append_left hlt, hq], hfits, hkey⟩
    · exact ⟨calls.length, id, name, email, List.getElem?_concat_length, hfits, hkey⟩

/-- The ids of the table are those of the inserts, failed ones included if their texts fit. -/
theorem mem_ids_after (calls : List Call) (k : Int32) :
    k ∈ (after fits calls).ids ↔ ∃ q, Inserts fits calls q k := by
  induction calls using List.reverseRecOn with
  | nil =>
      refine iff_of_false List.not_mem_nil ?_
      rintro ⟨q, id, name, email, hq, -⟩
      cases hq
  | append_singleton calls c ih =>
      rw [after_concat, inserts_concat, ← ih]
      cases c with
      | insert id name email =>
          have hkey : (if id = 0 then (after fits calls).count + 1 else id) =
              keyAt calls.length id := by
            rw [count_after, keyAt, Int32.ofNat_add]
            rfl
          rw [call, insertIntoTable, ids_executeInsert]
          simp only [hkey]
          refine or_congr Iff.rfl ⟨fun h => ⟨id, name, email, rfl, h⟩, ?_⟩
          rintro ⟨id', name', email', heq, h⟩
          cases heq
          exact h
      | update id name email =>
          rw [call, updateFromTable, ids_executeUpdate]
          refine (or_iff_left ?_).symm
          rintro ⟨id', name', email', heq, -⟩
          cases heq

/-! ## Generated ids -/

/-- At every insert without an id the generated one is new, and is not rejected as the id of
another row. -/
def NeverCollides (fits : Option String → Bool) (calls : List Call) : Prop :=
  ∀ before name email rest, calls = before ++ .insert 0 name email :: rest →
    (after fits before).count + 1 ∉ (after fits before).ids ∧
      (insertIntoTable fits (after fits before) 0 name email).2 ≠ .error .uniqueConstraint

theorem insert_ne_uniqueConstraint {s : Session} {name email : Option String}
    (h : s.count + 1 ∉ s.ids) :
    (insertIntoTable fits s 0 name email).2 ≠ .error .uniqueConstraint := by
  rw [insertIntoTable, executeInsert, if_pos rfl]
  split_ifs with hlarge hmem
  · exact fun h => by cases h
  · exact absurd hmem h
  · exact fun h => by cases h

/-- Generated ids are new exactly if none of the calls that generate them comes at a place that an
earlier insert has for its id. -/
theorem neverCollides_iff (fits : Option String → Bool) (calls : List Call) :
    NeverCollides fits calls ↔
      ∀ p name email, calls[p]? = some (.insert 0 name email) →
        ∀ q id name' email', q < p → calls[q]? = some (.insert id name' email') →
          fits name' = true → fits email' = true →
            (if id = 0 then Int32.ofNat (q + 1) else id) ≠ Int32.ofNat (p + 1) := by
  have hkey : ∀ before : List Call, (after fits before).count + 1 =
      Int32.ofNat (before.length + 1) := by
    intro before
    rw [count_after, Int32.ofNat_add]
    rfl
  constructor
  · rintro h p name email hp q id name' email' hlt hq hname hemail heq
    rcases List.getElem?_eq_some_iff.mp hp with ⟨hplt, hpeq⟩
    have hsplit : calls = calls.take p ++ .insert 0 name email :: calls.drop (p + 1) := by
      rw [← hpeq, ← List.drop_eq_getElem_cons hplt, List.take_append_drop]
    have hlength : (calls.take p).length = p := List.length_take_of_le (Nat.le_of_lt hplt)
    have hnew := (h (calls.take p) name email _ hsplit).1
    rw [hkey, hlength, mem_ids_after] at hnew
    exact hnew
      ⟨q, id, name', email', by rw [List.getElem?_take_of_lt hlt, hq], ⟨hname, hemail⟩, heq⟩
  · rintro h before name email rest rfl
    have hp : (before ++ .insert 0 name email :: rest)[before.length]? =
        some (.insert 0 name email) := by
      rw [List.getElem?_append_right (Nat.le_refl _), Nat.sub_self]
      rfl
    have hnew : (after fits before).count + 1 ∉ (after fits before).ids := by
      rw [hkey, mem_ids_after]
      rintro ⟨q, id, name', email', hq, hfits, heq⟩
      have hlt : q < before.length := (List.getElem?_eq_some_iff.mp hq).1
      exact h before.length name email hp q id name' email' hlt
        (by rw [List.getElem?_append_left hlt, hq]) hfits.1 hfits.2 heq
    exact ⟨hnew, insert_ne_uniqueConstraint hnew⟩

/-- The id 2 is given and then generated by the second call. -/
theorem not_neverCollides :
    ¬ NeverCollides (fun _ => true) [.insert 2 (some "a") none, .insert 0 (some "b") none] := by
  intro h
  have hnew := (h [.insert 2 (some "a") none] (some "b") none [] rfl).1
  exact hnew (by decide)

end Keys

end SimpleProcedure
end Etude
