import Etude.Base.MultiSz
import Etude.Base.Traverse

/-!
# EnumObjects — the lists of performance objects, counters and instances

The functions of `perfctrs-enum-objects.c` and `perfctrs-enum-object-items.c`.  Both ask for the
sizes of their lists, allocate buffers of these sizes, have them filled, and walk them.  What the
system calls return is an argument; `none` is a read outside a buffer.
-/

namespace Etude
namespace Perfctrs

open Base Base.MultiSz

/-! ## The code -/

inductive PdhStatus
  | success
  | moreData
  | other (code : UInt32)
  deriving DecidableEq, Repr

/-- What the calls of `pdh_enum_object_items` return; the two lists are the buffers as the second
`PdhEnumObjectItems` leaves them. -/
structure ItemReplies where
  status : PdhStatus
  counterListSize : ℕ
  instanceListSize : ℕ
  /-- Whether `malloc` finds room for that many characters. -/
  malloc : ℕ → Bool
  secondStatus : PdhStatus
  counterList : List WChar
  instanceList : List WChar

/-- What is printed: the lines of the two lists, or a message. -/
inductive Items
  | listed (lines : List (List WChar))
  | secondFailed (status : PdhStatus)
  | unableToAllocate
  | failed (status : PdhStatus)
  deriving DecidableEq, Repr

/-- `L"%s\\%s\n"` -/
def counterLine (pObjectName pTemp : List WChar) : List WChar :=
  pObjectName ++ wide "\\" ++ pTemp ++ wide "\n"

/-- `L"%s\\%s(instance)\n"` -/
def instanceLine (pObjectName pTemp : List WChar) : List WChar :=
  pObjectName ++ wide "\\" ++ pTemp ++ wide "(instance)\n"

def pdhEnumObjectItems (pObjectName : List WChar) (r : ItemReplies) : Option Items :=
  if r.status = .moreData then
    if r.malloc r.counterListSize ∧ r.malloc r.instanceListSize then
      if r.secondStatus = .success then do
        -- Both walks start by looking at the first character.
        let counters ← walk r.counterList
        let instances ← walk r.instanceList
        some (.listed
          (counters.map (counterLine pObjectName) ++ instances.map (instanceLine pObjectName)))
      else some (.secondFailed r.secondStatus)
    else some .unableToAllocate
  else some (.failed r.status)

/-- What the calls of `pdh_enum_objects` return. -/
structure ObjectReplies where
  status : PdhStatus
  cchBufferSize : ℕ
  malloc : ℕ → Bool
  secondStatus : PdhStatus
  mszObjectNameList : List WChar

/-- What is printed: the objects, each with what the call for its items prints, or a message. -/
inductive Objects
  | listed (objects : List (List WChar × Items))
  | secondFailed (status : PdhStatus)
  | mallocFailed
  | nothing
  deriving DecidableEq, Repr

def pdhEnumObjects (r : ObjectReplies) (pEnumItemsFun : List WChar → Option Items) :
    Option Objects :=
  if r.status = .moreData then
    if r.malloc r.cchBufferSize then
      if r.secondStatus = .success then do
        let names ← walk r.mszObjectNameList
        let objects ← names.mapM fun pObjectName => do
          let items ← pEnumItemsFun pObjectName
          some (pObjectName, items)
        some (.listed objects)
      else some (.secondFailed r.secondStatus)
    else some .mallocFailed
  else some .nothing

/-! ## Objects and what is reported of them -/

/-- A performance object; one without variable instances has no list of them. -/
structure PerfObject where
  name : Name WChar
  counters : List (Name WChar)
  instances : Option (List (Name WChar))

/-- The characters reported for a list: two zeros for an empty one, none if there is no list. -/
def reportedList : Option (List (Name WChar)) → List WChar
  | none => []
  | some [] => [0, 0]
  | some (name :: names) => multiSz (name :: names)

/-- The calls succeed and return the lists of the object, as long as they say; there is room for
every buffer that is not empty. -/
structure Reports (obj : PerfObject) (r : ItemReplies) : Prop where
  moreData : r.status = .moreData
  counterListSize : r.counterListSize = (reportedList (some obj.counters)).length
  instanceListSize : r.instanceListSize = (reportedList obj.instances).length
  malloc : ∀ n, 0 < n → r.malloc n = true
  success : r.secondStatus = .success
  counterList : r.counterList = reportedList (some obj.counters)
  instanceList : r.instanceList = reportedList obj.instances

/-- Every counter and every instance, once and in order. -/
def PerfObject.lines (obj : PerfObject) : List (List WChar) :=
  obj.counters.map (fun name => counterLine obj.name.chars name.chars) ++
    (obj.instances.getD []).map fun name => instanceLine obj.name.chars name.chars

/-! ## The walks -/

theorem length_reportedList_pos (names : List (Name WChar)) :
    0 < (reportedList (some names)).length := by
  cases names with
  | nil =>
      decide
  | cons name names =>
      rw [reportedList, multiSz_cons, List.length_append, List.length_cons]
      omega

theorem walk_reportedList (names : List (Name WChar)) :
    walk (reportedList (some names)) = some (names.map Name.chars) := by
  cases names with
  | nil =>
      exact walk_zero [0]
  | cons name names =>
      have hwalk := walk_multiSz (name :: names) []
      rwa [List.append_nil] at hwalk

section Items

variable {obj : PerfObject} {r : ItemReplies}

theorem Reports.malloc_counters (h : Reports obj r) : r.malloc r.counterListSize = true := by
  rw [h.counterListSize]
  exact h.malloc _ (length_reportedList_pos _)

theorem Reports.walk_counters (h : Reports obj r) :
    walk r.counterList = some (obj.counters.map Name.chars) := by
  rw [h.counterList, walk_reportedList]

theorem Reports.listed (h : Reports obj r) {names : List (Name WChar)}
    (hinstances : obj.instances = some names) :
    pdhEnumObjectItems obj.name.chars r = some (.listed obj.lines) := by
  have hmalloc : r.malloc r.instanceListSize = true := by
    rw [h.instanceListSize, hinstances]
    exact h.malloc _ (length_reportedList_pos _)
  have hwalk : walk r.instanceList = some (names.map Name.chars) := by
    rw [h.instanceList, hinstances, walk_reportedList]
  simp [pdhEnumObjectItems, h.moreData, h.success, h.malloc_counters, hmalloc, h.walk_counters,
    hwalk, PerfObject.lines, hinstances, Function.comp_def]

/-- Without a list of instances the second walk starts with a read of a buffer without
characters. -/
theorem Reports.fault (h : Reports obj r) (hinstances : obj.instances = none)
    (hmalloc : r.malloc r.instanceListSize = true) :
    pdhEnumObjectItems obj.name.chars r = none := by
  have hwalk : walk r.instanceList = none := by
    rw [h.instanceList, hinstances]
    exact walk_nil
  simp [pdhEnumObjectItems, h.moreData, h.success, h.malloc_counters, hmalloc, h.walk_counters,
    hwalk]

/-- The system may also refuse to allocate such a buffer. -/
theorem Reports.not_listed (h : Reports obj r) (hinstances : obj.instances = none)
    (lines : List (List WChar)) :
    pdhEnumObjectItems obj.name.chars r ≠ some (.listed lines) := by
  by_cases hmalloc : r.malloc r.instanceListSize = true
  · rw [h.fault hinstances hmalloc]
    simp
  · simp [pdhEnumObjectItems, h.moreData, h.malloc_counters, hmalloc]

/-- The two walks visit every name once, in order, inside the buffers exactly if the object has a
list of instances, be it empty. -/
theorem pdhEnumObjectItems_listed_iff (h : Reports obj r) :
    pdhEnumObjectItems obj.name.chars r = some (.listed obj.lines) ↔ obj.instances ≠ none := by
  cases hinstances : obj.instances with
  | none =>
      simp [h.not_listed hinstances]
  | some names =>
      simp [h.listed hinstances]

end Items

/-! ## All objects -/

/-- The calls of `pdh_enum_objects` succeed and return the names of the objects. -/
structure ReportsObjects (objs : List PerfObject) (r : ObjectReplies) : Prop where
  moreData : r.status = .moreData
  malloc : r.malloc r.cchBufferSize = true
  success : r.secondStatus = .success
  mszObjectNameList : r.mszObjectNameList = reportedList (some (objs.map PerfObject.name))

/-- All objects are listed with all their items exactly if each has a list of instances. -/
theorem pdhEnumObjects_listed_iff {objs : List PerfObject} {r : ObjectReplies}
    (h : ReportsObjects objs r) {replies : List WChar → ItemReplies}
    (hitems : ∀ obj ∈ objs, Reports obj (replies obj.name.chars)) :
    pdhEnumObjects r (fun name => pdhEnumObjectItems name (replies name)) =
        some (.listed (objs.map fun obj => (obj.name.chars, .listed obj.lines))) ↔
      ∀ obj ∈ objs, obj.instances ≠ none := by
  have hwalk : walk r.mszObjectNameList = some (objs.map fun obj => obj.name.chars) := by
    rw [h.mszObjectNameList, walk_reportedList, List.map_map]
    rfl
  have heach : (∀ obj ∈ objs, obj.instances ≠ none) ↔
      ∀ obj ∈ objs, (pdhEnumObjectItems obj.name.chars (replies obj.name.chars)).bind
        (fun items => some (obj.name.chars, items)) =
          some (obj.name.chars, .listed obj.lines) := by
    refine forall₂_congr fun obj hobj => ?_
    cases hinstances : obj.instances with
    | none =>
        have hnot := (hitems obj hobj).not_listed hinstances obj.lines
        cases hcall : pdhEnumObjectItems obj.name.chars (replies obj.name.chars) with
        | none => simp
        | some items => simpa [hcall] using hnot
    | some names =>
        simp [(hitems obj hobj).listed hinstances]
  rw [heach, ← mapM_map_eq_some_iff
    (f := fun name =>
      (pdhEnumObjectItems name (replies name)).bind fun items => some (name, items))]
  simp only [pdhEnumObjects, h.moreData, h.malloc, h.success, hwalk, if_true,
    Option.bind_eq_bind, Option.bind_some]
  cases (objs.map fun obj => obj.name.chars).mapM fun name =>
      (pdhEnumObjectItems name (replies name)).bind fun items => some (name, items) with
  | none => simp
  | some objects => simp

/-! ### Two objects -/

/-- A reply that reports the lists of an object. -/
def repliesOf (obj : PerfObject) : ItemReplies :=
  { status := .moreData
    counterListSize := (reportedList (some obj.counters)).length
    instanceListSize := (reportedList obj.instances).length
    malloc := fun _ => true
    secondStatus := .success
    counterList := reportedList (some obj.counters)
    instanceList := reportedList obj.instances }

theorem repliesOf_reports (obj : PerfObject) : Reports obj (repliesOf obj) :=
  { moreData := rfl
    counterListSize := rfl
    instanceListSize := rfl
    malloc := fun _ _ => rfl
    success := rfl
    counterList := rfl
    instanceList := rfl }

/-- An object with one instance. -/
def processor : PerfObject :=
  { name := ⟨wide "Processor", by decide, by decide⟩
    counters := [⟨wide "% Idle Time", by decide, by decide⟩]
    instances := some [⟨wide "_Total", by decide, by decide⟩] }

/-- An object without variable instances. -/
def memory : PerfObject :=
  { name := ⟨wide "Memory", by decide, by decide⟩
    counters := [⟨wide "Available Bytes", by decide, by decide⟩]
    instances := none }

theorem pdhEnumObjectItems_processor :
    pdhEnumObjectItems processor.name.chars (repliesOf processor) =
      some (.listed [wide "Processor\\% Idle Time\n", wide "Processor\\_Total(instance)\n"]) := by
  have hlisted := (pdhEnumObjectItems_listed_iff (repliesOf_reports processor)).mpr (by decide)
  rw [hlisted]
  decide

/-- Its counters are printed, and then the read of the list of instances faults. -/
theorem pdhEnumObjectItems_memory :
    Reports memory (repliesOf memory) ∧
      pdhEnumObjectItems memory.name.chars (repliesOf memory) = none :=
  ⟨repliesOf_reports memory, (repliesOf_reports memory).fault rfl rfl⟩

end Perfctrs
end Etude
