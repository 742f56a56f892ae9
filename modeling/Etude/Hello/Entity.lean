import Etude.Base.EventSourced

/-!
# Entity — the greeting entities of the Lagom services

The model of `HelloEntity.java` and `HelloscalaEntity.scala` with their commands, events and
states.  The two have the same handlers; the Scala event does not carry the entity id.
-/

namespace Etude
namespace Hello

open Base

inductive HelloCommand where
  | useGreetingMessage (message : String)
  | hello (name : String)
  deriving DecidableEq, Repr

inductive Reply where
  | done
  | greeting (text : String)
  deriving DecidableEq, Repr

/-- A reply as text; `Done` prints as its name. -/
def Reply.text : Reply → String
  | .done => "Done"
  | .greeting text => text

/-- `timestamp` is the text of a `LocalDateTime`. -/
structure HelloState where
  message : String
  timestamp : String
  deriving DecidableEq, Repr

/-- The entity whose event for a message is `changed`, with the message back by `messageOf`.
`now` is the text of `LocalDateTime.now()`. -/
def greetingEntity {ε : Type} (changed : String → ε) (messageOf : ε → String) :
    Entity HelloCommand ε HelloState Reply String where
  initialState now :=
    { message := "Hello"
      timestamp := now }
  handleCommand state cmd :=
    match cmd with
    | .useGreetingMessage message => (some (changed message), .done)
    | .hello name => (none, .greeting (state.message ++ ", " ++ name ++ "!"))
  handleEvent _ evt now :=
    { message := messageOf evt
      timestamp := now }

/-! ## The two entities -/

/-- The Java event `GreetingMessageChanged`. -/
structure GreetingMessageChanged where
  name : String
  message : String
  deriving DecidableEq, Repr

def helloEntity (entityId : String) :
    Entity HelloCommand GreetingMessageChanged HelloState Reply String :=
  greetingEntity (fun message => { name := entityId, message := message })
    GreetingMessageChanged.message

/-- The Scala event of the same name. -/
structure ScalaGreetingMessageChanged where
  message : String
  deriving DecidableEq, Repr

def helloscalaEntity :
    Entity HelloCommand ScalaGreetingMessageChanged HelloState Reply String :=
  greetingEntity (fun newMessage => { message := newMessage }) ScalaGreetingMessageChanged.message

/-! ## What a run leaves in the journal -/

/-- The messages that a sequence of commands sets, in order. -/
def messages (cmds : List HelloCommand) : List String :=
  cmds.filterMap fun
    | .useGreetingMessage message => some message
    | .hello _ => none

section Entity

variable {ε : Type} {changed : String → ε} {messageOf : ε → String} {clock : ℕ → String}

theorem journal_foldl_process (cmds : List HelloCommand) (l : Live ε HelloState) :
    (cmds.foldl ((greetingEntity changed messageOf).process clock) l).journal =
      l.journal ++ (messages cmds).map changed := by
  induction cmds generalizing l with
  | nil =>
      simp [messages]
  | cons cmd cmds ih =>
      rw [List.foldl_cons, ih]
      -- A greeting that is set persists its event; a greeting asked for persists none.
      cases cmd with
      | useGreetingMessage message =>
          simp [Entity.process, greetingEntity, messages]
      | hello name =>
          simp [Entity.process, greetingEntity, messages]

theorem journal_live (cmds : List HelloCommand) :
    ((greetingEntity changed messageOf).live clock cmds).journal =
      (messages cmds).map changed :=
  journal_foldl_process cmds _

/-- The message of a state after some events is that of the last of them. -/
theorem replay_message (n : ℕ) (s : HelloState) (es : List ε) :
    ((greetingEntity changed messageOf).replay clock n s es).message =
      es.foldl (fun _ e => messageOf e) s.message :=
  (greetingEntity changed messageOf).replay_proj clock (fun _ _ _ => rfl) n s es

/-- The timestamp is the reading of the last handler that ran. -/
theorem replay_timestamp (n : ℕ) (s : HelloState) (es : List ε) :
    ((greetingEntity changed messageOf).replay clock (n + 1) s es).timestamp =
      if es = [] then s.timestamp else clock (n + es.length) := by
  induction es generalizing n s with
  | nil =>
      rfl
  | cons e es ih =>
      rw [Entity.replay, ih, if_neg (List.cons_ne_nil e es), List.length_cons]
      -- The last handler is this one or, if there are more events, the last of theirs.
      by_cases hes : es = []
      · subst hes
        rfl
      · rw [if_neg hes]
        congr 1
        omega

theorem live_timestamp (cmds : List HelloCommand) :
    ((greetingEntity changed messageOf).live clock cmds).state.timestamp =
      clock (messages cmds).length := by
  rw [Entity.live_state, journal_live, replay_timestamp, List.length_map, Nat.zero_add]
  by_cases hnil : (messages cmds).map changed = []
  · rw [if_pos hnil, List.map_eq_nil_iff.mp hnil]
    rfl
  · rw [if_neg hnil]

end Entity

end Hello
end Etude
