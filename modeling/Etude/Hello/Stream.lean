import Etude.Base.Run
import Etude.Base.Topic
import Etude.Hello.Entity

/-!
# Stream — the greeting streams and their read side

The model of `HelloServiceImpl.java`, which publishes the events of the entities, and of the
service behind it: `StreamSubscriber.java`, `StreamRepository.java` and `StreamServiceImpl.java`.
Commands, deliveries to the subscriber and its rewinds come in any order.
-/

namespace Etude
namespace Hello

open Base

/-! ## The read side -/

/-- The published event. -/
inductive HelloEvent where
  | greetingMessageChanged (name message : String)
  deriving DecidableEq, Repr

namespace HelloEvent

def getName : HelloEvent → String
  | .greetingMessageChanged name _ => name

def getMessage : HelloEvent → String
  | .greetingMessageChanged _ message => message

end HelloEvent

/-- The table `greeting_message (name text PRIMARY KEY, message text)`. -/
abbrev StreamRepository := String → Option String

namespace StreamRepository

def updateMessage (table : StreamRepository) (name message : String) : StreamRepository :=
  Function.update table name (some message)

def getMessage (table : StreamRepository) (name : String) : Option String :=
  table name

end StreamRepository

/-- What `StreamSubscriber` does with an event. -/
def subscriber (repository : StreamRepository) : HelloEvent → StreamRepository
  | .greetingMessageChanged name message => repository.updateMessage name message

/-! ## The services -/

/-- The entities by id, the topic `hello-events` and the subscriber's table. -/
structure Services (π : Type) where
  entities : String → Live GreetingMessageChanged HelloState
  helloEvents : Topic HelloEvent π StreamRepository

/-- The event that `helloEvents` publishes for a persisted one. -/
def eventToPublish (evt : GreetingMessageChanged) : HelloEvent :=
  .greetingMessageChanged evt.name evt.message

inductive Action (π : Type) where
  | useGreeting (name message : String)
  | deliver (p : π)
  | rewind (p : π) (offset : ℕ)
  /-- The entity is loaded anew from its journal, with other clock readings. -/
  | reload (name : String) (clock : ℕ → String)

namespace Services

variable {π : Type}

def init (clock : String → ℕ → String) : Services π :=
  { entities := fun name => (helloEntity name).start (clock name)
    helloEvents := Topic.empty fun _ => none }

/-- Ask the entity `id` the `Hello` command. -/
def hello (s : Services π) (id : String) : String :=
  ((helloEntity id).handleCommand (s.entities id).state (.hello id)).2.text

def directStream (s : Services π) (names : List String) : List String :=
  names.map s.hello

def autonomousStream (s : Services π) (names : List String) : List String :=
  names.map fun name => (s.helloEvents.sink.getMessage name).getD "Hello" ++ ", " ++ name ++ "!"

variable [DecidableEq π] (partition : String → π) (clock : String → ℕ → String)

/-- Tell the entity to use the message; the event that it persists goes to the partition of its
name. -/
def useGreeting (s : Services π) (name message : String) : Services π :=
  let ref := s.entities name
  let entities := Function.update s.entities name
    ((helloEntity name).process (clock name) ref (.useGreetingMessage message))
  match ((helloEntity name).handleCommand ref.state (.useGreetingMessage message)).1 with
  | none => { s with entities := entities }
  | some evt =>
      { entities := entities
        helloEvents :=
          s.helloEvents.publish (partition (eventToPublish evt).getName) (eventToPublish evt) }

def step (s : Services π) : Action π → Option (Services π)
  | .useGreeting name message => some (s.useGreeting partition clock name message)
  | .deliver p =>
      (s.helloEvents.deliver subscriber p).map fun topic => { s with helloEvents := topic }
  -- Delivery is at least once: committed offsets may be behind what was handled.
  | .rewind p offset =>
      (s.helloEvents.rewind p offset).map fun topic => { s with helloEvents := topic }
  | .reload name clock' =>
      let journal := (s.entities name).journal
      some { s with
        entities := Function.update s.entities name
          { state := (helloEntity name).recover clock' none journal
            journal := journal } }

end Services

/-! ## What holds in every run -/

theorem subscriber_upserts :
    Topic.Upserts subscriber HelloEvent.getName HelloEvent.getMessage
      StreamRepository.getMessage := by
  rintro table ⟨name, message⟩ k
  by_cases h : name = k
  · subst h
    simp [subscriber, StreamRepository.updateMessage, StreamRepository.getMessage,
      HelloEvent.getName, HelloEvent.getMessage]
  · simp [subscriber, StreamRepository.updateMessage, StreamRepository.getMessage,
      HelloEvent.getName, h, Function.update_of_ne (Ne.symm h)]

section Runs

variable {π : Type} {partition : String → π} {clock : String → ℕ → String}

/-- The message that the log of the topic gives a name. -/
def loggedMessage (partition : String → π) (s : Services π) (name : String) : String :=
  (Topic.latest HelloEvent.getName HelloEvent.getMessage name
    (s.helloEvents.log (partition name))).getD "Hello"

/-- Every entity has the message of the last event in its journal, which is the last one about
it in the log, and the subscriber's table lies behind the log as the topic allows. -/
structure Agreeing (partition : String → π) (s : Services π) : Prop where
  journaled : ∀ name, (s.entities name).state.message =
    (s.entities name).journal.foldl (fun _ evt => evt.message) "Hello"
  logged : ∀ name, (s.entities name).state.message = loggedMessage partition s name
  topic : Topic.Inv partition HelloEvent.getName HelloEvent.getMessage
    StreamRepository.getMessage s.helloEvents

theorem Agreeing.init : Agreeing partition (Services.init clock) := by
  refine ⟨fun _ => rfl, fun _ => rfl, ?_⟩
  exact Topic.Inv.empty fun _ => rfl

variable [DecidableEq π]

theorem loggedMessage_useGreeting (s : Services π) (name message name' : String) :
    loggedMessage partition (s.useGreeting partition clock name message) name' =
      if name = name' then message else loggedMessage partition s name' := by
  have hlog : (s.useGreeting partition clock name message).helloEvents =
      s.helloEvents.publish (partition name) (.greetingMessageChanged name message) := rfl
  -- The event goes to one partition; the names of the others have the log they had.
  by_cases hp : partition name' = partition name
  · rw [loggedMessage, hlog, hp, Topic.publish_log_self, Topic.latest_append_singleton]
    by_cases hname : name = name'
    · simp [HelloEvent.getName, HelloEvent.getMessage, hname]
    · simp [HelloEvent.getName, hname, loggedMessage, hp]
  · have hname : name ≠ name' := fun h => hp (by rw [h])
    rw [loggedMessage, hlog, Topic.publish_log_of_ne _ hp, if_neg hname, loggedMessage]

theorem Agreeing.useGreeting {s : Services π} (h : Agreeing partition s) (name message : String) :
    Agreeing partition (s.useGreeting partition clock name message) := by
  have hentity : (s.useGreeting partition clock name message).entities =
      Function.update s.entities name
        ((helloEntity name).process (clock name) (s.entities name)
          (.useGreetingMessage message)) := rfl
  refine ⟨?_, ?_, h.topic.publish (.greetingMessageChanged name message)⟩
  · intro name'
    rw [hentity]
    by_cases hname : name' = name
    · subst hname
      simp [Entity.process, helloEntity, greetingEntity]
    · rw [Function.update_of_ne hname]
      exact h.journaled name'
  · intro name'
    rw [hentity, loggedMessage_useGreeting]
    by_cases hname : name' = name
    · subst hname
      simp [Entity.process, helloEntity, greetingEntity]
    · rw [Function.update_of_ne hname, if_neg (Ne.symm hname)]
      exact h.logged name'

/-- The message survives a reload, whatever the clock says. -/
theorem Agreeing.reload {s : Services π} (h : Agreeing partition s) (name : String)
    (clock' : ℕ → String) {t : Services π}
    (hstep : s.step partition clock (.reload name clock') = some t) : Agreeing partition t := by
  cases hstep
  have hmessage : ((helloEntity name).recover clock' none (s.entities name).journal).message =
      (s.entities name).state.message := by
    rw [h.journaled, Entity.recover]
    exact replay_message 1 _ _
  refine ⟨?_, ?_, h.topic⟩
  · intro name'
    by_cases hname : name' = name
    · subst hname
      simp only [Function.update_self]
      rw [hmessage, h.journaled]
    · simp only [Function.update_of_ne hname]
      exact h.journaled name'
  · intro name'
    by_cases hname : name' = name
    · subst hname
      simp only [Function.update_self]
      rw [hmessage]
      exact h.logged name'
    · simp only [Function.update_of_ne hname]
      exact h.logged name'

theorem Agreeing.step {s t : Services π} {a : Action π} (h : Agreeing partition s)
    (hstep : s.step partition clock a = some t) : Agreeing partition t := by
  cases a with
  | useGreeting name message =>
      cases hstep
      exact h.useGreeting name message
  | deliver p =>
      rcases Option.map_eq_some_iff.mp hstep with ⟨topic, htopic, rfl⟩
      rcases Topic.deliver_eq_some htopic with ⟨-, -, hlog, -, -⟩
      -- Entities and log are as before; only the table has moved.
      refine ⟨h.journaled, ?_, h.topic.deliver subscriber_upserts htopic⟩
      intro name
      rw [h.logged name, loggedMessage, loggedMessage, hlog]
  | rewind p offset =>
      rcases Option.map_eq_some_iff.mp hstep with ⟨topic, htopic, rfl⟩
      rcases Topic.rewind_eq_some htopic with ⟨-, hlog, -, -⟩
      refine ⟨h.journaled, ?_, h.topic.rewind htopic⟩
      intro name
      rw [h.logged name, loggedMessage, loggedMessage, hlog]
  | reload name clock' =>
      exact h.reload name clock' hstep

/-- After any commands, deliveries, rewinds and reloads, the two streams have the same lines for
all names whose events have been delivered to the end. -/
theorem streams_agree (partition : String → π) (clock : String → ℕ → String)
    (actions : List (Action π)) (t : Services π)
    (hrun : run (Services.step partition clock) (Services.init clock) actions = some t)
    (names : List String)
    (hend : ∀ name ∈ names, t.helloEvents.pos (partition name) =
      (t.helloEvents.log (partition name)).length) :
    t.autonomousStream names = t.directStream names := by
  have hagree : Agreeing partition t :=
    run_keeps (fun s a u h hstep => h.step hstep) Agreeing.init hrun
  rw [Services.autonomousStream, Services.directStream]
  apply List.map_congr_left
  intro name hname
  -- At the end of the partition the table has the message that was logged last.
  have htable : t.helloEvents.sink.getMessage name =
      Topic.latest HelloEvent.getName HelloEvent.getMessage name
        (t.helloEvents.log (partition name)) :=
    hagree.topic.look_of_caughtUp (hend name hname)
  have hmessage := hagree.logged name
  rw [loggedMessage, ← htable] at hmessage
  rw [← hmessage]
  rfl

end Runs

/-- Two greetings for one name, delivered, and delivered again from the start. -/
def twoGreetings : List (Action Unit) :=
  [.useGreeting "Alice" "Hi", .deliver (), .useGreeting "Alice" "Welcome", .deliver (),
    .rewind () 0, .deliver (), .deliver ()]

theorem streams_agree_twoGreetings :
    ∃ t, run (Services.step (fun _ => ()) fun _ _ => "") (Services.init fun _ _ => "")
        twoGreetings = some t ∧
      t.autonomousStream ["Alice", "Bob"] = t.directStream ["Alice", "Bob"] := by
  -- The run succeeds with both events of the log delivered.
  have hends : (run (Services.step (fun _ => ()) fun _ _ => "") (Services.init fun _ _ => "")
      twoGreetings).map (fun t => (t.helloEvents.pos (), (t.helloEvents.log ()).length)) =
        some (2, 2) := by
    decide
  rcases Option.map_eq_some_iff.mp hends with ⟨t, hrun, hpos⟩
  refine ⟨t, hrun, streams_agree _ _ twoGreetings t hrun _ ?_⟩
  intro name _
  rw [(Prod.mk.inj hpos).1, (Prod.mk.inj hpos).2]

end Hello
end Etude
