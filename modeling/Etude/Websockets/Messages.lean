import Etude.Base.Json

/-!
# Messages — greeting events and the client that prints them

The model of `Messages.hs`, which the two clients `greetings` and `sensor-data` share word for
word, and of the receive loops of their `Main.hs`.
-/

namespace Etude
namespace Websockets

open Base

/-! ## The messages -/

inductive GreetingEvent where
  | greetingEvent1 («to» message : String)
  | greetingEvent2 (to1 message : String)
  deriving DecidableEq, Repr

structure EventEnvelope where
  offset : Option String
  persistenceId : Option String
  sequenceNr : Option String
  event : Option GreetingEvent
  deriving DecidableEq, Repr

def sayHelloEvent : String :=
  "type.googleapis.com/com.example.leveldb.SayHelloEvent"

def sayHelloEvent1 : String :=
  "type.googleapis.com/com.example.leveldb.SayHelloEvent1"

instance : FromJSON GreetingEvent where
  parseJSON := withObject "greeting or event" fun o => do
    let kind : String ← field o "@type"
    if kind = sayHelloEvent then
      return .greetingEvent1 (← field o "to") (← field o "message")
    else if kind = sayHelloEvent1 then
      -- Read from `to1`, which `toJSON` never writes.
      return .greetingEvent2 (← field o "to1") (← field o "message")
    else
      throw ("unknown kind: " ++ kind)

/-- The fields that `toJSON` writes.  Both constructors name the addressee `to`. -/
def fieldsOf : GreetingEvent → List (String × Value)
  | .greetingEvent1 «to» message =>
      fromFields
        [("@type", .string sayHelloEvent), ("to", toJSON «to»), ("message", toJSON message)]
  | .greetingEvent2 «to» message =>
      fromFields
        [("@type", .string sayHelloEvent1), ("to", toJSON «to»), ("message", toJSON message)]

instance : ToJSON GreetingEvent where
  toJSON e := .object (fieldsOf e)

instance : FromJSON EventEnvelope where
  parseJSON := withObject "EventEnvelope" fun o => do
    return {
      offset := ← optField o "offset"
      persistenceId := ← optField o "persistenceId"
      sequenceNr := ← optField o "sequenceNr"
      event := ← optField o "event" }

/-! ## The receive loop -/

/-- `Data.ByteString.Lazy.Char8.pack`, which keeps the low eight bits of a character. -/
def pack (s : String) : List UInt8 :=
  s.toList.map fun c => UInt8.ofNat c.toNat

/-- One pass of `loop`, as the line it prints for the message it received.  `render` is what a
client shows of an event that it could read back. -/
def loopLine (text : JsonText) (render : GreetingEvent → List UInt8) (msg : List UInt8) :
    List UInt8 :=
  match text.decode EventEnvelope msg with
  | some d =>
      let e := d.event
      -- The event is written as JSON again and read back from that.
      let s := text.encode e
      match text.decode GreetingEvent s with
      | some a => render a
      | none => pack "Unparsable event: " ++ s
  | none => pack "Unparsable."

namespace Greetings

/-- The loop of `greetings`, which prints the event as JSON again. -/
def app (text : JsonText) : List UInt8 → List UInt8 :=
  loopLine text fun a => text.encode (some a)

end Greetings

namespace SensorData

/-- The loop of `sensor-data`, which prints the addressee. -/
def app (text : JsonText) : List UInt8 → List UInt8 :=
  loopLine text fun a =>
    match a with
    | .greetingEvent1 «to» _ => pack «to»
    | .greetingEvent2 to1 _ => pack to1

end SensorData

end Websockets
end Etude
