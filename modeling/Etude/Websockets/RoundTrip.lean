import Etude.Websockets.Messages

/-!
# RoundTrip — which greeting events survive `toJSON` and `parseJSON`

`toJSON` writes the addressee of either constructor under the key `to`, and `parseJSON` looks
for `to1` in the second one.  So the first constructor round trips, the second is refused for
want of its key, and the clients, which print an event only after reading their own encoding of
it back, print the second constructor as unparsable.
-/

namespace Etude
namespace Websockets

open Base

/-! ## The fields of an event -/

theorem lookup_kind_greetingEvent1 (name message : String) :
    (fieldsOf (.greetingEvent1 name message)).lookup "@type" = some (.string sayHelloEvent) := by
  simp only [fieldsOf, lookup_fromFields]
  rfl

theorem lookup_to_greetingEvent1 (name message : String) :
    (fieldsOf (.greetingEvent1 name message)).lookup "to" = some (.string name) := by
  simp only [fieldsOf, lookup_fromFields]
  rfl

theorem lookup_message_greetingEvent1 (name message : String) :
    (fieldsOf (.greetingEvent1 name message)).lookup "message" = some (.string message) := by
  simp only [fieldsOf, lookup_fromFields]
  rfl

theorem lookup_kind_greetingEvent2 (name message : String) :
    (fieldsOf (.greetingEvent2 name message)).lookup "@type" = some (.string sayHelloEvent1) := by
  simp only [fieldsOf, lookup_fromFields]
  rfl

theorem lookup_to1_greetingEvent2 (name message : String) :
    (fieldsOf (.greetingEvent2 name message)).lookup "to1" = none := by
  simp only [fieldsOf, lookup_fromFields]
  rfl

theorem sayHelloEvent1_ne : sayHelloEvent1 ≠ sayHelloEvent := by
  decide

/-! ## Parsing what was written -/

theorem parseJSON_toJSON_greetingEvent1 (name message : String) :
    (parseJSON (toJSON (GreetingEvent.greetingEvent1 name message)) : Parser GreetingEvent) =
      .ok (.greetingEvent1 name message) := by
  have hkind : field (fieldsOf (.greetingEvent1 name message)) "@type" =
      (.ok sayHelloEvent : Parser String) :=
    field_of_lookup (lookup_kind_greetingEvent1 name message)
  have hto : field (fieldsOf (.greetingEvent1 name message)) "to" = (.ok name : Parser String) :=
    field_of_lookup (lookup_to_greetingEvent1 name message)
  have hmessage : field (fieldsOf (.greetingEvent1 name message)) "message" =
      (.ok message : Parser String) :=
    field_of_lookup (lookup_message_greetingEvent1 name message)
  simp only [parseJSON, toJSON, withObject, hkind, hto, hmessage]
  rfl

theorem parseJSON_toJSON_greetingEvent2 (name message : String) :
    (parseJSON (toJSON (GreetingEvent.greetingEvent2 name message)) : Parser GreetingEvent) =
      .error "key \"to1\" not found" := by
  have hkind : field (fieldsOf (.greetingEvent2 name message)) "@type" =
      (.ok sayHelloEvent1 : Parser String) :=
    field_of_lookup (lookup_kind_greetingEvent2 name message)
  -- The kind is recognised, but the key of the addressee is missing.
  have hto1 : field (fieldsOf (.greetingEvent2 name message)) "to1" =
      (.error "key \"to1\" not found" : Parser String) :=
    field_of_absent (lookup_to1_greetingEvent2 name message)
  simp only [parseJSON, toJSON, withObject, hkind, hto1]
  simp [sayHelloEvent1_ne, bind, Except.bind]

def GreetingEvent.IsGreetingEvent1 : GreetingEvent → Prop
  | .greetingEvent1 _ _ => True
  | .greetingEvent2 _ _ => False

theorem parseJSON_toJSON_iff (e : GreetingEvent) :
    (parseJSON (toJSON e) : Parser GreetingEvent) = .ok e ↔ e.IsGreetingEvent1 := by
  cases e with
  | greetingEvent1 name message =>
      simp [parseJSON_toJSON_greetingEvent1, GreetingEvent.IsGreetingEvent1]
  | greetingEvent2 name message =>
      simp [parseJSON_toJSON_greetingEvent2, GreetingEvent.IsGreetingEvent1]

/-! ## The receive loop -/

section Loop

variable {text : JsonText} {render : GreetingEvent → List UInt8} {msg : List UInt8}
  {d : EventEnvelope} {e : GreetingEvent}

theorem loopLine_of_decode (hd : text.decode EventEnvelope msg = some d)
    (he : d.event = some e) (htext : text.ReadsBack (toJSON e)) :
    loopLine text render msg =
      match (parseJSON (toJSON e) : Parser GreetingEvent) with
      | .ok a => render a
      | .error _ => pack "Unparsable event: " ++ text.encode e := by
  -- What is decoded again is the encoding of an event that is present.
  have hback : text.decode GreetingEvent (text.encode (some e)) =
      (parseJSON (toJSON e) : Parser GreetingEvent).toOption :=
    JsonText.decode_encode htext
  simp only [loopLine, hd, he, hback]
  cases (parseJSON (toJSON e) : Parser GreetingEvent) with
  | ok a =>
      rfl
  | error err =>
      rfl

/-- Whatever a client shows of an event, it shows those of the first constructor and calls
those of the second unparsable. -/
theorem loopLine_of_event (hd : text.decode EventEnvelope msg = some d)
    (he : d.event = some e) (htext : text.ReadsBack (toJSON e)) :
    loopLine text render msg =
      match e with
      | .greetingEvent1 _ _ => render e
      | .greetingEvent2 _ _ => pack "Unparsable event: " ++ text.encode e := by
  rw [loopLine_of_decode hd he htext]
  cases e with
  | greetingEvent1 name message =>
      simp [parseJSON_toJSON_greetingEvent1]
  | greetingEvent2 name message =>
      simp [parseJSON_toJSON_greetingEvent2]

theorem unparsable_ne (bytes : List UInt8) : pack "Unparsable event: " ++ bytes ≠ bytes := by
  intro h
  have hlen := congrArg List.length h
  have hpack : (pack "Unparsable event: ").length = 18 := by
    decide
  rw [List.length_append, hpack] at hlen
  omega

end Loop

/-- Printed as an event, and not as an unparsable one. -/
def PrintedAsEvent (text : JsonText) (e : GreetingEvent) (line : List UInt8) : Prop :=
  line = text.encode e ∧ line ≠ pack "Unparsable event: " ++ text.encode e

theorem greetingEvent_round_trip_iff (text : JsonText) (e : GreetingEvent)
    (htext : text.ReadsBack (toJSON e)) :
    ((parseJSON (toJSON e) : Parser GreetingEvent) = .ok e ↔ e.IsGreetingEvent1) ∧
      ∀ msg d, text.decode EventEnvelope msg = some d → d.event = some e →
        (PrintedAsEvent text e (Greetings.app text msg) ↔ e.IsGreetingEvent1) := by
  refine ⟨parseJSON_toJSON_iff e, ?_⟩
  intro msg d hd he
  rw [Greetings.app, loopLine_of_event hd he htext]
  cases e with
  | greetingEvent1 name message =>
      constructor
      · intro _
        trivial
      · intro _
        exact ⟨rfl, (unparsable_ne _).symm⟩
  | greetingEvent2 name message =>
      constructor
      · intro h
        exact absurd rfl h.2
      · intro h
        exact absurd h id

/-! ### One envelope, as it is on the wire -/

def greetingBob : GreetingEvent :=
  .greetingEvent1 "Bob" "Hi"

def greetingBobText : List UInt8 :=
  pack "\x7b\"@type\":\"type.googleapis.com/com.example.leveldb.SayHelloEvent\"," ++
    pack "\"message\":\"Hi\",\"to\":\"Bob\"\x7d"

def envelopeText : List UInt8 :=
  pack "\x7b\"event\":" ++ greetingBobText ++ pack "\x7d"

def quoted (s : String) : List UInt8 :=
  pack "\"" ++ pack s ++ pack "\""

def entryText : String × Value → List UInt8
  | (key, .string s) => quoted key ++ pack ":" ++ quoted s
  | (key, _) => quoted key ++ pack ":null"

/-- The translation of objects of plain strings, reading back the two texts above. -/
def wireText : JsonText where
  encodeValue
    | .object o => pack "\x7b" ++ (pack ",").intercalate (o.map entryText) ++ pack "\x7d"
    | _ => pack "null"
  decodeValue bytes :=
    if bytes = greetingBobText then some (toJSON greetingBob)
    else if bytes = envelopeText then some (.object [("event", toJSON greetingBob)])
    else none

theorem wireText_envelope :
    wireText.decode EventEnvelope envelopeText =
      some {
        offset := none
        persistenceId := none
        sequenceNr := none
        event := some greetingBob } := by
  -- The two texts differ, so each is read as its own value.
  have hne : envelopeText ≠ greetingBobText := by
    decide
  have hvalue : wireText.decodeValue envelopeText =
      some (.object [("event", toJSON greetingBob)]) := by
    simp [wireText, hne]
  simp only [JsonText.decode, hvalue]
  rfl

theorem greetingEvent_round_trip_bob :
    (parseJSON (toJSON greetingBob) : Parser GreetingEvent) = .ok greetingBob ∧
      PrintedAsEvent wireText greetingBob (Greetings.app wireText envelopeText) := by
  -- The keys come out in order, as on the wire.
  have henc : wireText.encodeValue (toJSON greetingBob) = greetingBobText := by
    decide
  have hback : wireText.ReadsBack (toJSON greetingBob) := by
    rw [JsonText.ReadsBack, henc]
    simp [wireText]
  have hiff := greetingEvent_round_trip_iff wireText greetingBob hback
  exact ⟨hiff.1.mpr trivial, (hiff.2 _ _ wireText_envelope rfl).mpr trivial⟩

theorem greetingEvent2_lost :
    ¬ ∀ e : GreetingEvent, (parseJSON (toJSON e) : Parser GreetingEvent) = .ok e := by
  intro h
  have hBob := h (.greetingEvent2 "Bob" "Hi")
  rw [parseJSON_toJSON_greetingEvent2] at hBob
  cases hBob

end Websockets
end Etude
