import Etude.Soap.Handler

/-!
# Answers — one response for each content object

The codec delivers a request as its head and one or more content objects.  The handler writes a
response at every content object, so a request is answered once exactly if its body arrives in
one piece, and answered again for each further piece otherwise.
-/

namespace Etude
namespace Soap

open Base

/-! ## What a request asks for -/

/-- The response to `req`, as a function of the request alone. -/
def responseTo (req : HttpRequest) (date : String) : FullHttpResponse :=
  if req.uri = "/services/FSUService?wsdl" ∧ req.method = "GET" then
    Handler.okResponse req.protocolVersion date (wsdlText (formatHost req.host))
  else if req.uri = "/services/FSUService?wsdl=1" ∧ req.method = "GET" then
    Handler.okResponse req.protocolVersion date invokeBindingText
  else if req.uri = "/services/FSUService" ∧ req.method = "POST" then
    Handler.okResponse req.protocolVersion date invokeText
  else
    { protocolVersion := req.protocolVersion
      status := .noContent
      headers := []
      content := "" }

/-- The response to `req` with the connection header and the close decision of `req`. -/
def answerTo (req : HttpRequest) (date : String) : Write :=
  { response :=
      if req.keepAlive = false then (responseTo req date).setHeader "connection" "close"
      else if req.protocolVersion.isKeepAliveDefault then responseTo req date
      else (responseTo req date).setHeader "connection" "keep-alive"
    close := !req.keepAlive }

/-- The fields of the handler are those of `req`. -/
structure Serving (h : Handler) (req : HttpRequest) : Prop where
  host : h.host = req.host
  method : h.method = some req.method
  uri : h.uri = some req.uri
  protocolVersion : h.protocolVersion = some req.protocolVersion
  keepAlive : h.keepAlive = req.keepAlive

theorem channelRead0_request (h : Handler) (req : HttpRequest) (date : String) :
    ∃ h', h.channelRead0 (.request req, date) = some (h', []) ∧ Serving h' req := by
  refine ⟨_, rfl, ?_⟩
  constructor <;> rfl

theorem channelRead0_content {h : Handler} {req : HttpRequest} (hs : Serving h req)
    (data : List UInt8) (last : Bool) (date : String) :
    ∃ h', h.channelRead0 (.content data last, date) = some (h', [answerTo req date]) ∧
      Serving h' req := by
  refine ⟨{ h with response := some (answerTo req date).response }, ?_, ?_⟩
  · -- The handler's fields are those of the request, so it takes the same branches.
    have hwrite : h.endResponse req.protocolVersion (responseTo req date) =
        answerTo req date := by
      cases hk : req.keepAlive with
      | true =>
          simp [Handler.endResponse, answerTo, hs.keepAlive, hk]
      | false =>
          simp [Handler.endResponse, answerTo, hs.keepAlive, hk]
    rw [← hwrite]
    simp [Handler.channelRead0, Handler.handleWsdl, Handler.handleInvokeBinding,
      Handler.handleInvoke, responseTo, hs.uri, hs.method, hs.protocolVersion, hs.host]
  · exact ⟨hs.host, hs.method, hs.uri, hs.protocolVersion, hs.keepAlive⟩

/-! ## Requests as the codec delivers them -/

/-- A request in the objects that the codec makes of it, each with the time it is read. -/
structure Delivery where
  request : HttpRequest
  requestDate : String
  /-- The content objects before the last one. -/
  parts : List (List UInt8 × String)
  lastPart : List UInt8
  lastDate : String
  deriving DecidableEq, Repr

namespace Delivery

def objects (d : Delivery) : List (HttpObject × String) :=
  (.request d.request, d.requestDate) ::
    (d.parts.map (fun part => (.content part.1 false, part.2)) ++
      [(.content d.lastPart true, d.lastDate)])

/-- One response, at the last content object. -/
def answeredOnce (d : Delivery) : List (List Write) :=
  [] :: (d.parts.map (fun _ => []) ++ [[answerTo d.request d.lastDate]])

/-- A response at every content object. -/
def answeredByPart (d : Delivery) : List (List Write) :=
  [] :: (d.parts.map (fun part => [answerTo d.request part.2]) ++
    [[answerTo d.request d.lastDate]])

theorem answeredByPart_eq_iff (d : Delivery) :
    d.answeredByPart = d.answeredOnce ↔ d.parts = [] := by
  constructor
  · intro h
    -- The heads and the last answers agree, so the answers between them do.
    have hparts : d.parts.map (fun part => [answerTo d.request part.2]) =
        d.parts.map (fun _ => []) :=
      List.append_cancel_right (List.tail_eq_of_cons_eq h)
    by_contra hne
    rcases List.exists_cons_of_ne_nil hne with ⟨part, rest, hcons⟩
    rw [hcons] at hparts
    cases hparts
  · intro h
    simp [answeredByPart, answeredOnce, h]

theorem length_answered (d : Delivery) :
    d.answeredByPart.length = d.answeredOnce.length := by
  simp [answeredByPart, answeredOnce]

end Delivery

/-! ## Runs -/

theorem runOut_parts {h : Handler} {req : HttpRequest} (hs : Serving h req)
    (parts : List (List UInt8 × String)) :
    ∃ h', runOut Handler.channelRead0 h
        (parts.map (fun part => (.content part.1 false, part.2))) =
          some (h', parts.map (fun part => [answerTo req part.2])) ∧
      Serving h' req := by
  induction parts generalizing h with
  | nil =>
      exact ⟨h, rfl, hs⟩
  | cons part parts ih =>
      rcases channelRead0_content hs part.1 false part.2 with ⟨h₁, hread, hs₁⟩
      rcases ih hs₁ with ⟨h₂, hrest, hs₂⟩
      exact ⟨h₂, by simp [runOut, hread, hrest], hs₂⟩

theorem runOut_objects (h : Handler) (d : Delivery) :
    ∃ h', runOut Handler.channelRead0 h d.objects = some (h', d.answeredByPart) := by
  -- The request, the content objects before the last, and the last one.
  rcases channelRead0_request h d.request d.requestDate with ⟨h₁, hreq, hs₁⟩
  rcases runOut_parts hs₁ d.parts with ⟨h₂, hparts, hs₂⟩
  rcases channelRead0_content hs₂ d.lastPart true d.lastDate with ⟨h₃, hlast, -⟩
  refine ⟨h₃, ?_⟩
  simp [Delivery.objects, runOut, runOut_append, hreq, hparts, hlast, Delivery.answeredByPart]

theorem runOut_deliveries (h : Handler) (ds : List Delivery) :
    ∃ h', runOut Handler.channelRead0 h (ds.flatMap Delivery.objects) =
      some (h', ds.flatMap Delivery.answeredByPart) := by
  induction ds generalizing h with
  | nil =>
      exact ⟨h, rfl⟩
  | cons d ds ih =>
      rcases runOut_objects h d with ⟨h₁, hd⟩
      rcases ih h₁ with ⟨h₂, hds⟩
      refine ⟨h₂, ?_⟩
      simp [runOut_append, hd, hds]

theorem flatMap_answered_iff (ds : List Delivery) :
    ds.flatMap Delivery.answeredByPart = ds.flatMap Delivery.answeredOnce ↔
      ∀ d ∈ ds, d.parts = [] := by
  induction ds with
  | nil =>
      simp
  | cons d ds ih =>
      simp only [List.flatMap_cons, List.mem_cons, forall_eq_or_imp, ← ih,
        ← d.answeredByPart_eq_iff]
      constructor
      · intro h
        -- Both lists have one entry for each object, so they are equal part by part.
        exact List.append_inj h d.length_answered
      · rintro ⟨hd, hds⟩
        rw [hd, hds]

/-- Each request of a connection is answered once, after its last content object and by its own
keep-alive decision, exactly if every request came with a single content object. -/
theorem answered_once_iff (ds : List Delivery) :
    (∃ h, runOut Handler.channelRead0 .init (ds.flatMap Delivery.objects) =
        some (h, ds.flatMap Delivery.answeredOnce)) ↔
      ∀ d ∈ ds, d.parts = [] := by
  -- The run is determined: it succeeds, and with an answer to every part.
  rcases runOut_deliveries .init ds with ⟨h', hrun⟩
  rw [← flatMap_answered_iff]
  constructor
  · rintro ⟨h, honce⟩
    rw [hrun] at honce
    exact congrArg Prod.snd (Option.some.inj honce)
  · intro heq
    exact ⟨h', by rw [hrun, heq]⟩

/-- An invocation whose body arrives in two pieces. -/
def twoPartInvoke : Delivery :=
  { request :=
      { method := "POST"
        uri := "/services/FSUService"
        protocolVersion :=
          { text := "HTTP/1.1"
            isKeepAliveDefault := true }
        host := some "localhost"
        keepAlive := true }
    requestDate := "Mon Jan 07 09:00:00 CST 2019"
    parts := [([60, 83, 58], "Mon Jan 07 09:00:00 CST 2019")]
    lastPart := [69, 62]
    lastDate := "Mon Jan 07 09:00:01 CST 2019" }

theorem twoPartInvoke_answered_twice :
    ¬ ∃ h, runOut Handler.channelRead0 .init ([twoPartInvoke].flatMap Delivery.objects) =
      some (h, [twoPartInvoke].flatMap Delivery.answeredOnce) := by
  rintro ⟨h, honce⟩
  rcases runOut_deliveries .init [twoPartInvoke] with ⟨h', hrun⟩
  rw [hrun] at honce
  have hparts := (flatMap_answered_iff _).mp (congrArg Prod.snd (Option.some.inj honce))
  exact absurd (hparts twoPartInvoke (by simp)) (by decide)

end Soap
end Etude
