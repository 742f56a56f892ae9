import Etude.Base.Json
import Etude.Base.Run

/-!
# Handler — the SOAP endpoint behind an HTTP codec

The model of `NettySoapServerHandler.java`.  The codec hands `channelRead0` one `HttpObject`
after another; the handler keeps what it needs of the current request in its fields and passes
responses to `ctx.write`.
-/

namespace Etude
namespace Soap

open Base

/-! ## What the codec delivers and what the handler writes -/

structure HttpVersion where
  text : String
  isKeepAliveDefault : Bool
  deriving DecidableEq, Repr

/-- What the handler takes from a request; `keepAlive` is `HttpUtil.isKeepAlive(req)` and `host`
is the `HOST` header. -/
structure HttpRequest where
  method : String
  uri : String
  protocolVersion : HttpVersion
  host : Option String
  keepAlive : Bool
  deriving DecidableEq, Repr

inductive HttpObject where
  | request (req : HttpRequest)
  | content (data : List UInt8) (last : Bool)
  deriving DecidableEq, Repr

inductive HttpResponseStatus where
  | ok
  | noContent
  deriving DecidableEq, Repr

structure FullHttpResponse where
  protocolVersion : HttpVersion
  status : HttpResponseStatus
  headers : List (String × String)
  content : String
  deriving DecidableEq, Repr

namespace FullHttpResponse

def setHeader (r : FullHttpResponse) (name value : String) : FullHttpResponse :=
  { r with headers := insertField name value r.headers }

end FullHttpResponse

/-- A response passed to `ctx.write`, and whether the channel is closed when it is out. -/
structure Write where
  response : FullHttpResponse
  close : Bool
  deriving DecidableEq, Repr

/-! ## The texts it serves -/

/-- `String.format("%s", host)`, which prints a missing header as `null`. -/
def formatHost : Option String → String
  | some host => host
  | none => "null"

def wsdlText (host : String) : String :=
  "<?xml version=\"1.0\" encoding=\"UTF-8\"?>" ++
    "<definitions xmlns:wsu=\"http://docs.oasis-open.org/wss/2004/01/oasis-200401-wss" ++
    "-wssecurity-utility-1.0.xsd\"" ++
    " xmlns:wsp=\"http://www.w3.org/ns/ws-policy\"" ++
    " xmlns:wsp1_2=\"http://schemas.xmlsoap.org/ws/2004/09/policy\"" ++
    " xmlns:wsam=\"http://www.w3.org/2007/05/addressing/metadata\"" ++
    " xmlns:soap=\"http://schemas.xmlsoap.org/wsdl/soap/\"" ++
    " xmlns:tns=\"http://SUService.chinaunicom.com/\"" ++
    " xmlns:xsd=\"http://www.w3.org/2001/XMLSchema\"" ++
    " xmlns=\"http://schemas.xmlsoap.org/wsdl/\"" ++
    " targetNamespace=\"http://SUService.chinaunicom.com/\"" ++
    " name=\"SUService\">\n" ++
    "    <import namespace=\"http://SUService.chinaunicom.com\" location=\"http://" ++
    host ++
    "/services/FSUService?wsdl=1\"></import>\n" ++
    "    <binding xmlns:ns1=\"http://SUService.chinaunicom.com\" name=\"SUPortBinding" ++
    "\" type=\"ns1:SUService\">\n" ++
    "        <soap:binding transport=\"http://schemas.xmlsoap.org/soap/http\" style=" ++
    "\"rpc\"></soap:binding>\n" ++
    "        <operation name=\"invoke\">\n" ++
    "            <soap:operation soapAction=\"\"></soap:operation>\n" ++
    "            <input>\n" ++
    "                <soap:body use=\"literal\" namespace=\"http://SUService.chinauni" ++
    "com.com\"></soap:body>\n" ++
    "            </input>\n" ++
    "            <output>\n" ++
    "                <soap:body use=\"literal\" namespace=\"http://SUService.chinauni" ++
    "com.com\"></soap:body>\n" ++
    "            </output>\n" ++
    "        </operation>\n" ++
    "    </binding>\n" ++
    "    <service name=\"SUService\">\n" ++
    "        <port name=\"SUPort\" binding=\"tns:SUPortBinding\">\n" ++
    "            <soap:address location=\"http://" ++
    host ++
    "/services/FSUService\"></soap:address>\n" ++
    "        </port>\n" ++
    "    </service>\n" ++
    "</definitions>"

def invokeBindingText : String :=
  "<?xml version=\"1.0\" encoding=\"UTF-8\"?>" ++
    "<definitions xmlns:tns=\"http://SUService.chinaunicom.com\"" ++
    " xmlns:xsd=\"http://www.w3.org/2001/XMLSchema\"" ++
    " xmlns=\"http://schemas.xmlsoap.org/wsdl/\"" ++
    " targetNamespace=\"http://SUService.chinaunicom.com\">\n" ++
    "    <types></types>\n" ++
    "    <message name=\"invoke\">\n" ++
    "        <part name=\"xmlData\" type=\"xsd:string\"></part>\n" ++
    "    </message>\n" ++
    "    <message name=\"invokeResponse\">\n" ++
    "        <part name=\"invokeReturn\" type=\"xsd:string\"></part>\n" ++
    "    </message>\n" ++
    "    <portType name=\"SUService\">\n" ++
    "        <operation name=\"invoke\">\n" ++
    "            <input xmlns:ns1=\"http://www.w3.org/2007/05/addressing/metadata\" n" ++
    "s1:Action=\"http://SUService.chinaunicom.com/SUService/invokeRequest\" message=" ++
    "\"tns:invoke\"></input>\n" ++
    "            <output xmlns:ns2=\"http://www.w3.org/2007/05/addressing/metadata\" " ++
    "ns2:Action=\"http://SUService.chinaunicom.com/SUService/invokeResponse\" message" ++
    "=\"tns:invokeResponse\"></output>\n" ++
    "        </operation>\n" ++
    "    </portType>\n" ++
    "</definitions>"

def invokeText : String :=
  "<?xml version=\"1.0\" ?><S:Envelope xmlns:S=\"http://schemas.xmlsoap.org/soap/en" ++
    "velope/\"><S:Body>\n" ++
    "<ns2:invokeResponse xmlns:ns2=\"http://SUService.chinaunicom.com\"><invokeReturn" ++
    ">&lt;?xml version=\"1.0\" encoding=\"UTF-8\" standalone=\"yes\"?&gt;&lt;Request&" ++
    "gt;&lt;PK_Type&gt;&lt;Name&gt;GET_FSUINFO&lt;/Name&gt;&lt;/PK_Type&gt;&lt;Info&g" ++
    "t;&lt;FSUID&gt;04201805100002&lt;/FSUID&gt;&lt;/Info&gt;&lt;/Request&gt;&#xD;\n" ++
    "</invokeReturn></ns2:invokeResponse></S:Body></S:Envelope>"

/-! ## The handler -/

structure Handler where
  host : Option String
  method : Option String
  uri : Option String
  protocolVersion : Option HttpVersion
  response : Option FullHttpResponse
  keepAlive : Bool
  deriving DecidableEq, Repr

namespace Handler

def init : Handler :=
  { host := none
    method := none
    uri := none
    protocolVersion := none
    response := none
    keepAlive := false }

/-- The `200 OK` response that the three `handle` methods build around their text. -/
def okResponse (version : HttpVersion) (date text : String) : FullHttpResponse :=
  let response : FullHttpResponse :=
    { protocolVersion := version
      status := .ok
      headers := []
      content := text }
  (((response.setHeader "date" date).setHeader "transfer-encoding" "chunked").setHeader
    "content-type" "text/xml; charset=utf-8").setHeader
    "content-length" (toString text.utf8ByteSize)

def handleWsdl (h : Handler) (version : HttpVersion) (date : String) : FullHttpResponse :=
  okResponse version date (wsdlText (formatHost h.host))

def handleInvokeBinding (version : HttpVersion) (date : String) : FullHttpResponse :=
  okResponse version date invokeBindingText

/-- The request body is not read. -/
def handleInvoke (version : HttpVersion) (date : String) : FullHttpResponse :=
  okResponse version date invokeText

def endResponse (h : Handler) (version : HttpVersion) (response : FullHttpResponse) : Write :=
  if h.keepAlive then
    -- HTTP/1.1 keeps connections open unless it is told otherwise.
    { response :=
        if version.isKeepAliveDefault then response
        else response.setHeader "connection" "keep-alive"
      close := false }
  else
    { response := response.setHeader "connection" "close"
      close := true }

/-- `channelRead0` at the time `date`, with the responses it writes.  Without a request before
it, a content object meets a null `uri` and the call throws. -/
def channelRead0 (h : Handler) (read : HttpObject × String) : Option (Handler × List Write) :=
  match read with
  | (.request req, _) =>
      some
        ({ h with
            keepAlive := req.keepAlive
            host := req.host
            method := some req.method
            uri := some req.uri
            protocolVersion := some req.protocolVersion }, [])
  -- Any content object is answered; whether it is the last one is not asked.
  | (.content _ _, date) => do
      let uri ← h.uri
      let version ← h.protocolVersion
      let response :=
        if uri = "/services/FSUService?wsdl" ∧ h.method = some "GET" then
          h.handleWsdl version date
        else if uri = "/services/FSUService?wsdl=1" ∧ h.method = some "GET" then
          handleInvokeBinding version date
        else if uri = "/services/FSUService" ∧ h.method = some "POST" then
          handleInvoke version date
        else
          { protocolVersion := version
            status := .noContent
            headers := []
            content := "" }
      let w := h.endResponse version response
      some ({ h with response := some w.response }, [w])

end Handler

end Soap
end Etude
