import HttpExchange.Body.Content
import HttpExchange.Client.Config
import HttpExchange.Json.Printer

/-!
Requests that are being put together. The fields that delimit the body and end the connection are
the client's own; what the caller or the configuration gives for them is not sent.
-/

namespace HttpExchange

structure Draft where
  method : Method
  target : String
  /-- The fields of this request, in the order in which they are sent. -/
  fields : List (String × String) := []
  body : Body := {}
  /-- Whether the body could not be written as a document. -/
  spoiled : Bool := false
  deriving DecidableEq, Repr

namespace Draft

variable (d : Draft)

/-- Adds a field. It takes the place of a default with its name. -/
def withField (name value : String) : Draft := { d with fields := d.fields ++ [(name, value)] }

def withBody (body : Body) : Draft := { d with body }

def withJson (document : Json) : Draft :=
  (d.withBody (.ofBytes document.encode)).withField "Content-Type" "application/json"

/-- A body that should have been a document that cannot be written. Nothing will be sent. -/
def spoil : Draft := { d with spoiled := true }

/-- Whether the request itself has a field with this name, in any spelling. -/
def names (name : String) : Bool := d.fields.any fun field => sameName field.1 name

/-- The address as a field, unless the request names its host. -/
def hostField (config : ClientConfig) : List (String × String) :=
  if d.names "Host" then [] else [("Host", config.address.text)]

/-- The defaults that the request does not replace, and its own fields. -/
def givenFields (config : ClientConfig) : List (String × String) :=
  ((config.defaults.filter fun field => !d.names field.1) ++ d.fields).filter fun field =>
    !Fields.isReserved field.1

/-- The field that announces the body. A request without a body announces none. -/
def framingField : List (String × String) :=
  if d.body.framing = .empty then [] else d.body.framing.field?.toList

/-- The fields on the wire. Every request asks for the connection to be closed. -/
def sentFields (config : ClientConfig) : List (String × String) :=
  d.hostField config ++ d.givenFields config ++ d.framingField ++ [(Fields.connection, "close")]

/-- The head on the wire, with the blank line behind it. -/
def head (config : ClientConfig) : Bytes :=
  Utf8.encode (d.method.token ++ " " ++ d.target ++ " HTTP/1.1\r\n") ++
    (d.sentFields config).flatMap (fun field => Utf8.encode (Fields.writeLine field.1 field.2)) ++
    Bytes.crlf

end Draft

end HttpExchange
