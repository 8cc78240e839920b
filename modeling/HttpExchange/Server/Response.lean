import HttpExchange.Body.Content
import HttpExchange.Json.Printer

/-!
Responses as handlers give them. The fields that delimit the body and end the connection are the
server's own: a handler may name them, and they are not written. All other fields are written in
the order of their lines' bytes, in front of the derived ones.
-/

namespace HttpExchange

structure Response where
  status : Status
  fields : Fields := [("Server", "flowhttp-rs")]
  body : Body := {}
  deriving DecidableEq, Repr

namespace Response

variable (r : Response)

/-- Gives a field a value. Only the same spelling of its name is replaced. -/
def withField (name value : String) : Response := { r with fields := r.fields.insert name value }

def withContentType (type : String) : Response := r.withField "Content-Type" type

def withBody (body : Body) : Response := { r with body }

def withJson (document : Json) : Response :=
  (r.withContentType "application/json").withBody (.ofBytes document.encode)

def fieldLines : List Bytes :=
  let own := r.fields.filter fun field => !Fields.isReserved field.1
  let lines := own.map fun field => Utf8.encode (Fields.writeLine field.1 field.2)
  lines.mergeSort Bytes.le

/-- The line that announces the body, where the status allows one. -/
def framingLine : Bytes :=
  if r.status.forbidsBody then []
  else match r.body.framing.field? with
    | some (name, value) => Utf8.encode (Fields.writeLine name value)
    | none => []

/-- The line that announces the end of the connection, before that end. -/
def closeLine (close : Bool) : Bytes :=
  if close then Utf8.encode (Fields.writeLine Fields.connection "close") else []

/-- The head on the wire, with the blank line behind it. -/
def head (close : Bool) : Bytes :=
  Utf8.encode ("HTTP/1.1 " ++ r.status.line ++ "\r\n") ++ r.fieldLines.flatten ++ r.framingLine ++
    closeLine close ++ Bytes.crlf

end Response

end HttpExchange
