import HttpExchange.Body.Delivery
import HttpExchange.Client.Draft
import HttpExchange.Client.Error
import HttpExchange.Json.Reader
import HttpExchange.Lifecycle

/-!
The client's side of an exchange. The request is sent whole, then the head of the response is read;
the body stays on the wire and is read as the caller asks for it. The exchange is over when that
body has ended: completed if it ended in order, aborted if it ended with an error.
-/

namespace HttpExchange

/-- A response whose body is still on the wire. -/
structure Answer where
  head : ResponseHead
  body : Body := .ofProducer .incoming
  exchange : Exchange
  deriving DecidableEq, Repr

/-- A client, with the number of its exchanges. -/
structure Client where
  config : ClientConfig
  issued : Nat := 0
  deriving DecidableEq, Repr

namespace Draft

/-- Sends the body behind the head. A body that fails aborts the connection. -/
def sendBody (d : Draft) (l : Link) : Outcome ClientError Unit × Link :=
  match d.body.take with
  | (.error e, _) => (.error (.requestBody e), l.shutdown)
  | (.ok p, _) => match ({ framing := d.body.framing } : Delivery).run .endless p l with
    | (.ok _, _, l) => (.ok (), l)
    | (.error e, delivery, l) => (.error (.requestBody e), (delivery.abort l).2)
    | (.stuck, _, l) => (.stuck, l)

end Draft

namespace Client

variable (c : Client)

/-- Reads the head of the response to a request with this method. -/
def receive (method : Method) (l : Link) : Outcome ClientError ResponseHead × Link :=
  match l.readHead c.config.maxHeadSize with
  | (.error e, l) => (.error (.body (.wire e)), l)
  | (.stuck, l) => (.stuck, l)
  | (.ok none, l) => (.error .connectionClosed, l)
  | (.ok (some bytes), l) => match ResponseHead.parse bytes with
    | .error e => (.error (.parse e), l)
    | .ok head => match Framing.ofResponse head method with
      | .error e => (.error (.body (.wire e)), l)
      | .ok framing => (.ok head, l.expect framing c.config.readBufferSize)

/-- Sends a request over a link, and reads the head of the response. A request that could not be
sent is not answered: nothing is read. -/
def send (draft : Draft) (l : Link) : Outcome ClientError Answer × Client × Link :=
  if draft.spoiled then (.error .json, c, l)
  else
    let x : Exchange := { id := c.issued + 1 }
    let c := { c with issued := c.issued + 1 }
    match l.send (draft.head c.config) with
    | (.error e, l) => (.error (.body (.wire e)), c, l)
    | (.stuck, l) => (.stuck, c, l)
    | (.ok (), l) => match draft.sendBody l with
      | (.error e, l) => (.error e, c, l)
      | (.stuck, l) => (.stuck, c, l)
      | (.ok (), l) => match c.receive draft.method l with
        | (.error e, l) => (.error e, c, l)
        | (.stuck, l) => (.stuck, c, l)
        | (.ok head, l) =>
          (.ok { head, exchange := ((x.advance .headSent).2.advance .streaming).2 }, c, l)

/-- Connects to the server and sends a request. What comes of connecting is the network's affair; a
request that is not to be sent does not even try. -/
def connect (draft : Draft) (connection : Except IoFault Link) :
    Outcome ClientError Answer × Client × Option Link :=
  if draft.spoiled then (.error .json, c, none)
  else match connection with
    | .error fault => (.error (.io fault), c, none)
    | .ok l =>
      let (out, c, l) := c.send draft l
      (out, c, some l)

end Client

namespace Answer

variable (a : Answer)

def takeBody : Except BodyError Producer × Answer :=
  let (taken, body) := a.body.take
  (taken, { a with body })

def complete : Answer := { a with exchange := (a.exchange.advance .completed).2 }

def abort : Answer := { a with exchange := a.exchange.abort.2 }

def next (l : Link) : Outcome BodyError Piece × Answer × Link :=
  match l.readPiece with
  | (.ok (.data b), l) => (.ok (.data b), a, l)
  | (.ok .ended, l) => (.ok .ended, a.complete, l)
  | (.error e, l) => (.error (.wire e), a.abort, l)
  | (.stuck, l) => (.stuck, a, l)

def aggregate (l : Link) : Outcome ClientError Bytes × Answer × Link :=
  match a.takeBody with
  | (.error e, a) => (.error (.body e), a, l)
  | (.ok p, a) => match p.collect l with
    | (.ok b, l) => (.ok b, a.complete, l)
    | (.error e, l) => (.error (.body e), a.abort, l)
    | (.stuck, l) => (.stuck, a, l)

def readText (b : Bytes) : Except ClientError String := (Utf8.decode b).mapError .notText

def readJson (b : Bytes) : Except ClientError Json :=
  match Json.decode b with
  | some document => .ok document
  | none => .error .json

def readRecord (names : List String) (b : Bytes) : Except ClientError (List (String × String)) :=
  match Json.decodeRecord names b with
  | some values => .ok (names.zip values)
  | none => .error .json

end Answer

end HttpExchange
