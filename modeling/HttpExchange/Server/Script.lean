import HttpExchange.Server.Handler

/-!
Scripted handlers. A script looks at the request and reads its body action by action, reports what
each action found, and then gives a reply that may be made of what was read.
-/

namespace HttpExchange

inductive Action where
  | info
  | field (name : String)
  | parameter (name : String)
  | queryValue (name : String)
  | isJson
  /-- Reads the whole body. -/
  | aggregate
  /-- Reads the whole body as text. -/
  | text
  /-- Reads the whole body as a document. -/
  | json
  /-- Reads the whole body as a record of texts with these names. -/
  | record (names : List String)
  /-- Takes the body, to read it piece by piece. -/
  | take
  /-- Reads the next piece of the body that was taken. -/
  | next
  | pause (ms : Nat)
  deriving DecidableEq, Repr

/-- What an action found. -/
inductive Finding where
  | request (head : RequestHead) (parameters : List (String × String))
  | value (text : Option String)
  | flag (b : Bool)
  | bytes (b : Bytes)
  | document (document : Json)
  | record (values : List (String × String))
  | taken
  | nothing
  /-- A piece of the body, or the error in its place. -/
  | piece (found : Except BodyError Piece)
  /-- There was no body to take a piece of. -/
  | noStream
  | failure (e : ServerError)

abbrev Observation := Action × Finding

/-- The body of a reply. -/
inductive ReplyBody where
  | empty
  | known (b : Bytes)
  | document (document : Json)
  /-- A document that cannot be written. -/
  | unwritable
  | stream (p : Producer)
  /-- The bytes that were read last, with more behind them. -/
  | echo (more : Bytes)
  /-- The document that was read last. -/
  | echoDocument
  /-- What is left of the request's body. -/
  | echoStream
  deriving Inhabited

/-- How a script ends. -/
inductive Ending where
  | reply (status : Status) (fields : List (String × String)) (type : Option String)
    (body : ReplyBody)
  | fail (e : ServerError)
  | panic

namespace Script

/-- What a script knows. -/
structure State where
  request : Request
  /-- The body that was taken. -/
  stream : Option Producer := none
  /-- The bytes that were read last. -/
  bytes : Bytes := []
  /-- The document that was read last. -/
  document : Json := .null

def objectOf (values : List (String × String)) : Json :=
  .ofMembers (values.map fun v => (v.1, .text v.2))

def dress (body : ReplyBody) (st : State) (r : Response) : Program Observation :=
  match body with
  | .empty => .respond r
  | .known b => .respond (r.withBody (.ofBytes b))
  | .document document => .respond (r.withJson document)
  | .unwritable => .fail .json
  | .stream p => .respond (r.withBody (.ofProducer p))
  | .echo more => .respond (r.withBody (.ofBytes (st.bytes ++ more)))
  | .echoDocument => .respond (r.withJson st.document)
  | .echoStream => match st.stream with
    | some p => .respond (r.withBody (.ofProducer p))
    | none => match st.request.takeBody with
      | (.ok p, _) => .respond (r.withBody (.ofProducer p))
      | (.error e, _) => .fail (.body e)

def finish (ending : Ending) (st : State) : Program Observation :=
  match ending with
  | .reply status fields type body =>
    let r : Response := { status }
    let r := fields.foldl (fun r field => r.withField field.1 field.2) r
    dress body st ((type.map r.withContentType).getD r)
  | .fail e => .fail e
  | .panic => .panic

def collect (st : State) (rest : Except ServerError Bytes → State → Program Observation) :
    Program Observation :=
  match st.request.takeBody with
  | (.error e, request) => rest (.error (.body e)) { st with request }
  | (.ok _, request) => .collect fun read =>
    rest (match read with
      | .ok b => .ok b
      | .error e => .error (.body e)) { st with request }

def readRecord (names : List String) (b : Bytes) : Option (List (String × String)) :=
  (Json.decodeRecord names b).map fun values => names.zip values

/-- Reads the body of a request that says that it is a document. -/
def collectJson (st : State) (rest : Except ServerError Bytes → State → Program Observation) :
    Program Observation :=
  if st.request.isJson then collect st rest else rest (.error Request.notJson) st

/-- Goes through the actions. A script that does not go on after failures ends with the first. -/
def run (keepGoing : Bool) (ending : Ending) : List Action → State → Program Observation
  | [], st => finish ending st
  | action :: actions, st =>
    let found (finding : Finding) (st : State) : Program Observation :=
      .note (action, finding) (run keepGoing ending actions st)
    let failed (e : ServerError) (st : State) : Program Observation :=
      .note (action, .failure e) (if keepGoing then run keepGoing ending actions st else .fail e)
    match action with
    | .info => found (.request st.request.head st.request.parameters) st
    | .field name => found (.value (st.request.field? name)) st
    | .parameter name => found (.value (st.request.parameter? name)) st
    | .queryValue name => found (.value (st.request.queryValue? name)) st
    | .isJson => found (.flag st.request.isJson) st
    | .aggregate => collect st fun read st => match read with
      | .ok b => found (.bytes b) { st with bytes := b }
      | .error e => failed e st
    | .text => collect st fun read st => match read.bind fun b => (Request.readText b).map fun _ => b with
      | .ok b => found (.bytes b) { st with bytes := b }
      | .error e => failed e st
    | .json => collectJson st fun read st => match read with
      | .ok b => match Json.decode b with
        | some document => found (.document document) { st with document }
        | none => failed .json st
      | .error e => failed e st
    | .record names => collectJson st fun read st => match read with
      | .ok b => match readRecord names b with
        | some values => found (.record values) { st with document := objectOf values }
        | none => failed .json st
      | .error e => failed e st
    | .take => match st.request.takeBody with
      | (.ok p, request) => found .taken { st with request, stream := some p }
      | (.error e, request) => failed (.body e) { st with request }
    | .next => match st.stream with
      | none => found .noStream st
      | some _ => .pull fun read => found (.piece read) st
    | .pause ms => .pause ms (found .nothing st)

end Script

def Handler.scripted (actions : List Action) (keepGoing : Bool) (ending : Ending) :
    Handler Observation :=
  fun request => Script.run keepGoing ending actions { request }

end HttpExchange
