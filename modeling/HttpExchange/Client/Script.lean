import HttpExchange.Client.Exchange

/-!
Scripted uses of a client. A visit sends a request, then looks at the answer step by step and
reports what each step found, and where the exchange stands behind it. A call that waits in vain is
given up, and the next one is tried.
-/

namespace HttpExchange

/-- Something that a caller does with an answer. -/
inductive Look where
  | field (name : String)
  | aggregate
  | text
  | json
  /-- Reads the body as a record of texts with these names. -/
  | record (names : List String)
  /-- Takes the body, to read it piece by piece. -/
  | take
  /-- Reads the next piece of the body that was taken. -/
  | next
  /-- Gives up the body that was taken. -/
  | drop
  deriving DecidableEq, Repr

/-- What a look found. -/
inductive Sight where
  | value (text : Option String)
  | bytes (b : Bytes)
  | text (text : String)
  | document (document : Json)
  | record (values : List (String × String))
  | taken
  | piece (piece : Piece)
  /-- There was no body to read a piece of. -/
  | noStream
  | dropped
  | failure (e : ClientError)
  | bodyFailure (e : BodyError)
  | stuck

/-- An answer, and whether its body is being read piece by piece. -/
structure Reading where
  answer : Answer
  isOpen : Bool := false
  deriving DecidableEq, Repr

namespace Reading

variable (r : Reading)

def readAs (convert : Bytes → Except ClientError Sight) (l : Link) : Sight × Reading × Link :=
  match r.answer.aggregate l with
  | (.ok b, answer, l) => match convert b with
    | .ok sight => (sight, { r with answer }, l)
    | .error e => (.failure e, { r with answer }, l)
  | (.error e, answer, l) => (.failure e, { r with answer }, l)
  | (.stuck, answer, l) => (.stuck, { r with answer }, l)

def readPiece (l : Link) : Sight × Reading × Link :=
  match r.answer.next l with
  | (.ok piece, answer, l) => (.piece piece, { r with answer }, l)
  | (.error e, answer, l) => (.bodyFailure e, { r with answer }, l)
  | (.stuck, answer, l) => (.stuck, { r with answer }, l)

def look (what : Look) (l : Link) : Sight × Reading × Link :=
  match what with
  | .field name => (.value (r.answer.head.field? name), r, l)
  | .aggregate => r.readAs (fun b => .ok (.bytes b)) l
  | .text => r.readAs (fun b => (Answer.readText b).map .text) l
  | .json => r.readAs (fun b => (Answer.readJson b).map .document) l
  | .record names => r.readAs (fun b => (Answer.readRecord names b).map .record) l
  | .take => match r.answer.takeBody with
    | (.ok _, answer) => (.taken, { answer, isOpen := true }, l)
    | (.error e, answer) => (.bodyFailure e, { r with answer }, l)
  | .next => if r.isOpen then r.readPiece l else (.noStream, r, l)
  | .drop => (.dropped, { r with isOpen := false }, l)

end Reading

/-- A request that is sent and answered, as far as it came. -/
structure Visit where
  client : Client
  link : Link
  /-- What came of sending the request. -/
  outcome : Outcome ClientError Answer := .stuck
  /-- What was found, and where the exchange stood behind it, the last first. -/
  sights : List (Sight × Phase) := []
  /-- The moment up to which the visit waits, if it is not over. -/
  wake : Option Nat := none

namespace Visit

def browse (patience : Nat) : List Look → Reading → Visit → Visit
  | [], _, v => v
  | what :: rest, r, v =>
    let (sight, r, l) := r.look what (v.link.call patience)
    let v' := { v with
      link := l.behind v.link, sights := (sight, r.answer.exchange.phase) :: v.sights }
    match sight with
    | .stuck => match l.waits? patience v.link with
      | some wake => { v with link := l, wake := some wake }
      | none => browse patience rest r v'
    | _ => browse patience rest r v'

end Visit

/-- Sends a request over a link and looks at the answer. Each call may take so long. -/
def Client.visit (c : Client) (patience : Nat) (draft : Draft) (looks : List Look) (l : Link) :
    Visit :=
  let (outcome, client, l') := c.send draft (l.call patience)
  let v : Visit := { client, link := l'.behind l, outcome }
  match outcome with
  | .ok answer => Visit.browse patience looks { answer } v
  | .error _ => v
  | .stuck => { v with link := l', wake := l'.waits? patience l }

end HttpExchange
