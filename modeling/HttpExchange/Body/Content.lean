import HttpExchange.Body.Producer
import HttpExchange.Framing

/-!
Bodies of messages that are to be sent, or were received. A body can be taken once. Bytes that
are on the wire cannot be read a second time, and so no body can.
-/

namespace HttpExchange

/-- What is in a body. -/
inductive Content where
  | empty
  | known (b : Bytes)
  | stream (p : Producer)
  deriving DecidableEq, Repr

structure Body where
  content : Content := .empty
  consumed : Bool := false
  deriving DecidableEq, Repr

def Mishap.whileReading : Mishap → BodyError
  | .unread e => .wire e
  | cause => .producer cause

namespace Body

def empty : Body := {}

/-- A body whose bytes are known, and announced with their number. -/
def ofBytes (b : Bytes) : Body := { content := .known b }

/-- A body that is produced chunk by chunk, and sent so. -/
def ofProducer (p : Producer) : Body := { content := .stream p }

variable (body : Body)

def isEmpty : Bool :=
  match body.content with
  | .empty => true
  | .known b => b.isEmpty
  | .stream _ => false

def framing : Framing :=
  match body.content with
  | .empty => .empty
  | .known b => if b.isEmpty then .empty else .length b.length
  | .stream _ => .chunked

def producer : Producer :=
  match body.content with
  | .empty => .known []
  | .known b => .known b
  | .stream p => p

/-- Takes the chunks out of the body, which is empty afterwards. -/
def take : Except BodyError Producer × Body :=
  if body.consumed then (.error .alreadyConsumed, body)
  else (.ok body.producer, { content := .empty, consumed := true })

def describe : String :=
  let kind := match body.content with
    | .empty => "empty"
    | .known b => Numeral.decimal b.length ++ " bytes"
    | .stream _ => "stream"
  let consumed := if body.consumed then "true" else "false"
  "Body \x7b kind: \"" ++ kind ++ "\", consumed: " ++ consumed ++ " \x7d"

end Body

namespace Producer

/-- Collects all chunks behind those collected before, the last first. The first failure ends it. -/
def collectOnto (before : List Bytes) (p : Producer) (l : Link) : Outcome BodyError Bytes × Link :=
  match _pulled : p.pull l with
  | (.chunk b, p, l) => collectOnto (b :: before) p l
  | (.ended, _, l) => (.ok before.reverse.flatten, l)
  | (.failed cause, _, l) => (.error cause.whileReading, l)
  | (.cancelled, _, l) => (.stuck, l)
  | (.stuck, _, l) => (.stuck, l)
termination_by p.weight l.weight
decreasing_by exact (weight_pull _pulled).2 b rfl

def collect (p : Producer) (l : Link) : Outcome BodyError Bytes × Link := collectOnto [] p l

theorem weight_collectOnto {before p l out l'} (eq : collectOnto before p l = (out, l')) :
    l'.weight ≤ l.weight := by
  fun_induction collectOnto before p l
  case case1 pulled ih => exact Nat.le_trans (ih eq) (weight_pull pulled).1
  all_goals
    next pulled =>
      cases eq
      exact (weight_pull pulled).1

theorem weight_collect {p l out l'} (eq : collect p l = (out, l')) : l'.weight ≤ l.weight :=
  weight_collectOnto eq

end Producer

/-- Collects the whole body. Only an end in order gives the bytes. -/
def Body.aggregate (body : Body) (l : Link) : Outcome BodyError Bytes × Body × Link :=
  match body.take with
  | (.ok p, body) =>
    let (out, l) := p.collect l
    (out, body, l)
  | (.error e, body) => (.error e, body, l)

end HttpExchange
