import HttpExchange.Body.Delivery
import HttpExchange.Lifecycle
import HttpExchange.Route.Table
import HttpExchange.Server.Config
import HttpExchange.Server.Handler

/-!
The server's side of a connection: one exchange after another, each with a request, the answer of
its handler, and the response. A failure before the head of the response is answered with a status;
behind the head it can only abort the connection. The next request is looked for only when the body
of this one was read to its end, so that no body is ever taken for a request.
-/

namespace HttpExchange

/-- What a server counts. -/
structure Counters where
  /-- The numbers given to exchanges so far. -/
  issued : Nat := 0
  completed : Nat := 0
  aborted : Nat := 0
  deriving DecidableEq, Repr

namespace Counters

def issue (c : Counters) : Counters := { c with issued := c.issued + 1 }

def complete (c : Counters) : Counters := { c with completed := c.completed + 1 }

def abort (c : Counters) : Counters := { c with aborted := c.aborted + 1 }

end Counters

structure Server (ω : Type) where
  config : ServerConfig
  routes : RouteTable (Handler ω)

namespace Response

/-- A response with what is left of it for this method: a reply to a request for the head alone, or
with a status that forbids one, has no body. The handler's body is dropped unread. -/
def strip (r : Response) (method : Method) : Response :=
  if method = .head ∨ r.status.forbidsBody then r.withBody .empty else r

def deliver (r : Response) (idle : Option Nat) (l : Link) :
    Outcome BodyError Nat × Delivery × Link :=
  let d : Delivery := { framing := r.body.framing }
  match r.body.take with
  | (.ok p, _) => d.run ((idle.map Patience.idle).getD .endless) p l
  | (.error e, _) => (.error e, d, l)

/-- Sends a response in an exchange. A failure of the body comes behind the head, and so it aborts
the connection. -/
def send (r : Response) (x : Exchange) (method : Method) (close : Bool) (idle : Option Nat)
    (l : Link) : Outcome ServerError Unit × Exchange × Link :=
  match l.send (r.head close) with
  | (.error e, l) => (.error (.body (.wire e)), x.abort.2, l)
  | (.stuck, l) => (.stuck, x, l)
  | (.ok (), l) =>
    let x := ((x.advance .headSent).2.advance .streaming).2
    match (r.strip method).deliver idle l with
    | (.ok _, _, l) => (.ok (), (x.advance .completed).2, l)
    | (.error e, d, l) => (.error (.aborted x.id e), x.abort.2, (d.abort l).2)
    | (.stuck, _, l) => (.stuck, x, l)

end Response

namespace Response

theorem weight_deliver {r : Response} {idle l out d l'} (eq : r.deliver idle l = (out, d, l')) :
    l'.weight ≤ l.weight := by
  unfold deliver at eq
  split at eq
  · exact Delivery.weight_run eq
  · cases eq
    exact Nat.le_refl _

theorem weight_send {r : Response} {x method close idle l out x' l'}
    (eq : r.send x method close idle l = (out, x', l')) : l'.weight ≤ l.weight := by
  unfold send at eq
  split at eq
  · next sent => cases eq; exact Nat.le_of_eq (Link.weight_send sent)
  · next sent => cases eq; exact Nat.le_of_eq (Link.weight_send sent)
  · next sent =>
    split at eq <;> next delivered =>
      have delivered := weight_deliver delivered
      cases eq
      exact Nat.le_trans delivered (Nat.le_of_eq (Link.weight_send sent))

end Response

/-- A connection that is served, with the counters of its server. -/
structure Session (ω : Type) where
  link : Link
  counters : Counters
  /-- What handlers noted, the last first. -/
  seen : List ω := []

namespace Session

variable {ω : Type}

def exchange (s : Session ω) : Exchange := { id := s.counters.issued + 1 }

def issue (s : Session ω) : Session ω := { s with counters := s.counters.issue }

def abort (s : Session ω) : Session ω :=
  { s with link := s.link.shutdown, counters := s.counters.abort }

end Session

namespace Server

variable {ω : Type} (server : Server ω)

/-- The response to a request: the handler's, or a status that says why there is none. -/
def respond (head : RequestHead) (framing : Framing) (seen : List ω) (l : Link) :
    Option Response × List ω × Link :=
  match server.routes.find? head.method head.path with
  | none => (some { status := .notFound }, seen, l)
  | some (handler, parameters) =>
    match (handler ⟨head, parameters, Request.bodyOf framing⟩).run seen l with
    | (.response r, seen, l) => (some r, seen, l)
    | (.failed _, seen, l) | (.panicked, seen, l) =>
      (some { status := .internalServerError }, seen, l)
    | (.stuck, seen, l) => (none, seen, l)

/-- What happens to a connection behind an exchange. -/
inductive Step where
  /-- Another exchange may follow. -/
  | proceed
  | finished (result : Outcome ServerError Unit)

/-- Whether the connection is closed behind the response to a request. -/
def closes (head : RequestHead) : Bool := !server.config.keepAlive || head.wantsClose

/-- Whether the body of a request was not read to its end. -/
def isLeftOver (framing : Framing) (l : Link) : Bool := framing != .empty && !l.body.released

/-- Goes on behind a response, unless the connection is to be closed or has lost its place. -/
def settle (head : RequestHead) (framing : Framing) (s : Session ω) : Step × Session ω :=
  if server.closes head || isLeftOver framing s.link then
    (.finished (.ok ()), { s with link := s.link.shutdown })
  else (.proceed, s)

/-- Carries out an exchange for a request that was understood. -/
def exchange (head : RequestHead) (framing : Framing) (x : Exchange) (s : Session ω) :
    Step × Session ω :=
  match server.respond head framing s.seen (s.link.expect framing server.config.readBufferSize) with
  | (none, seen, link) => (.finished .stuck, { s with link, seen })
  | (some r, seen, l) =>
    match r.send x head.method (server.closes head) server.config.bodyIdleTimeout l with
    | (.stuck, _, link) => (.finished .stuck, { s with link, seen })
    | (.error e, _, link) => (.finished (.error e), ⟨link, s.counters.abort, seen⟩)
    | (.ok (), _, link) => server.settle head framing ⟨link, s.counters.complete, seen⟩

/-- Answers a request of which the head was read. No response can be given to one that is not
understood. -/
def answer (head : Bytes) (s : Session ω) : Step × Session ω :=
  match RequestHead.parse head with
  | .error e => (.finished (.error (.parse e)), s.issue.abort)
  | .ok head => match Framing.ofRequest head with
    | .error e => (.finished (.error (.body (.wire e))), s.issue.abort)
    | .ok framing => server.exchange head framing s.exchange s.issue

variable {server}

theorem weight_respond {head framing seen l out seen' l'}
    (eq : server.respond head framing seen l = (out, seen', l')) : l'.weight ≤ l.weight := by
  unfold respond at eq
  split at eq
  · cases eq
    exact Nat.le_refl _
  · split at eq <;> next ran =>
      cases eq
      exact Program.weight_run ran

theorem weight_settle {head framing} {s s' : Session ω} {step}
    (eq : server.settle head framing s = (step, s')) : s'.link.weight = s.link.weight := by
  unfold settle at eq
  split at eq <;> cases eq <;> rfl

theorem weight_exchange {head framing x} {s s' : Session ω} {step}
    (eq : server.exchange head framing x s = (step, s')) : s'.link.weight ≤ s.link.weight := by
  unfold exchange at eq
  split at eq
  · next responded =>
    have := weight_respond responded
    cases eq
    exact this
  · next responded =>
    have before := weight_respond responded
    split at eq
    · next sent => cases eq; exact Nat.le_trans (Response.weight_send sent) before
    · next sent => cases eq; exact Nat.le_trans (Response.weight_send sent) before
    · next sent =>
      exact Nat.le_trans (Nat.le_of_eq (weight_settle eq))
        (Nat.le_trans (Response.weight_send sent) before)

theorem weight_answer {head : Bytes} {s s' : Session ω} {step}
    (eq : server.answer head s = (step, s')) : s'.link.weight ≤ s.link.weight := by
  unfold answer at eq
  split at eq
  · cases eq
    exact Nat.le_refl _
  · split at eq
    · cases eq
      exact Nat.le_refl _
    · have := weight_exchange eq
      exact this

variable (server)

def serve (s : Session ω) : Outcome ServerError Unit × Session ω :=
  match _read : s.link.readHead server.config.maxHeadSize with
  | (.ok none, link) => (.ok (), { s with link })
  | (.error e, link) => (.error (.body (.wire e)), { s with link }.abort)
  | (.stuck, link) => (.stuck, { s with link })
  | (.ok (some head), link) => match _answered : server.answer head { s with link } with
    | (.finished result, s) => (result, s)
    | (.proceed, s) => serve s
termination_by s.link.weight
decreasing_by
  exact Nat.lt_of_le_of_lt (weight_answer _answered) ((Link.weight_readHead _read).2 _ rfl)

end Server

end HttpExchange
