import HttpExchange.Proofs.Server.Account
import HttpExchange.Proofs.Server.Likeness

/-!
A connection that is served turn by turn. A turn goes up to the next touch of the counters, which are
all that the connections of a server have in common; a connection adds to them, and learns from them
only what number its next exchange has. Turn by turn a connection comes to what it comes to at once,
and another number changes nothing but the number in an error.
-/

namespace HttpExchange

variable {ω : Type}

inductive Effect where
  | none | issue | complete | abort
  deriving DecidableEq, Repr

def Effect.on : Effect → Counters → Counters
  | none, c => c
  | issue, c => c.issue
  | complete, c => c.complete
  | abort, c => c.abort

/-- Where a connection stands between two turns. -/
inductive Place where
  /-- In front of a head. -/
  | waiting
  /-- Behind a head that has no number yet. -/
  | begun (head : Bytes)
  | numbered (head : Bytes) (x : Exchange)
  /-- The handler has come to a response. -/
  | answered (request : RequestHead) (framing : Framing) (x : Exchange) (r : Response)
  /-- The response is sent, and not counted yet. -/
  | sent (request : RequestHead) (framing : Framing)
  | counted (request : RequestHead) (framing : Framing)
  /-- An error came, and was not counted yet. -/
  | failing (e : ServerError)
  | returned (result : Outcome ServerError Unit)
  deriving DecidableEq, Repr

structure Connection (ω : Type) where
  link : Link
  /-- What this connection has added to the counters of its server. -/
  counts : Counters := {}
  /-- What its handlers noted, the last first. -/
  seen : List ω := []
  /-- The numbers of its exchanges, the last first. -/
  numbers : List Nat := []
  place : Place := .waiting

def Connection.session (c : Connection ω) : Session ω := ⟨c.link, c.counts, c.seen⟩

namespace Server

variable (server : Server ω)

/-- What one turn does, where the next exchange of the server gets this number. -/
def turn (number : Nat) (c : Connection ω) : Effect × Connection ω :=
  match c.place with
  | .waiting => match c.link.readHead server.config.maxHeadSize with
    | (.ok none, link) => (.none, { c with link, place := .returned (.ok ()) })
    | (.error e, link) =>
      (.none, { c with link := link.shutdown, place := .failing (.body (.wire e)) })
    | (.stuck, link) => (.none, { c with link, place := .returned .stuck })
    | (.ok (some head), link) => (.none, { c with link, place := .begun head })
  | .begun head =>
    (.issue, { c with numbers := number :: c.numbers, place := .numbered head { id := number } })
  | .numbered head x => match RequestHead.parse head with
    | .error e => (.none, { c with link := c.link.shutdown, place := .failing (.parse e) })
    | .ok request => match Framing.ofRequest request with
      | .error e =>
        (.none, { c with link := c.link.shutdown, place := .failing (.body (.wire e)) })
      | .ok framing =>
        match server.respond request framing c.seen
          (c.link.expect framing server.config.readBufferSize) with
        | (none, seen, link) => (.none, { c with link, seen, place := .returned .stuck })
        | (some r, seen, link) =>
          (.none, { c with link, seen, place := .answered request framing x r })
  | .answered request framing x r =>
    match r.send x request.method (server.closes request) server.config.bodyIdleTimeout c.link with
    | (.stuck, _, link) => (.none, { c with link, place := .returned .stuck })
    | (.error e, _, link) => (.none, { c with link, place := .failing e })
    | (.ok (), _, link) => (.none, { c with link, place := .sent request framing })
  | .sent request framing => (.complete, { c with place := .counted request framing })
  | .counted request framing =>
    if server.closes request || isLeftOver framing c.link then
      (.none, { c with link := c.link.shutdown, place := .returned (.ok ()) })
    else (.none, { c with place := .waiting })
  | .failing e => (.abort, { c with place := .returned (.error e) })
  | .returned _ => (.none, c)

def advance (number : Nat) (c : Connection ω) : Connection ω :=
  let (effect, c') := server.turn number c
  { c' with counts := effect.on c.counts }

def conclude : Step × Session ω → Outcome ServerError Unit × Session ω
  | (.finished result, s) => (result, s)
  | (.proceed, s) => server.serve s

/-- Answers a request of which the head was read, in an exchange that has its number. -/
def understand (head : Bytes) (x : Exchange) (s : Session ω) : Step × Session ω :=
  match RequestHead.parse head with
  | .error e => (.finished (.error (.parse e)), s.abort)
  | .ok request => match Framing.ofRequest request with
    | .error e => (.finished (.error (.body (.wire e))), s.abort)
    | .ok framing => server.exchange request framing x s

def reply (request : RequestHead) (framing : Framing) (x : Exchange) (r : Response)
    (s : Session ω) : Step × Session ω :=
  match r.send x request.method (server.closes request) server.config.bodyIdleTimeout s.link with
  | (.stuck, _, link) => (.finished .stuck, { s with link })
  | (.error e, _, link) => (.finished (.error e), ⟨link, s.counters.abort, s.seen⟩)
  | (.ok (), _, link) => server.settle request framing ⟨link, s.counters.complete, s.seen⟩

/-- What a connection comes to from where it stands. -/
def rest (c : Connection ω) : Outcome ServerError Unit × Session ω :=
  match c.place with
  | .waiting => server.serve c.session
  | .begun head => server.conclude (server.answer head c.session)
  | .numbered head x => server.conclude (server.understand head x c.session)
  | .answered request framing x r => server.conclude (server.reply request framing x r c.session)
  | .sent request framing =>
    server.conclude (server.settle request framing ⟨c.link, c.counts.complete, c.seen⟩)
  | .counted request framing => server.conclude (server.settle request framing c.session)
  | .failing e => (.error e, ⟨c.link, c.counts.abort, c.seen⟩)
  | .returned result => (result, c.session)

variable {server} {s s' : Session ω} {head : Bytes} {request : RequestHead} {framing : Framing}
  {x x' : Exchange} {r : Response}

theorem serve_conclude (server : Server ω) (s : Session ω) :
    server.serve s = match s.link.readHead server.config.maxHeadSize with
      | (.ok none, link) => (.ok (), { s with link })
      | (.error e, link) => (.error (.body (.wire e)), { s with link }.abort)
      | (.stuck, link) => (.stuck, { s with link })
      | (.ok (some head), link) => server.conclude (server.answer head { s with link }) := by
  rw [serve_eq]
  rcases s.link.readHead server.config.maxHeadSize with ⟨(_ | head) | e | _, link⟩
  · rfl
  · simp only
    rcases server.answer head { s with link } with ⟨_ | result, s₁⟩ <;> rfl
  · rfl
  · rfl

theorem answer_eq (server : Server ω) (head : Bytes) (s : Session ω) :
    server.answer head s = server.understand head s.exchange s.issue := rfl

theorem exchange_eq (server : Server ω) (request : RequestHead) (framing : Framing) (x : Exchange)
    (s : Session ω) :
    server.exchange request framing x s =
      match server.respond request framing s.seen
        (s.link.expect framing server.config.readBufferSize) with
      | (none, seen, link) => (.finished .stuck, { s with link, seen })
      | (some r, seen, link) => server.reply request framing x r ⟨link, s.counters, seen⟩ := by
  rw [exchange]
  rcases server.respond request framing s.seen
    (s.link.expect framing server.config.readBufferSize) with ⟨_ | r, seen, link⟩
  · rfl
  · rfl

theorem rest_advance_own (server : Server ω) (c : Connection ω) :
    server.rest (server.advance (c.counts.issued + 1) c) = server.rest c := by
  obtain ⟨link, counts, seen, numbers, place⟩ := c
  cases place with
  | waiting =>
      rcases read : link.readHead server.config.maxHeadSize with ⟨(_ | head) | e | _, l⟩
      all_goals
        simp only [rest, advance, turn, read, Connection.session]
        rw [serve_conclude]
        simp only [read]
        rfl
  | begun head => exact congrArg server.conclude (server.answer_eq head ⟨link, counts, seen⟩).symm
  | numbered head x =>
      cases parsed : RequestHead.parse head with
      | error e =>
          simp only [rest, advance, turn, parsed, Connection.session, understand]
          rfl
      | ok request =>
          cases framed : Framing.ofRequest request with
          | error e =>
              simp only [rest, advance, turn, parsed, framed, Connection.session, understand]
              rfl
          | ok framing =>
              rcases responded : server.respond request framing seen
                (link.expect framing server.config.readBufferSize) with ⟨_ | r, noted, l⟩
              all_goals
                simp only [rest, advance, turn, parsed, framed, responded, Connection.session,
                  understand, exchange_eq]
                rfl
  | answered request framing x r =>
      rcases sent : r.send x request.method (server.closes request) server.config.bodyIdleTimeout
        link with ⟨_ | e | _, x', l⟩
      all_goals
        simp only [rest, advance, turn, sent, Connection.session, reply]
        rfl
  | sent request framing => rfl
  | counted request framing =>
      by_cases ends : (server.closes request || isLeftOver framing link) = true
      all_goals
        simp only [rest, advance, turn, ends, Connection.session, settle]
        rfl
  | failing e => rfl
  | returned result => rfl

end Server

def ServerError.unnumbered : ServerError → ServerError
  | aborted _ e => aborted 0 e
  | e => e

def Outcome.unnumbered (out : Outcome ServerError Unit) : Outcome ServerError Unit :=
  out.mapError .unnumbered

namespace Response

/-- Only in the error does a response show the number of its exchange. -/
theorem send_renumbered (r : Response) (x x' : Exchange) (method : Method) (close : Bool)
    (idle : Option Nat) (l : Link) :
    (r.send x' method close idle l).1.unnumbered = (r.send x method close idle l).1.unnumbered ∧
      (r.send x' method close idle l).2.2 = (r.send x method close idle l).2.2 := by
  unfold send
  rcases l.send (r.head close) with ⟨_ | e | _, l₁⟩
  · simp only
    rcases (r.strip method).deliver idle l₁ with ⟨_ | e | _, d, l₂⟩ <;> exact ⟨rfl, rfl⟩
  · exact ⟨rfl, rfl⟩
  · exact ⟨rfl, rfl⟩

end Response

namespace Server

/-- The two ways on differ in the number in an error at most. -/
def Step.Renumbered : Step × Session ω → Step × Session ω → Prop
  | (.proceed, s), (.proceed, s') => s = s'
  | (.finished out, s), (.finished out', s') => out.unnumbered = out'.unnumbered ∧ s = s'
  | _, _ => False

theorem Step.Renumbered.refl (way : Step × Session ω) : Renumbered way way := by
  obtain ⟨_ | result, s⟩ := way
  · exact rfl
  · exact ⟨rfl, rfl⟩

theorem reply_renumbered (server : Server ω) (request : RequestHead) (framing : Framing)
    (x x' : Exchange) (r : Response) (s : Session ω) :
    Step.Renumbered (server.reply request framing x' r s) (server.reply request framing x r s) := by
  obtain ⟨out, link⟩ := r.send_renumbered x x' request.method (server.closes request)
    server.config.bodyIdleTimeout s.link
  unfold reply
  rcases sent : r.send x request.method (server.closes request) server.config.bodyIdleTimeout s.link
    with ⟨a, y, l⟩
  rcases sent' : r.send x' request.method (server.closes request) server.config.bodyIdleTimeout
    s.link with ⟨a', y', l'⟩
  rw [sent, sent'] at out link
  obtain rfl : l' = l := link
  rcases a with _ | e | _ <;> rcases a' with _ | e' | _ <;> first | cases out | skip
  · exact .refl _
  · exact ⟨out, rfl⟩
  · exact .refl _

theorem understand_renumbered (server : Server ω) (head : Bytes) (x x' : Exchange) (s : Session ω) :
    Step.Renumbered (server.understand head x' s) (server.understand head x s) := by
  unfold understand
  cases RequestHead.parse head with
  | error e => exact .refl _
  | ok request =>
      simp only
      cases Framing.ofRequest request with
      | error e => exact .refl _
      | ok framing =>
          simp only [exchange_eq]
          rcases server.respond request framing s.seen
            (s.link.expect framing server.config.readBufferSize) with ⟨_ | r, seen, link⟩
          · exact .refl _
          · exact reply_renumbered server request framing x x' r _

theorem conclude_renumbered (server : Server ω) {way way' : Step × Session ω}
    (same : Step.Renumbered way way') :
    (server.conclude way).1.unnumbered = (server.conclude way').1.unnumbered ∧
      (server.conclude way).2 = (server.conclude way').2 := by
  obtain ⟨_ | result, s⟩ := way <;> obtain ⟨_ | result', s'⟩ := way'
  · cases same
    exact ⟨rfl, rfl⟩
  · cases same
  · cases same
  · exact same

/-- A turn takes off what is left to do, whatever number there is for the exchange. -/
theorem rest_advance (server : Server ω) (number : Nat) (c : Connection ω) :
    (server.rest (server.advance number c)).1.unnumbered = (server.rest c).1.unnumbered ∧
      (server.rest (server.advance number c)).2 = (server.rest c).2 := by
  have own := server.rest_advance_own c
  obtain ⟨link, counts, seen, numbers, place⟩ := c
  cases place with
  | begun head =>
      exact server.conclude_renumbered (server.understand_renumbered head _ { id := number } _)
  | waiting | numbered | answered | sent | counted | failing | returned =>
      -- no other turn looks at the number
      exact ⟨congrArg (·.1.unnumbered) own, congrArg (·.2) own⟩

end Server

/-- How many turns an exchange takes from a place on, at most. -/
def Place.left : Place → Nat
  | .begun _ => 7
  | .numbered _ _ => 6
  | .answered _ _ _ _ => 5
  | .sent _ _ => 4
  | .counted _ _ => 3
  | .waiting => 2
  | .failing _ => 1
  | .returned _ => 0

/-- A bound on the turns of a connection: a further head takes something off the input. -/
def Connection.left (c : Connection ω) : Nat := 6 * c.link.weight + c.place.left

/-- Nothing is left to do, and there is a result. -/
def Connection.Returned (c : Connection ω) : Prop := ∃ result, c.place = .returned result

namespace Server

theorem left_advance (server : Server ω) (number : Nat) {c : Connection ω} (on : ¬ c.Returned) :
    (server.advance number c).left < c.left := by
  obtain ⟨link, counts, seen, numbers, place⟩ := c
  cases place with
  | waiting =>
      rcases read : link.readHead server.config.maxHeadSize with ⟨(_ | head) | e | _, l⟩
      all_goals
        have weight := Link.weight_readHead read
        simp only [Connection.left, advance, turn, read, Place.left, Link.weight_shutdown]
      · omega
      · have := weight.2 head rfl
        omega
      · omega
      · omega
  | begun head =>
      simp only [Connection.left, advance, turn, Place.left]
      omega
  | numbered head x =>
      cases parsed : RequestHead.parse head with
      | error e =>
          simp only [Connection.left, advance, turn, parsed, Place.left, Link.weight_shutdown]
          omega
      | ok request =>
          cases framed : Framing.ofRequest request with
          | error e =>
              simp only [Connection.left, advance, turn, parsed, framed, Place.left,
                Link.weight_shutdown]
              omega
          | ok framing =>
              rcases responded : server.respond request framing seen
                (link.expect framing server.config.readBufferSize) with ⟨_ | r, noted, l⟩
              all_goals
                have weight := weight_respond responded
                rw [Link.weight_expect] at weight
                simp only [Connection.left, advance, turn, parsed, framed, responded, Place.left]
                omega
  | answered request framing x r =>
      rcases sent : r.send x request.method (server.closes request) server.config.bodyIdleTimeout
        link with ⟨_ | e | _, x', l⟩
      all_goals
        have weight := Response.weight_send sent
        simp only [Connection.left, advance, turn, sent, Place.left]
        omega
  | sent request framing =>
      simp only [Connection.left, advance, turn, Place.left]
      omega
  | counted request framing =>
      by_cases ends : (server.closes request || isLeftOver framing link) = true
      all_goals
        simp only [Connection.left, advance, turn, ends, Place.left, Link.weight_shutdown, if_true,
          Bool.false_eq_true, if_false]
        omega
  | failing e =>
      simp only [Connection.left, advance, turn, Place.left]
      omega
  | returned result => exact absurd ⟨result, rfl⟩ on

def turns (server : Server ω) : Nat → Connection ω → Connection ω
  | 0, c => c
  | n + 1, c => server.turns n (server.advance (c.counts.issued + 1) c)

theorem turns_rest (server : Server ω) (c : Connection ω) :
    ∃ n, (server.turns n c).place = .returned (server.rest c).1 ∧
      (server.turns n c).session = (server.rest c).2 := by
  induction size : c.left using Nat.strongRecOn generalizing c with
  | ind n ih =>
      subst size
      by_cases ended : c.Returned
      · obtain ⟨result, place⟩ := ended
        have none : server.rest c = (result, c.session) := by
          rw [rest, place]
        exact ⟨0, by rw [none]; exact place, by rw [none]; rfl⟩
      · obtain ⟨n, returned⟩ := ih _ (server.left_advance _ ended) _ rfl
        rw [rest_advance_own] at returned
        exact ⟨n + 1, returned⟩

/-- Turn by turn a connection comes to what it comes to at once. -/
theorem serve_turns (server : Server ω) (s : Session ω) :
    ∃ n, let c : Connection ω :=
        server.turns n { link := s.link, counts := s.counters, seen := s.seen }
      c.place = .returned (server.serve s).1 ∧ c.session = (server.serve s).2 :=
  server.turns_rest { link := s.link, counts := s.counters, seen := s.seen }

end Server

end HttpExchange
