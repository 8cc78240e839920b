import HttpExchange.Proofs.Server.Likeness

/-!
How the transport cuts the input makes no difference to a server. What it writes, what it counts,
what it comes to and what each handler gets to see follow from the bytes, not from the segments that
they arrive in.
-/

namespace HttpExchange

variable {ω : Type}

/-- A reader in front of segments, with what happens behind them. -/
def Reader.cut (capacity : Nat) (segments : List Bytes) (tail : List Arrival) : Reader :=
  { arrivals := segments.map .bytes ++ tail, capacity }

theorem Reader.alike_cut {capacity : Nat} (room : 0 < capacity) {one other : List Bytes}
    (same : one.flatten = other.flatten) (tail : List Arrival) :
    (Reader.cut capacity one tail).Alike (Reader.cut capacity other tail) := by
  refine (holds_segments room one tail).alike ?_
  rw [same]
  exact holds_segments room other tail

/-- Something that a handler gets to see: its request, with the head, and each answer to a read of
the body. -/
inductive Sighting where
  | request (r : Request)
  | piece (answer : Except BodyError Piece)
  | whole (answer : Except BodyError Bytes)

/-- The same program, which notes what it gets to see and nothing else. -/
def Program.watched : Program ω → Program Sighting
  | respond response => .respond response
  | fail e => .fail e
  | panic => .panic
  | note _ rest => rest.watched
  | pause ms rest => .pause ms rest.watched
  | pull rest => .pull fun answer => .note (.piece answer) (rest answer).watched
  | collect rest => .collect fun answer => .note (.whole answer) (rest answer).watched

def Route.watched (route : Route (Handler ω)) : Route (Handler Sighting) :=
  ⟨route.method, route.template, fun r => .note (.request r) (route.handler r).watched⟩

def Server.watched (server : Server ω) : Server Sighting :=
  ⟨server.config, ⟨server.routes.routes.map Route.watched⟩⟩

/-- What the handlers of a server get to see on a connection, the last first. -/
def Server.sightings (server : Server ω) (l : Link) (counters : Counters) : List Sighting :=
  (server.watched.serve { link := l, counters }).2.seen

theorem Program.run_watched {program : Program ω} {seen seen₁ : List ω} {l l₁ : Link}
    {verdict : Verdict} (eq : program.run seen l = (verdict, seen₁, l₁)) (noted : List Sighting) :
    ∃ noted₁, program.watched.run noted l = (verdict, noted₁, l₁) := by
  induction program generalizing seen l noted with
  | respond | fail | panic =>
      cases eq
      exact ⟨noted, rfl⟩
  | note what rest ih => exact ih eq noted
  | pause ms rest ih =>
      rcases waited : l.waitUntil (l.clock.now + ms) with ⟨awake, l₂⟩
      rw [run, waited] at eq
      rw [watched, run, waited]
      cases awake with
      | true => exact ih eq noted
      | false =>
          cases eq
          exact ⟨noted, rfl⟩
  | pull rest ih =>
      rcases read : l.readPiece with ⟨answer, l₂⟩
      rw [run, read] at eq
      rw [watched, run, read]
      cases answer with
      | ok piece => exact ih _ eq _
      | error e => exact ih _ eq _
      | stuck =>
          cases eq
          exact ⟨noted, rfl⟩
  | collect rest ih =>
      rcases read : Producer.incoming.collect l with ⟨answer, l₂⟩
      rw [run, read] at eq
      rw [watched, run, read]
      cases answer with
      | ok b => exact ih _ eq _
      | error e => exact ih _ eq _
      | stuck =>
          cases eq
          exact ⟨noted, rfl⟩

theorem Server.find?_watched (server : Server ω) (method : Method) (path : String) :
    server.watched.routes.find? method path = (server.routes.find? method path).map fun answer =>
      (fun r => .note (.request r) (answer.1 r).watched, answer.2) := by
  have each : ∀ route : Route (Handler ω), RouteTable.answer? method path route.watched =
      (RouteTable.answer? method path route).map fun answer =>
        (fun r => .note (.request r) (answer.1 r).watched, answer.2) := by
    intro route
    unfold RouteTable.answer? Route.watched
    by_cases same : route.method = method
    · simp only [if_pos same, Option.map_map]
      rfl
    · simp only [if_neg same, Option.map_none]
  rw [RouteTable.find?, RouteTable.find?, watched]
  induction server.routes.routes with
  | nil => rfl
  | cons route routes ih =>
      rw [List.map_cons, List.findSome?_cons, List.findSome?_cons, each]
      cases RouteTable.answer? method path route with
      | none => exact ih
      | some answer => rfl

namespace Server

variable {server : Server ω} {s s₁ : Session ω} {t t₁ : Session Sighting} {l l₁ : Link}
  {head : RequestHead} {framing : Framing} {step : Step}

theorem config_watched (server : Server ω) : server.watched.config = server.config := rfl

theorem closes_watched (server : Server ω) (head : RequestHead) :
    server.watched.closes head = server.closes head := rfl

theorem respond_watched {seen seen₁ : List ω} {out : Option Response}
    (eq : server.respond head framing seen l = (out, seen₁, l₁)) (noted : List Sighting) :
    ∃ noted₁, server.watched.respond head framing noted l = (out, noted₁, l₁) := by
  unfold respond at eq ⊢
  rw [find?_watched]
  rcases found : server.routes.find? head.method head.path with _ | ⟨handler, parameters⟩
  · rw [found] at eq
    cases eq
    exact ⟨noted, rfl⟩
  · rcases ran : (handler ⟨head, parameters, Request.bodyOf framing⟩).run seen l with
      ⟨verdict, seen₂, l₂⟩
    let request : Request := ⟨head, parameters, Request.bodyOf framing⟩
    obtain ⟨noted₁, ran'⟩ := Program.run_watched ran (.request request :: noted)
    have same : (Program.note (.request request) (handler request).watched).run noted l =
        (verdict, noted₁, l₂) := ran'
    rw [found] at eq
    simp only [ran] at eq
    simp only [Option.map_some]
    rw [same]
    cases verdict with
    | response r | failed e | panicked | stuck =>
        cases eq
        exact ⟨noted₁, rfl⟩

/-- The sessions differ in nothing but what was noted. -/
structure Watches (t : Session Sighting) (s : Session ω) : Prop where
  link : t.link = s.link
  counters : t.counters = s.counters

theorem exchange_watched {x : Exchange} (watches : Watches t s)
    (eq : server.exchange head framing x s = (step, s₁)) :
    ∃ t₁, server.watched.exchange head framing x t = (step, t₁) ∧ Watches t₁ s₁ := by
  obtain ⟨link, counters, noted⟩ := t
  obtain ⟨rfl, rfl⟩ := watches
  rcases responded : server.respond head framing s.seen
    (s.link.expect framing server.config.readBufferSize) with ⟨out, seen, l⟩
  obtain ⟨noted₁, responded'⟩ := respond_watched responded noted
  unfold exchange at eq ⊢
  rw [responded] at eq
  rw [config_watched, closes_watched, responded']
  cases out with
  | none =>
      cases eq
      exact ⟨_, rfl, rfl, rfl⟩
  | some r =>
      rcases sent : r.send x head.method (server.closes head) server.config.bodyIdleTimeout l with
        ⟨answer, x₁, l₂⟩
      simp only [sent] at eq ⊢
      rcases answer with _ | e | _
      · simp only [settle] at eq ⊢
        rw [closes_watched]
        split at eq
        · next ends =>
            rw [if_pos ends]
            cases eq
            exact ⟨_, rfl, rfl, rfl⟩
        · next goes =>
            rw [if_neg goes]
            cases eq
            exact ⟨_, rfl, rfl, rfl⟩
      · cases eq
        exact ⟨_, rfl, rfl, rfl⟩
      · cases eq
        exact ⟨_, rfl, rfl, rfl⟩

theorem answer_watched {bytes : Bytes} (watches : Watches t s)
    (eq : server.answer bytes s = (step, s₁)) :
    ∃ t₁, server.watched.answer bytes t = (step, t₁) ∧ Watches t₁ s₁ := by
  have issued : Watches t.issue s.issue :=
    ⟨watches.link, congrArg Counters.issue watches.counters⟩
  have aborted : Watches t.issue.abort s.issue.abort :=
    ⟨congrArg Link.shutdown watches.link, congrArg Counters.abort issued.counters⟩
  have number : t.exchange = s.exchange := by
    rw [Session.exchange, Session.exchange, watches.counters]
  unfold answer at eq ⊢
  cases parsed : RequestHead.parse bytes with
  | error e =>
      rw [parsed] at eq
      cases eq
      exact ⟨_, rfl, aborted⟩
  | ok head =>
      rw [parsed] at eq
      cases framed : Framing.ofRequest head with
      | error e =>
          simp only [framed] at eq ⊢
          cases eq
          exact ⟨_, rfl, aborted⟩
      | ok framing =>
          simp only [framed] at eq ⊢
          rw [number]
          exact exchange_watched issued eq

/-- A server that is watched does what it does otherwise. -/
theorem serve_watched {out : Outcome ServerError Unit} (watches : Watches t s)
    (eq : server.serve s = (out, s₁)) :
    ∃ t₁, server.watched.serve t = (out, t₁) ∧ Watches t₁ s₁ := by
  fun_induction serve server s generalizing t with
  | case1 s link read | case3 s link read =>
      cases eq
      rw [serve_eq, watches.link, config_watched, read]
      exact ⟨_, rfl, rfl, watches.counters⟩
  | case2 s e link read =>
      cases eq
      rw [serve_eq, watches.link, config_watched, read]
      exact ⟨_, rfl, rfl, congrArg Counters.abort watches.counters⟩
  | case4 s head link read result s₂ answered =>
      have later : Watches { t with link } { s with link } := ⟨rfl, watches.counters⟩
      obtain ⟨t₂, answered', watches₂⟩ := answer_watched later answered
      cases eq
      refine ⟨t₂, ?_, watches₂⟩
      rw [serve_eq, watches.link, config_watched, read]
      simp only [answered']
  | case5 s head link read s₂ answered ih =>
      have later : Watches { t with link } { s with link } := ⟨rfl, watches.counters⟩
      obtain ⟨t₂, answered', watches₂⟩ := answer_watched later answered
      obtain ⟨t₁, rest, watches₁⟩ := ih watches₂ eq
      refine ⟨t₁, ?_, watches₁⟩
      rw [serve_eq, watches.link, config_watched, read]
      simp only [answered']
      exact rest

/-- However the same bytes are cut into segments, a server serves them alike. It comes to the same,
with the same bytes written by the same calls, the same counts and the same notes of its handlers;
and these get to see the same requests and the same pieces of their bodies. -/
theorem serve_segmented (server : Server ω) (room : 0 < server.config.readBufferSize)
    {one other : List Bytes} (same : one.flatten = other.flatten) (tail : List Arrival)
    (clock : Clock) (writer : Writer) (counters : Counters) (seen : List ω) :
    let link (segments : List Bytes) : Link :=
      { clock, reader := .cut server.config.readBufferSize segments tail, writer }
    let served (segments : List Bytes) := server.serve { link := link segments, counters, seen }
    (served one).1 = (served other).1 ∧
      (served one).2.link.writer = (served other).2.link.writer ∧
      (served one).2.link.clock = (served other).2.link.clock ∧
      (served one).2.counters = (served other).2.counters ∧
      (served one).2.seen = (served other).2.seen ∧
      server.sightings (link one) counters = server.sightings (link other) counters := by
  intro link served
  have alike : Link.Alike Eq (link one) (link other) :=
    ⟨rfl, Reader.alike_cut room same tail, rfl⟩
  have serves : ∀ {α : Type} (server : Server α) (seen : List α),
      ∃ s', server.serve { link := link other, counters, seen } =
          ((server.serve { link := link one, counters, seen }).1, s') ∧
        Link.Alike Eq (server.serve { link := link one, counters, seen }).2.link s'.link ∧
        s'.counters = (server.serve { link := link one, counters, seen }).2.counters ∧
        s'.seen = (server.serve { link := link one, counters, seen }).2.seen := by
    intro α server seen
    have here : Session.Later {} [] { link := link one, counters, seen }
        { link := link other, counters, seen } :=
      ⟨(Counters.zero_behind counters).symm, (List.append_nil seen).symm⟩
    obtain ⟨s', served, alike', later⟩ := serve_alike (s := { link := link one, counters, seen })
      Writer.likeness_eq alike here rfl
    refine ⟨s', ?_, alike', ?_, ?_⟩
    · rw [served, ServerError.mapError_later_zero]
    · rw [later.counters, Counters.zero_behind]
    · rw [later.seen, List.append_nil]
  obtain ⟨s', eq, alike', counts, notes⟩ := serves server seen
  obtain ⟨t', eq', _, _, sights⟩ := serves server.watched []
  refine ⟨(congrArg Prod.fst eq).symm, ?_, ?_, ?_, ?_, ?_⟩
  · exact alike'.writer.trans (congrArg (·.2.link.writer) eq).symm
  · exact alike'.clock.symm.trans (congrArg (·.2.link.clock) eq).symm
  · exact counts.symm.trans (congrArg (·.2.counters) eq).symm
  · exact notes.symm.trans (congrArg (·.2.seen) eq).symm
  · exact sights.symm.trans (congrArg (·.2.seen) eq').symm

/-- A head and a body in two chunks, once in one segment and once byte by byte. -/
theorem serve_segmented_bytewise :
    let echo : Handler Unit := fun _ => .collect fun read => match read with
      | .ok b => .respond { status := .ok, body := .ofBytes b }
      | .error _ => .panic
    let server : Server Unit :=
      { config := { readBufferSize := 3 }, routes := ⟨[⟨.post, ⟨"/", [.literal ""]⟩, echo⟩]⟩ }
    let head := Utf8.encode "POST / HTTP/1.0\r\nTransfer-Encoding: chunked\r\n\r\n"
    let message := head ++ Utf8.encode "2\r\nhi\r\n1\r\n!\r\n0\r\n\r\n"
    let served (segments : List Bytes) := server.serve {
      link := { clock := { limit := 0 }, reader := .cut 3 segments [], writer := {} }
      counters := {} }
    (served [message]).1 = .ok () ∧ (served [message]).2.counters.completed = 1 ∧
      (served [message]).2.link.writer = (served (message.map ([·]))).2.link.writer := by
  intro echo server head message served
  have same : [message].flatten = (message.map ([·])).flatten := by
    rw [List.flatten_singleton, ← List.flatMap_def, List.flatMap_singleton']
  have alike := serve_segmented server (by decide) same [] { limit := 0 } {} {} []
  have completes : (served [message]).1 = .ok () ∧ (served [message]).2.counters.completed = 1 := by
    dsimp only [served, server, echo, message, head]
    decide +kernel
  exact ⟨completes.1, completes.2, alike.2.1⟩

end Server

end HttpExchange
