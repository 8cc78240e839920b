import HttpExchange.Proofs.Body.Lateness
import HttpExchange.Proofs.Server.Closing
import HttpExchange.Proofs.Server.RoundTrip
import HttpExchange.Proofs.Server.Segmentation
import HttpExchange.Proofs.Server.Timing

/-!
Requests that no handler answers: there is none for them, or it fails before it has a response. The
server answers with a status of its own and without a body. Unless the flush behind the head is
overdue, the exchange completes, and whether the connection goes on depends on how far the body of
the request was read, as behind any response.
-/

namespace HttpExchange

namespace Response

variable {r : Response} {l l₁ : Link} {method : Method} {close : Bool} {idle : Option Nat}
  {enough : Nat}

theorem strip_body (bare : r.body = {}) (method : Method) : (r.strip method).body = {} := by
  rw [strip]
  split
  · rfl
  · exact bare

/-- A response without a body is sent whole, and nothing is read for it, where the flush behind its
head is over in time. -/
theorem send_bare (id : Nat) (method : Method) (bare : r.body = {})
    (willing : l.writer.rule.Willing) (sends : l.SendsBy (r.head close) enough l₁)
    (inTime : l₁.FlushesInTime idle) :
    ∃ (moment : Nat) (l' : Link), l.Still l' ∧ l.writer.StaysOpen l'.writer ∧
      l'.writer.output = l.writer.output ++ r.head close ∧ ∀ limit, moment ≤ limit →
        r.send { id } method close idle (l.limited limit) =
          (.ok (), { id, phase := .completed }, l'.limited limit) := by
  obtain ⟨part, first, whole, _⟩ := Delivery.put_send (sends enough (Nat.le_refl _))
  cases whole rfl
  have rule := Delivery.rule_of_sendsBy sends
  obtain ⟨later, l₂, second, runs⟩ := Delivery.run_nothing_willing (rule ▸ willing) inTime
  have stripped := strip_body bare method
  have fresh : (r.strip method).body.consumed = false := by rw [stripped]
  have completes : ∀ limit, max enough later ≤ limit →
      r.send { id } method close idle (l.limited limit) =
        (.ok (), { id, phase := .completed }, l₂.limited limit) := by
    intro limit late
    obtain ⟨d, ran⟩ := runs limit (by omega)
    have delivered : (r.strip method).deliver idle (l₁.limited limit) =
        (.ok 0, d, l₂.limited limit) := by
      rw [deliver_fresh fresh, stripped]
      exact ran
    exact send_of_delivered id (sends limit (by omega)) delivered
  refine ⟨max enough later, l₂, ⟨second.body.trans first.body, second.reader.trans first.reader⟩,
    (trace_send (completes _ (Nat.le_refl _))).2 rfl, ?_, completes⟩
  have output : l₂.writer.output = l₁.writer.output ++ [] := second.output
  rw [output, List.append_nil]
  exact first.output

/-- Where the flush behind the head of a response takes as long as the idle timeout, the head is all
that is sent, whatever body there is. -/
theorem send_overdue (x : Exchange) (method : Method)
    (fresh : (r.strip method).body.consumed = false) (willing : l.writer.rule.Willing)
    (sends : l.SendsBy (r.head close) enough l₁) (late : ¬ l₁.FlushesInTime idle) :
    ∃ moment, ∀ limit, moment ≤ limit → ∃ x' l', r.send x method close idle (l.limited limit) =
        (.error (.aborted x.id (.cancelled true)), x', l') ∧
      l'.writer.output = l.writer.output ++ r.head close := by
  obtain ⟨part, put, whole, _⟩ := Delivery.put_send (sends enough (Nat.le_refl _))
  cases whole rfl
  have rule := Delivery.rule_of_sendsBy sends
  obtain ⟨later, runs⟩ := Delivery.run_overdue (rule ▸ willing) late (r.strip method).body.framing
    (r.strip method).body.producer
  refine ⟨max enough later, fun limit given => ?_⟩
  obtain ⟨d, l₂, ran, output⟩ := runs limit (by omega)
  have delivered : (r.strip method).deliver idle (l₁.limited limit) =
      (.error (.cancelled true), d, l₂) := by
    rw [deliver_fresh fresh]
    exact ran
  obtain ⟨x', sent⟩ := send_of_failed x (sends limit (by omega)) delivered
  refine ⟨x', _, sent, ?_⟩
  rw [Link.output_shutdown, output]
  exact put.output

theorem receive_bare (status : Status) (method : Method) (close : Bool) {reader : Reader}
    {rest : Bytes} {tail : List Arrival}
    (holds : reader.Holds (({ status } : Response).head close ++ rest) tail) {limit : Nat}
    (enough : (({ status } : Response).head close).length ≤ limit) (bound : Nat) (c : Clock) :
    ∃ reception, Wire.receive ResponseHead.parse (Framing.ofResponse · method) limit bound reader c =
        .ok (some reception) ∧
      ({ status } : Response).ReadBack close reception.head ∧ reception.body.pieces = [] ∧
      reception.body.ending = .ok () ∧ reception.body.reader.Holds rest tail := by
  have clean : ∀ field ∈ ({ status } : Response).fields, Fields.Clean field := by
    have each : ∀ field ∈ [("Server", "flowhttp-rs")], Fields.Clean field := by decide
    exact each
  have small : ∀ b, ({ status } : Response).body.content = .known b → b.length < Numeral.bound64 := by
    intro b known
    cases known
  obtain ⟨fields, r', received, holds', spec⟩ := receive_head
    (fun field member => (clean field member).toWritable) small method enough bound holds c
  obtain ⟨r'', read, left⟩ := Decoder.drain_done (d := .start .empty bound) holds' c
  rw [strip_body rfl method] at received
  have drained : (Decoder.start (Framing.empty) bound).drain r' c = _ := read
  have framing : ({} : Body).framing = .empty := rfl
  rw [framing, drained] at received
  exact ⟨_, received, readBack_of_find? clean (List.pairwise_singleton _ _) spec, rfl, rfl, left⟩

end Response

/-- Whether a handler saw the clean end of the body, and no error before it. -/
def Sighting.endsInOrder : List Sighting → Bool
  | [] => false
  | .piece (.ok .ended) :: _ | .whole (.ok _) :: _ => true
  | .piece (.error _) :: _ | .whole (.error _) :: _ => false
  | .request _ :: sightings | .piece (.ok (.data _)) :: sightings => endsInOrder sightings

/-- Whoever collects a body reads it to its end or to an error. -/
theorem Producer.reads_collectOnto {before : List Bytes} {l l' : Link}
    {out : Outcome BodyError Bytes} (eq : incoming.collectOnto before l = (out, l'))
    (came : out ≠ .stuck) :
    ∃ answers, l.Reads answers l' ∧
      ((∃ b, out = .ok b) ∧ (∀ more, Decoder.endsInOrder (answers ++ more) = true) ∨
        (∃ e, out = .error e) ∧ ∀ more, Decoder.endsInOrder (answers ++ more) = false) := by
  induction weight : l.weight using Nat.strongRecOn generalizing before l with
  | ind n ih =>
      subst weight
      rw [collectOnto_eq] at eq
      rcases read : l.readPiece with ⟨answer, l₁⟩
      rcases answer with (b | _) | e | _
      all_goals simp only [pull, ask, read] at eq
      · obtain ⟨answers, reads, decides⟩ := ih _ ((Link.weight_readPiece read).2 b rfl) eq rfl
        exact ⟨_, .next (.refl l) read reads, decides⟩
      · cases eq
        exact ⟨_, .next (.refl l) read (.none (.refl l')), .inl ⟨⟨_, rfl⟩, fun _ => rfl⟩⟩
      · cases eq
        exact ⟨_, .next (.refl l) read (.none (.refl l')), .inr ⟨⟨_, rfl⟩, fun _ => rfl⟩⟩
      · cases eq
        exact absurd rfl came

variable {ω : Type}

/-- What a handler gets to see of a body tells whether it was read to its end. -/
theorem Program.reads_watched {program : Program ω} {noted noted₁ : List Sighting} {l l₁ : Link}
    {verdict : Verdict} (eq : program.watched.run noted l = (verdict, noted₁, l₁))
    (came : verdict ≠ .stuck) :
    ∃ sightings answers, noted₁ = sightings.reverse ++ noted ∧ l.Reads answers l₁ ∧
      Sighting.endsInOrder sightings = Decoder.endsInOrder answers := by
  have first : ∀ (noted : List Sighting) (sighting : Sighting) (sightings : List Sighting),
      sightings.reverse ++ (sighting :: noted) = (sighting :: sightings).reverse ++ noted := by
    intro noted sighting sightings
    rw [List.reverse_cons, List.append_assoc]
    rfl
  induction program generalizing noted l with
  | respond | fail | panic =>
      cases eq
      exact ⟨[], [], rfl, .none (.refl _), rfl⟩
  | note what rest ih => exact ih eq
  | pause ms rest ih =>
      rcases waited : l.waitUntil (l.clock.now + ms) with ⟨awake, l₂⟩
      rw [watched, run, waited] at eq
      cases awake with
      | true =>
          obtain ⟨sightings, answers, same, reads, ends⟩ := ih eq
          exact ⟨sightings, answers, same, reads.behind (Link.still_waitUntil waited), ends⟩
      | false =>
          cases eq
          exact absurd rfl came
  | pull rest ih =>
      rcases read : l.readPiece with ⟨answer, l₂⟩
      rw [watched, run, read] at eq
      cases answer with
      | stuck =>
          cases eq
          exact absurd rfl came
      | ok piece =>
          obtain ⟨sightings, answers, same, reads, ends⟩ := ih _ eq
          refine ⟨_, _, same.trans (first _ _ _), .next (.refl l) read reads, ?_⟩
          cases piece with
          | data b => exact ends
          | ended => rfl
      | error e =>
          obtain ⟨sightings, answers, same, reads, _⟩ := ih _ eq
          exact ⟨_, _, same.trans (first _ _ _), .next (.refl l) read reads, rfl⟩
  | collect rest ih =>
      rcases read : Producer.incoming.collect l with ⟨answer, l₂⟩
      rw [watched, run, read] at eq
      cases answer with
      | stuck =>
          cases eq
          exact absurd rfl came
      | ok b =>
          obtain ⟨sightings, answers, same, reads, _⟩ := ih _ eq
          obtain ⟨whole, collects, decides⟩ := Producer.reads_collectOnto read (Outcome.ok_ne_stuck _)
          refine ⟨_, _, same.trans (first _ _ _), collects.trans reads, ?_⟩
          rcases decides with ⟨_, ends⟩ | ⟨⟨_, other⟩, _⟩
          · exact (ends answers).symm
          · cases other
      | error e =>
          obtain ⟨sightings, answers, same, reads, _⟩ := ih _ eq
          obtain ⟨part, collects, decides⟩ :=
            Producer.reads_collectOnto read (Outcome.error_ne_stuck _)
          refine ⟨_, _, same.trans (first _ _ _), collects.trans reads, ?_⟩
          rcases decides with ⟨⟨_, other⟩, _⟩ | ⟨_, fails⟩
          · cases other
          · exact (fails answers).symm

namespace Server

variable {server : Server ω} {s : Session ω}

def Handling.sightings (h : server.Handling s) : List Sighting :=
  (server.watched.respond h.request h.framing []
    (h.opened.expect h.framing server.config.readBufferSize)).2.1.reverse

/-- Why a request has no response of a handler, and what the server answers instead. -/
inductive Handling.Unanswered (h : server.Handling s) : Status → Prop where
  | unmatched (none : server.routes.find? h.request.method h.request.path = none) :
      Unanswered h .notFound
  | failed {handler : Handler ω} {parameters : List (String × String)} {e : ServerError}
      {seen : List ω} {link : Link}
      (found : server.routes.find? h.request.method h.request.path = some (handler, parameters))
      (ran : (handler ⟨h.request, parameters, Request.bodyOf h.framing⟩).run s.seen
        (h.opened.expect h.framing server.config.readBufferSize) = (.failed e, seen, link)) :
      Unanswered h .internalServerError
  | panicked {handler : Handler ω} {parameters : List (String × String)}
      {seen : List ω} {link : Link}
      (found : server.routes.find? h.request.method h.request.path = some (handler, parameters))
      (ran : (handler ⟨h.request, parameters, Request.bodyOf h.framing⟩).run s.seen
        (h.opened.expect h.framing server.config.readBufferSize) = (.panicked, seen, link)) :
      Unanswered h .internalServerError

theorem Handling.Unanswered.response {h : server.Handling s} {status : Status}
    (unanswered : h.Unanswered status) : h.response = { status } := by
  have responded := h.responded
  rw [respond] at responded
  cases unanswered with
  | unmatched none =>
      rw [none] at responded
      exact (Option.some.inj (congrArg Prod.fst responded)).symm
  | failed found ran =>
      rw [found] at responded
      simp only [ran] at responded
      exact (Option.some.inj (congrArg Prod.fst responded)).symm
  | panicked found ran =>
      rw [found] at responded
      simp only [ran] at responded
      exact (Option.some.inj (congrArg Prod.fst responded)).symm

/-- Behind its handler the body of a request was read to its end if that is what the handler saw. -/
theorem released_respond {head : RequestHead} {framing : Framing} {bound : Nat} {l l₁ : Link}
    {r : Response} {noted : List Sighting} (own : framing ≠ .untilClose)
    (eq : server.watched.respond head framing [] (l.expect framing bound) = (some r, noted, l₁)) :
    l₁.body.released = Sighting.endsInOrder noted.reverse := by
  rw [respond, find?_watched] at eq
  rcases found : server.routes.find? head.method head.path with _ | ⟨handler, parameters⟩
  · rw [found] at eq
    cases eq
    rfl
  · let request : Request := ⟨head, parameters, Request.bodyOf framing⟩
    rcases ran : (handler request).watched.run [.request request] (l.expect framing bound) with
      ⟨verdict, noted₁, l₂⟩
    have same : (Program.note (.request request) (handler request).watched).run []
        (l.expect framing bound) = (verdict, noted₁, l₂) := ran
    rw [found] at eq
    simp only [Option.map_some] at eq
    rw [same] at eq
    have came : verdict ≠ .stuck := by
      rintro rfl
      cases eq
    obtain ⟨sightings, answers, rfl, reads, ends⟩ := Program.reads_watched ran came
    have sights : Sighting.endsInOrder (sightings.reverse ++ [Sighting.request request]).reverse =
        Sighting.endsInOrder sightings := by
      rw [List.reverse_append, List.reverse_reverse]
      rfl
    have released := (spans_of_reads own reads).1
    cases verdict with
    | response | failed | panicked =>
        cases eq
        rw [sights, ends, released]
    | stuck => cases eq

theorem Handling.released (h : server.Handling s) :
    h.link.body.released = Sighting.endsInOrder h.sightings := by
  obtain ⟨noted, watched⟩ := respond_watched h.responded []
  rw [sightings, watched]
  exact released_respond (Framing.ofRequest_ne_untilClose h.framed) watched

/-- Nobody asked for the connection to be closed, and nothing of the body was left: either there was
none, or the handler saw its clean end. -/
structure Handling.GoesOn (h : server.Handling s) : Prop where
  keepAlive : server.config.keepAlive = true
  stays : h.request.wantsClose = false
  read : h.framing = .empty ∨ Sighting.endsInOrder h.sightings = true

theorem Handling.goesOn_iff (h : server.Handling s) {l : Link} (still : h.link.Still l) :
    h.GoesOn ↔ (server.closes h.request || isLeftOver h.framing l) = false := by
  have left : isLeftOver h.framing l = false ↔
      h.framing = .empty ∨ Sighting.endsInOrder h.sightings = true := by
    rw [isLeftOver, still.body, h.released, Bool.and_eq_false_iff, bne_eq_false_iff_eq,
      Bool.not_eq_false']
  rw [Bool.or_eq_false_iff, left, closes, Bool.or_eq_false_iff, Bool.not_eq_false']
  constructor
  · rintro ⟨keepAlive, stays, read⟩
    exact ⟨⟨keepAlive, stays⟩, read⟩
  · rintro ⟨⟨keepAlive, stays⟩, read⟩
    exact ⟨keepAlive, stays, read⟩

/-- What a request comes to under another limit is sent for it there. -/
theorem Handling.Agrees.sends {h : server.Handling s} {limit : Nat}
    {h' : server.Handling (s.limited limit)} (agrees : h.Agrees limit h') :
    h'.Sends h.response s.exchange h.request.method (server.closes h.request)
      server.config.bodyIdleTimeout (h.link.limited limit) :=
  ⟨agrees.response, rfl, congrArg RequestHead.method agrees.request,
    congrArg server.closes agrees.request, rfl, agrees.link⟩

/-- Where the flush behind the head is over in time, an exchange without a body completes, and the
connection goes on if nothing speaks against it. -/
theorem Handling.serve_bare {h : server.Handling s} {r : Response} {enough : Nat} {l₁ : Link}
    (responds : h.response = r) (bare : r.body = {}) (willing : s.link.writer.rule.Willing)
    (sends : h.link.SendsBy (r.head (server.closes h.request)) enough l₁)
    (inTime : l₁.FlushesInTime server.config.bodyIdleTimeout) :
    ∃ moment, ∀ limit, moment ≤ limit → ∃ s' : Session ω,
      s'.link.writer.output = s.link.writer.output ++ r.head (server.closes h.request) ∧
      s'.counters = s.counters.issue.complete ∧
      (h.GoesOn → server.Looks (s.limited limit) [h.head] s' ∧
        server.serve (s.limited limit) = server.serve s' ∧
        s.link.writer.StaysOpen s'.link.writer) ∧
      (¬ h.GoesOn → server.serve (s.limited limit) = (.ok (), s') ∧
        s.link.writer.Closes s'.link.writer) := by
  subst responds
  obtain ⟨first, handled⟩ := h.limited
  obtain ⟨second, l', still, open_, output, completes⟩ := Response.send_bare
    (s.counters.issued + 1) h.request.method bare (h.writer ▸ willing) sends inTime
  rw [h.writer] at open_ output
  refine ⟨max first second, fun limit late => ?_⟩
  obtain ⟨h', agrees⟩ := handled limit (by omega)
  let t : Session ω := ⟨l'.limited limit, s.counters.issue.complete, h'.seen⟩
  have answered : h'.answer = server.settle h.request h.framing t := by
    rw [← agrees.request, ← agrees.framing]
    exact h'.answer_of_sent agrees.sends (completes limit (by omega))
  have settles := h.goesOn_iff (l := l'.limited limit) ⟨still.body, still.reader⟩
  by_cases on : h.GoesOn
  · have proceeds : h'.answer = (.proceed, t) := by
      rw [answered, settle, settles.mp on]
      rfl
    have looks : server.Looks (s.limited limit) [h'.head] t := (Looks.here _).concat h' proceeds
    rw [agrees.head] at looks
    exact ⟨t, output, rfl, fun _ => ⟨looks, serve_of_looks looks, open_⟩,
      fun other => absurd on other⟩
  · have ends := (Bool.not_eq_false _).mp (mt settles.mpr on)
    have finishes : h'.answer = (.finished (.ok ()), { t with link := t.link.shutdown }) := by
      rw [answered, settle, ends]
      rfl
    refine ⟨{ t with link := t.link.shutdown }, (Link.output_shutdown t.link).trans output, rfl,
      fun other => absurd other on, fun _ => ⟨h'.serve_of_finished finishes, ?_⟩⟩
    exact open_.closes (Link.events_shutdown t.link)

/-- Where the flush behind the head is overdue, the exchange is aborted behind its head. -/
theorem Handling.serve_overdue {h : server.Handling s} {r : Response} {enough : Nat} {l₁ : Link}
    (responds : h.response = r) (fresh : (r.strip h.request.method).body.consumed = false)
    (willing : s.link.writer.rule.Willing)
    (sends : h.link.SendsBy (r.head (server.closes h.request)) enough l₁)
    (late : ¬ l₁.FlushesInTime server.config.bodyIdleTimeout) :
    ∃ moment, ∀ limit, moment ≤ limit → ∃ s' : Session ω,
      s'.link.writer.output = s.link.writer.output ++ r.head (server.closes h.request) ∧
      server.serve (s.limited limit) =
        (.error (.aborted (s.counters.issued + 1) (.cancelled true)), s') ∧
      s'.counters = s.counters.issue.abort ∧ s.link.writer.ClosesLast s'.link.writer := by
  subst responds
  obtain ⟨first, handled⟩ := h.limited
  obtain ⟨second, breaks⟩ :=
    Response.send_overdue s.exchange h.request.method fresh (h.writer ▸ willing) sends late
  refine ⟨max first second, fun limit given => ?_⟩
  obtain ⟨h', agrees⟩ := handled limit (by omega)
  obtain ⟨x', l', sent, output⟩ := breaks limit (by omega)
  obtain ⟨s', served, rfl, counters⟩ := h'.serve_of_failed (Looks.here _) agrees.sends sent
  have last := (Response.trace_send sent).1
  rw [show (h.link.limited limit).writer = s.link.writer from h.writer] at last
  rw [h.writer] at output
  exact ⟨s', output, served, counters, last⟩

/-- A request that no handler answers gets a status: not found where there is no route, and an
internal error where the handler failed, however it failed and whatever it had read before. The
client reads the status and an empty body to its end. If the flush behind the head is over before
the idle timeout, the exchange completes without an error, and the next request is served if nobody
asked for the end of the connection and nothing of the body was left over; else the connection is
closed. If that flush takes as long as the timeout, the empty body counts as one that does not come:
the exchange is aborted, and the connection fails. -/
theorem serve_unanswered {h : server.Handling s} {status : Status}
    (unanswered : h.Unanswered status) (willing : s.link.writer.rule.Willing) :
    let r : Response := { status }
    let close := server.closes h.request
    let idle := server.config.bodyIdleTimeout
    (∀ (reader : Reader) (rest : Bytes) (tail : List Arrival) (limit bound : Nat) (c : Clock),
      reader.Holds (r.head close ++ rest) tail → (r.head close).length ≤ limit →
      ∃ reception, Wire.receive ResponseHead.parse (Framing.ofResponse · h.request.method) limit
          bound reader c = .ok (some reception) ∧
        r.ReadBack close reception.head ∧ reception.body.pieces = [] ∧
        reception.body.ending = .ok () ∧ reception.body.reader.Holds rest tail) ∧
      ∃ (enough : Nat) (l₁ : Link), h.link.SendsBy (r.head close) enough l₁ ∧
        ∀ limit, enough ≤ limit → ∃ s' : Session ω,
          s'.link.writer.output = s.link.writer.output ++ r.head close ∧
          (l₁.FlushesInTime idle → s'.counters = s.counters.issue.complete ∧
            (h.GoesOn → server.Looks (s.limited limit) [h.head] s' ∧
              server.serve (s.limited limit) = server.serve s' ∧
              s.link.writer.StaysOpen s'.link.writer) ∧
            (¬ h.GoesOn → server.serve (s.limited limit) = (.ok (), s') ∧
              s.link.writer.Closes s'.link.writer)) ∧
          (¬ l₁.FlushesInTime idle → server.serve (s.limited limit) =
              (.error (.aborted (s.counters.issued + 1) (.cancelled true)), s') ∧
            s'.counters = s.counters.issue.abort ∧
            s.link.writer.ClosesLast s'.link.writer) := by
  intro r close idle
  refine ⟨fun reader rest tail limit bound c holds enough =>
    Response.receive_bare status h.request.method close holds enough bound c, ?_⟩
  have responds : h.response = r := unanswered.response
  have fresh : (r.strip h.request.method).body.consumed = false := by rw [Response.strip_body rfl]
  obtain ⟨enough, l₁, sends⟩ := Delivery.send_willing (h.writer ▸ willing) (r.head close)
  by_cases inTime : l₁.FlushesInTime idle
  · obtain ⟨moment, completes⟩ := Handling.serve_bare responds rfl willing sends inTime
    refine ⟨max enough moment, l₁, fun limit late => sends limit (by omega), fun limit late => ?_⟩
    obtain ⟨s', output, settled⟩ := completes limit (by omega)
    exact ⟨s', output, fun _ => settled, fun other => absurd inTime other⟩
  · obtain ⟨moment, breaks⟩ := Handling.serve_overdue responds fresh willing sends inTime
    refine ⟨max enough moment, l₁, fun limit late => sends limit (by omega), fun limit late => ?_⟩
    obtain ⟨s', output, aborted⟩ := breaks limit (by omega)
    exact ⟨s', output, fun other => absurd other inTime, fun _ => aborted⟩

/-- Two bytes of a body, and the start of a further request behind them. A handler that sees the end of
the body before it panics leaves the connection to that request; one that only has the bytes does
not. -/
theorem serve_unanswered_panicked :
    let drains : Handler Unit := fun _ => .pull fun _ => .pull fun _ => .panic
    let peeks : Handler Unit := fun _ => .pull fun _ => .fail (.internal "full")
    let server (handler : Handler Unit) : Server Unit :=
      { config := {}, routes := ⟨[⟨.post, ⟨"/", [.literal ""]⟩, handler⟩]⟩ }
    let head := Utf8.encode "POST / HTTP/1.1\r\nHost: a\r\nContent-Length: 2\r\n\r\n"
    let session (limit : Nat) : Session Unit := {
      link := {
        clock := { limit }
        reader := { arrivals := [.bytes (head ++ Utf8.encode "abGET")], capacity := 64 }
        writer := {} }
      counters := {} }
    (∃ limit s', (server drains).Looks (session limit) [head] s' ∧ s'.counters = ⟨1, 1, 0⟩ ∧
        (session limit).link.writer.StaysOpen s'.link.writer) ∧
      ∃ limit s', (server peeks).serve (session limit) = (.ok (), s') ∧ s'.counters = ⟨1, 1, 0⟩ ∧
        (session limit).link.writer.Closes s'.link.writer := by
  intro drains peeks server head session
  let opened : Link := ((session 0).link.readHead 16384).2
  let request : RequestHead := ⟨.post, "/", .http11, [("Host", "a"), ("Content-Length", "2")]⟩
  have read : (session 0).link.readHead 16384 = (.ok (some head), opened) := by rfl
  have parsed : RequestHead.parse head = .ok request := by
    dsimp only [head, request]
    decide +kernel
  have framed : Framing.ofRequest request = .ok (.length 2) := by
    dsimp only [request]
    decide +kernel
  have matched : ({ text := "/", segments := [.literal ""] } : Template).match? request.path =
      some [] := by
    dsimp only [request]
    decide +kernel
  have found : ∀ handler, (server handler).routes.find? request.method request.path =
      some (handler, []) := by
    intro handler
    simp [server, request, RouteTable.find?, RouteTable.answer?, matched]
  have stays : request.wantsClose = false := by
    dsimp only [request]
    decide +kernel
  have willing : WriteRule.Willing {} :=
    ⟨(Option.some_ne_none 0).symm, rfl, rfl, rfl, List.forall_mem_nil _, List.forall_mem_nil _⟩
  have inTime : ∀ {l l₁ : Link} {b : Bytes} {enough : Nat}, l.SendsBy b enough l₁ →
      l.writer.rule = {} → l₁.FlushesInTime (some 60000) := by
    intro l l₁ b enough sends plain
    have rule := (Delivery.rule_of_sendsBy sends).trans plain
    exact Delivery.flushesInTime_of_gateless (congrArg WriteRule.flushGates rule) (by decide)
  let asked : Request := ⟨request, [], Request.bodyOf (.length 2)⟩
  let failure : Response := { status := .internalServerError }
  constructor
  · let ran := (drains asked).run [] (opened.expect (.length 2) 8192)
    have panics : ran = (.panicked, [], ran.2.2) := by
      dsimp only [ran, drains, opened, session, head]
      decide +kernel
    have responded : (server drains).respond request (.length 2) [] (opened.expect (.length 2) 8192) =
        (some failure, [], ran.2.2) := by
      rw [respond, found]
      simp only
      rw [show (drains asked).run [] (opened.expect (.length 2) 8192) = _ from panics]
    let h : (server drains).Handling (session 0) :=
      ⟨head, opened, request, .length 2, failure, [], ran.2.2, read, parsed, framed, responded⟩
    have goesOn : h.GoesOn := by
      refine ⟨rfl, stays, .inr ?_⟩
      dsimp only [Handling.sightings, h, drains, server, opened, session, head, request]
      decide +kernel
    obtain ⟨_, enough, l₁, sends, serves⟩ :=
      serve_unanswered (h := h) (.panicked (found drains) panics) willing
    obtain ⟨s', _, clean, _⟩ := serves enough (Nat.le_refl _)
    obtain ⟨counters, goes, _⟩ := clean (inTime sends (congrArg Writer.rule h.writer))
    obtain ⟨looks, _, open_⟩ := goes goesOn
    exact ⟨enough, s', looks, counters, open_⟩
  · let ran := (peeks asked).run [] (opened.expect (.length 2) 8192)
    have fails : ran = (.failed (.internal "full"), [], ran.2.2) := by
      dsimp only [ran, peeks, opened, session, head]
      decide +kernel
    have responded : (server peeks).respond request (.length 2) [] (opened.expect (.length 2) 8192) =
        (some failure, [], ran.2.2) := by
      rw [respond, found]
      simp only
      rw [show (peeks asked).run [] (opened.expect (.length 2) 8192) = _ from fails]
    let h : (server peeks).Handling (session 0) :=
      ⟨head, opened, request, .length 2, failure, [], ran.2.2, read, parsed, framed, responded⟩
    have leaves : ¬ h.GoesOn := by
      rintro ⟨_, _, empty | ended⟩
      · cases empty
      · have unseen : Sighting.endsInOrder h.sightings = false := by
          dsimp only [Handling.sightings, h, peeks, server, opened, session, head, request]
          decide +kernel
        rw [unseen] at ended
        cases ended
    obtain ⟨_, enough, l₁, sends, serves⟩ :=
      serve_unanswered (h := h) (.failed (found peeks) fails) willing
    obtain ⟨s', _, clean, _⟩ := serves enough (Nat.le_refl _)
    obtain ⟨counters, _, closes⟩ := clean (inTime sends (congrArg Writer.rule h.writer))
    obtain ⟨served, closed⟩ := closes leaves
    exact ⟨enough, s', served, counters, closed⟩

/-- There is no route. A flush of a hundred milliseconds and an idle timeout of fifty abort the
exchange, although nothing that is written fails. And a request that asks twice for the end of the
connection does not end it: the one behind it is answered too. -/
theorem unanswered_unclean :
    let server (ms : Nat) : Server Unit :=
      { config := { bodyIdleTimeout := some ms }, routes := {} }
    let session (arrived : Bytes) (rule : WriteRule) : Session Unit := {
      link := {
        clock := { limit := 1000 }
        reader := { arrivals := [.bytes arrived], capacity := 64 }
        writer := { rule } }
      counters := {} }
    let plain := Utf8.encode "GET / HTTP/1.1\r\nHost: h\r\n\r\n"
    let twice := Utf8.encode
      "GET / HTTP/1.1\r\nHost: h\r\nConnection: close\r\nConnection: close\r\n\r\n"
    let given := [("Host", "h"), ("Connection", "close"), ("Connection", "close")]
    let sluggish : WriteRule := { flushGates := [(2, some 100)] }
    (sluggish.Willing ∧
      ((server 50).serve (session plain sluggish)).1 = .error (.aborted 1 (.cancelled true)) ∧
      ((server 50).serve (session plain sluggish)).2.counters = ⟨1, 0, 1⟩) ∧
      Laid twice "GET / HTTP/1.1".toList given ∧ AsksToClose given ∧
      ((server 60000).serve (session (twice ++ plain) {})).2.counters = ⟨2, 2, 0⟩ := by
  intro server session plain twice given sluggish
  have laid : Laid twice "GET / HTTP/1.1".toList given :=
    laid_encodeChars ["Host: h".toList, "Connection: close".toList, "Connection: close".toList, []]
      (by decide +kernel) (by decide +kernel)
  refine ⟨⟨?_, by decide +kernel, by decide +kernel⟩, laid,
    ⟨"close", by decide +kernel, by decide +kernel⟩, by decide +kernel⟩
  exact ⟨(Option.some_ne_none 0).symm, rfl, rfl, rfl, List.forall_mem_nil _, by decide⟩

end Server

end HttpExchange
