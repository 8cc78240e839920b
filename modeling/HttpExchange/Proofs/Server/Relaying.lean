import HttpExchange.Proofs.Body.Relaying
import HttpExchange.Proofs.Server.BrokenOff

/-!
A response that relays the body of its request. The request is read while the response is sent: a
body that comes to its end is sent on in chunks and completes the exchange, with the reader in front
of the next request; a body that does not can only break the response off, in front of an end that
it never gets.
-/

namespace HttpExchange

open Delivery (filled)

namespace Response

variable {r : Response} {p : Producer} {l l' : Link} {method : Method} {close : Bool}
  {idle : Option Nat} {f : Framing}

theorem framingLine_chunked (allowed : r.status ≠ .noContent) (stream : r.body = .ofProducer p) :
    r.framingLine = Utf8.encode "Transfer-Encoding: chunked\r\n" := by
  have permits : ¬ r.status.forbidsBody = true := fun forbidden => allowed (beq_iff_eq.mp forbidden)
  have chunked : r.body.framing = .chunked := by
    rw [stream]
    rfl
  rw [framingLine, if_neg permits, chunked]
  rfl

theorem send_of_delivered (id : Nat) {l₁ l₂ : Link} {d : Delivery} {chunks : Nat}
    (sent : l.send (r.head close) = (.ok (), l₁))
    (delivered : (r.strip method).deliver idle l₁ = (.ok chunks, d, l₂)) :
    r.send { id } method close idle l = (.ok (), { id, phase := .completed }, l₂) := by
  rw [send, sent]
  simp only [delivered]
  rfl

/-- What is on the wire, and what is left of the input, behind a body that was relayed whole. -/
structure Relayed (r : Response) (close : Bool) (f : Framing) (body : Decoded) (l l' : Link) :
    Prop where
  announced : r.framingLine = Utf8.encode "Transfer-Encoding: chunked\r\n"
  output : l'.writer.output =
    l.writer.output ++ (r.head close ++ Framing.chunked.transfer body.pieces)
  reader : l'.reader = body.reader
  /-- The input was read as far as the body goes, and no further. -/
  whole : ∃ b chunks, l.reader.Takes b l'.reader ∧ f.Spans b chunks
  read : f = .empty ∨ l'.body.released = true

theorem filled_pieces (d : Decoder) (reader : Reader) (c : Clock) :
    filled (d.drain reader c).pieces = (d.drain reader c).pieces := by
  rw [filled, List.filter_eq_self]
  intro b member
  rw [Bool.not_eq_true', List.isEmpty_eq_false_iff]
  exact Decoder.drain_pieces d reader c b member

/-- A body that comes to its end is relayed whole, once there is enough time for the writer. -/
theorem send_relayed (id : Nat) (notHead : method ≠ .head) (allowed : r.status ≠ .noContent)
    (close : Bool) (willing : l.writer.rule.Willing) (own : f ≠ .untilClose) {bound : Nat}
    (unread : l.body = .start f bound)
    (relays : r.body = .ofProducer (Request.bodyOf f).producer) {c : Clock}
    (ended : (l.body.drain l.reader c).ending = .ok ()) :
    ∃ (enough : Nat) (l' : Link), r.Relayed close f (l.body.drain l.reader c) l l' ∧
      ∀ limit, enough ≤ limit → r.send { id } method close none (l.limited limit) =
        (.ok (), { id, phase := .completed }, l'.limited limit) := by
  obtain ⟨enough₁, l₁, sends⟩ := Delivery.send_willing willing (r.head close)
  obtain ⟨part, put, whole, _⟩ := Delivery.put_send (sends enough₁ (Nat.le_refl _))
  cases whole rfl
  have willing₁ : l₁.writer.rule.Willing := put.rule ▸ willing
  have reader₁ : l₁.reader = l.reader := put.reader
  have body₁ : l₁.body = l.body := put.body
  have output₁ : l₁.writer.output = l.writer.output ++ r.head close := put.output
  have gives := (Producer.gives_of_request (l := l₁) (body₁.trans unread) c).1
  rw [reader₁, body₁] at gives
  obtain ⟨q, m, q', m', gives, ends, reader, decoder⟩ := gives ended
  obtain ⟨enough₂, interrupted | ⟨d, l', still, carried, delivers⟩⟩ :=
    Delivery.run_of_gives willing₁.patient gives ends
  · exact absurd willing₁ (interrupted enough₂ (Nat.le_refl _)).not_willing
  have output : l'.writer.output =
      l₁.writer.output ++ Framing.chunked.transfer (l.body.drain l.reader c).pieces := by
    rw [carried.output, List.flatten_cons, List.nil_append, List.flatten_append,
      Framing.flatten_sends, filled_pieces, List.flatten_singleton, Framing.transfer]
  have stands := Decoder.stands_start own bound
  rw [← unread] at stands
  obtain ⟨b, chunks, taken, spans, released⟩ :=
    Decoder.drain_stands stands (congrArg Decoder.released unread) ended
  refine ⟨max enough₁ enough₂, l', ⟨framingLine_chunked allowed relays, ?_,
    still.reader.trans reader, ⟨b, chunks, ?_, spans⟩, ?_⟩, ?_⟩
  · rw [output, output₁, List.append_assoc]
  · rwa [still.reader, reader]
  · by_cases empty : f = .empty
    · exact .inl empty
    · right
      rw [still.body, decoder empty]
      exact released
  · intro limit late
    have delivered := deliver_stream notHead allowed relays none (l₁.limited limit)
    exact send_of_delivered id (sends limit (by omega))
      (delivered.trans (delivers limit (by omega)))

end Response

namespace Server

variable {ω : Type} {server : Server ω} {s s₀ s' : Session ω} {heads : List Bytes} {r : Response}
  {x x' : Exchange} {method : Method} {close : Bool} {idle : Option Nat} {l l' : Link}

theorem Looks.concat (looks : server.Looks s₀ heads s) (h : server.Handling s)
    (answered : h.answer = (.proceed, s')) : server.Looks s₀ (heads ++ [h.head]) s' := by
  induction looks with
  | here s => exact .next h.read answered (.here s')
  | next read answers rest ih => exact .next read answers (ih h answered)

/-- Behind a response that was sent whole, the connection is settled. -/
theorem Handling.answer_of_sent (h : server.Handling s) (sends : h.Sends r x method close idle l)
    (sent : r.send x method close idle l = (.ok (), x', l')) :
    h.answer = server.settle h.request h.framing ⟨l', s.counters.issue.complete, h.seen⟩ := by
  obtain ⟨rfl, rfl, rfl, rfl, rfl, rfl⟩ := sends
  rw [Handling.answer, Server.answer, h.parsed]
  simp only [h.framed, Server.exchange, Session.issue, h.responded]
  rw [show Session.exchange { s with link := h.opened } = s.exchange from rfl, sent]

/-- A response that was sent whole completes its exchange. If the connection is not to be closed, and
the body of the request was read, the next request is looked for. -/
theorem Handling.serve_of_sent (h : server.Handling s) (looks : server.Looks s₀ heads s)
    (sends : h.Sends r x method close idle l)
    (sent : r.send x method close idle l = (.ok (), x', l'))
    (read : h.framing = .empty ∨ l'.body.released = true) :
    ∃ s', s'.counters = s.counters.issue.complete ∧
      (close = false → s'.link = l' ∧ server.Looks s₀ (heads ++ [h.head]) s') ∧
      (close = true → s'.link = l'.shutdown ∧ server.serve s₀ = (.ok (), s')) := by
  let t : Session ω := ⟨l', s.counters.issue.complete, h.seen⟩
  have answered : h.answer = server.settle h.request h.framing t := h.answer_of_sent sends sent
  obtain ⟨rfl, rfl, rfl, rfl, rfl, rfl⟩ := sends
  have none : isLeftOver h.framing l' = false := by
    rw [isLeftOver]
    rcases read with empty | released
    · rw [empty]
      rfl
    · rw [released, Bool.not_true, Bool.and_false]
  cases closes : server.closes h.request with
  | false =>
      have proceeds : h.answer = (.proceed, t) := by
        rw [answered, settle, closes, none]
        rfl
      exact ⟨t, rfl, fun _ => ⟨rfl, looks.concat h proceeds⟩, fun same => absurd same Bool.false_ne_true⟩
  | true =>
      have finishes : h.answer = (.finished (.ok ()), { t with link := l'.shutdown }) := by
        rw [answered, settle, closes]
        rfl
      refine ⟨{ t with link := l'.shutdown }, rfl, fun same => absurd same.symm Bool.false_ne_true,
        fun _ => ⟨rfl, ?_⟩⟩
      rw [serve_of_looks looks, serve_eq, h.read]
      simp only
      rw [show server.answer h.head _ = _ from finishes]

end Server

namespace Response

variable {r : Response} {l : Link} {method : Method} {f : Framing}

/-- A response that relays the body of its request cannot complete a truncated one. Where the body
ends in order, the chunks of the response are its pieces, the exchange is completed, and unless the
connection is to be closed the server looks for the next request right behind the body. Where
reading the body fails, what is on the wire are the pieces before, without an end; the exchange is
aborted, with their number and with what the reader says. -/
theorem send_relays (id : Nat) (notHead : method ≠ .head) (allowed : r.status ≠ .noContent)
    (close : Bool) (willing : l.writer.rule.Willing) (own : f ≠ .untilClose) {bound : Nat}
    (unread : l.body = .start f bound)
    (relays : r.body = .ofProducer (Request.bodyOf f).producer) (c : Clock) :
    let body := l.body.drain l.reader c
    (body.ending = .ok () →
      ∃ (enough : Nat) (l' : Link), r.Relayed close f body l l' ∧ ∀ limit, enough ≤ limit →
        r.send { id } method close none (l.limited limit) =
          (.ok (), { id, phase := .completed }, l'.limited limit) ∧
        ∀ (ω : Type) (server : Server ω) (s₀ s : Session ω) (heads : List Bytes)
          (h : server.Handling s), server.Looks s₀ heads s → h.framing = f →
          h.Sends r { id } method close none (l.limited limit) →
          ∃ s', s'.counters.completed = s.counters.completed + 1 ∧
            s'.counters.aborted = s.counters.aborted ∧
            (close = false → s'.link = l'.limited limit ∧
              server.Looks s₀ (heads ++ [h.head]) s') ∧
            (close = true → s'.link = (l'.limited limit).shutdown ∧
              server.serve s₀ = (.ok (), s'))) ∧
    ∀ e, body.ending = .error e → ∃ enough : Nat, ∀ limit, enough ≤ limit → ∃ l',
      r.send { id } method close none (l.limited limit) =
        (.error (.aborted id (.postCommit body.pieces.length (.unread e))),
          { id, phase := .aborted }, l') ∧
      l'.writer.output =
        l.writer.output ++ (r.head close ++ Framing.chunked.frames body.pieces) ∧
      r.BrokenOff method close none (l.limited limit) l' body.pieces (.unread e) ∧
      (Mishap.unread e).message = e.message ∧
      ∀ (ω : Type) (server : Server ω) (s₀ s : Session ω) (heads : List Bytes)
        (h : server.Handling s), server.Looks s₀ heads s →
        h.Sends r { id } method close none (l.limited limit) →
        ∃ s', server.serve s₀ =
            (.error (.aborted id (.postCommit body.pieces.length (.unread e))), s') ∧
          s'.link = l' ∧ s'.counters.completed = s.counters.completed ∧
          s'.counters.aborted = s.counters.aborted + 1 := by
  intro body
  constructor
  · intro ended
    obtain ⟨enough, l', relayed, sends⟩ :=
      send_relayed id notHead allowed close willing own unread relays ended
    refine ⟨enough, l', relayed, fun limit late => ⟨sends limit late, ?_⟩⟩
    rintro ω server s₀ s heads h looks rfl sending
    obtain ⟨s', counters, goesOn, closes⟩ :=
      h.serve_of_sent looks sending (sends limit late) relayed.read
    refine ⟨s', ?_, ?_, goesOn, closes⟩ <;> rw [counters] <;> rfl
  · intro e failed
    have breaks := (Producer.gives_of_request unread c).2 e failed
    obtain ⟨enough, ⟨timed, _⟩ | breaksOff⟩ :=
      send_breaks { id } notHead allowed relays close none willing breaks
    · exact absurd rfl timed
    refine ⟨enough, fun limit late => ?_⟩
    obtain ⟨x', l', sent, brokenOff⟩ := breaksOff limit late
    rw [filled_pieces] at sent
    cases aborted_of_send sent
    have output := brokenOff.output
    rw [filled_pieces] at output
    refine ⟨l', sent, output, brokenOff, rfl, ?_⟩
    intro ω server s₀ s heads h looks sends
    obtain ⟨s', served, link, counters⟩ := h.serve_of_failed looks sends sent
    refine ⟨s', served, link, ?_, ?_⟩ <;> rw [counters] <;> rfl

/-- A handler that takes the body and answers with it, in front of a body of two chunks and the
start of a further request, and in front of one whose second chunk has no end of its own. -/
theorem send_relays_taken :
    let relay : Handler Unit := fun request => match request.takeBody.1 with
      | .ok p => .respond { status := .ok, body := .ofProducer p }
      | .error _ => .panic
    let server : Server Unit := {
      config := { bodyIdleTimeout := none }
      routes := ⟨[⟨.post, ⟨"/", [.literal ""]⟩, relay⟩]⟩ }
    let head := Utf8.encode "POST / HTTP/1.1\r\nHost: a\r\nTransfer-Encoding: chunked\r\n\r\n"
    let whole := Utf8.encode "3\r\nabc\r\n2\r\nde\r\n0\r\n\r\nGET"
    let broken := Utf8.encode "3\r\nabc\r\n2\r\ndefg\r\n0\r\n\r\n"
    let session (body : Bytes) (limit : Nat) : Session Unit := {
      link := {
        clock := { limit }
        reader := { arrivals := [.bytes (head ++ body)], capacity := 64 }
        writer := {} }
      counters := {} }
    (∃ limit s', server.Looks (session whole limit) [head] s' ∧
        s'.link.reader.ahead = [71, 69, 84] ∧ s'.counters.completed = 1) ∧
      ∃ limit s', server.serve (session broken limit) =
          (.error (.aborted 1 (.postCommit 2 (.unread (.chunk .missingLineEnd)))), s') ∧
        s'.counters.completed = 0 ∧ s'.counters.aborted = 1 := by
  intro relay server head whole broken session
  let request : RequestHead :=
    ⟨.post, "/", .http11, [("Host", "a"), ("Transfer-Encoding", "chunked")]⟩
  let r : Response := { status := .ok, body := .ofProducer .incoming }
  let opened (body : Bytes) (limit : Nat) : Link := ((session body limit).link.readHead 16384).2
  let l (body : Bytes) : Link := (opened body 0).expect .chunked 8192
  have parsed : RequestHead.parse head = .ok request := by
    dsimp only [head, request]
    decide +kernel
  have framed : Framing.ofRequest request = .ok .chunked := by
    dsimp only [request]
    decide +kernel
  have matched : ({ text := "/", segments := [.literal ""] } : Template).match? request.path =
      some [] := by
    dsimp only [request]
    decide +kernel
  have found : server.routes.find? request.method request.path = some (relay, []) := by
    simp [server, request, RouteTable.find?, RouteTable.answer?, matched]
  have closes : server.closes request = false := by
    dsimp only [server, request]
    decide +kernel
  have willing : WriteRule.Willing {} :=
    ⟨(Option.some_ne_none 0).symm, rfl, rfl, rfl, List.forall_mem_nil _, List.forall_mem_nil _⟩
  have responded : ∀ body limit, server.respond request .chunked []
      ((opened body limit).expect .chunked 8192) = (some r, [], (l body).limited limit) := by
    intro body limit
    rw [Server.respond, found]
    rfl
  have notHead : Method.post ≠ .head := by decide
  have allowed : r.status ≠ .noContent := by decide
  have relays := fun body => send_relays (l := l body) 1 notHead allowed false willing
    Framing.noConfusion (show (l body).body = .start .chunked 8192 from rfl) rfl { limit := 0 }
  constructor
  · have ended : ((l whole).body.drain (l whole).reader { limit := 0 }).ending = .ok () := by
      dsimp only [l, opened, session, head, whole]
      decide +kernel
    have left : ((l whole).body.drain (l whole).reader { limit := 0 }).reader.ahead =
        [71, 69, 84] := by
      dsimp only [l, opened, session, head, whole]
      decide +kernel
    obtain ⟨enough, l', relayed, sends⟩ := (relays whole).1 ended
    have read : (session whole enough).link.readHead 16384 = (.ok (some head), opened whole enough) := by
      rfl
    let h : server.Handling (session whole enough) :=
      ⟨head, opened whole enough, request, .chunked, r, [], (l whole).limited enough, read, parsed,
        framed, responded whole enough⟩
    obtain ⟨s', completed, _, goesOn, _⟩ := (sends enough (Nat.le_refl _)).2 Unit server _ _ [] h
      (.here _) rfl ⟨rfl, rfl, rfl, closes, rfl, rfl⟩
    obtain ⟨link, looks⟩ := goesOn rfl
    refine ⟨enough, s', looks, ?_, completed⟩
    rw [link, show (l'.limited enough).reader = l'.reader from rfl, relayed.reader]
    exact left
  · let e : WireError := .chunk .missingLineEnd
    have failed : ((l broken).body.drain (l broken).reader { limit := 0 }).ending = .error e := by
      dsimp only [l, opened, session, head, broken, e]
      decide +kernel
    have pieces : ((l broken).body.drain (l broken).reader { limit := 0 }).pieces.length = 2 := by
      dsimp only [l, opened, session, head, broken]
      decide +kernel
    obtain ⟨enough, breaks⟩ := (relays broken).2 e failed
    obtain ⟨l', _, _, _, _, reported⟩ := breaks enough (Nat.le_refl _)
    have read : (session broken enough).link.readHead 16384 =
        (.ok (some head), opened broken enough) := by
      rfl
    let h : server.Handling (session broken enough) :=
      ⟨head, opened broken enough, request, .chunked, r, [], (l broken).limited enough, read, parsed,
        framed, responded broken enough⟩
    obtain ⟨s', served, _, completed, aborted⟩ := reported Unit server _ _ [] h (.here _)
      ⟨rfl, rfl, rfl, closes, rfl, rfl⟩
    rw [pieces] at served
    exact ⟨enough, s', served, completed, aborted⟩

end Response

end HttpExchange
