import HttpExchange.Proofs.Head.Closing
import HttpExchange.Proofs.Server.Relaying

/-!
The last exchange of a connection. A request that is taken to ask for the end of the connection is
answered with the announcement of that end, and behind its exchange the connection is closed. It is
taken so where one line alone asks for it.
-/

namespace HttpExchange

open Fields (valuesOf)

namespace Response

variable {r : Response} {method : Method} {l : Link} {idle : Option Nat} {chunks : List Bytes}

theorem head_closing (r : Response) : ∃ front,
    r.head true = front ++ Utf8.encode "Connection: close\r\n" ++ Bytes.crlf :=
  ⟨_, rfl⟩

theorem send_of_flows (x : Exchange) (close : Bool) (opened : l.writer.rule.Open)
    (fresh : (r.strip method).body.consumed = false)
    (flows : (r.strip method).body.producer.Flows ((idle.map Patience.idle).getD .endless)
      l.clock.now l chunks) :
    ∃ x' l', r.send x method close idle l = (.ok (), x', l') := by
  by_cases none : method = .head ∨ r.status = .noContent
  · obtain ⟨x', w, sent, _⟩ := send_bodiless x none close opened flows.lasts
    exact ⟨x', _, sent⟩
  · rw [not_or] at none
    rw [strip_of_allowed none.1 none.2] at fresh flows
    obtain ⟨x', l', sent, _⟩ := send_flows x none.1 none.2 close opened fresh flows
    exact ⟨x', l', sent⟩

end Response

namespace Server

variable {ω : Type} {server : Server ω} {s s' : Session ω}

theorem Handling.answer_of_closes (h : server.Handling s)
    (closes : server.closes h.request = true) : h.answer =
      match h.response.send s.exchange h.request.method true server.config.bodyIdleTimeout
        h.link with
      | (.ok (), _, l) => (.finished (.ok ()), ⟨l.shutdown, s.counters.issue.complete, h.seen⟩)
      | (.error e, _, l) => (.finished (.error e), ⟨l, s.counters.issue.abort, h.seen⟩)
      | (.stuck, _, l) => (.finished .stuck, ⟨l, s.counters.issue, h.seen⟩) := by
  rw [answer, Server.answer, h.parsed]
  simp only [h.framed, exchange, Session.issue, h.responded, closes]
  rw [show Session.exchange { s with link := h.opened } = s.exchange from rfl]
  rcases h.response.send s.exchange h.request.method true server.config.bodyIdleTimeout h.link with
    ⟨_ | e | _, x, l⟩
  · simp only [settle, closes, Bool.true_or, if_true]
  · rfl
  · rfl

theorem Handling.serve_of_finished (h : server.Handling s) {out : Outcome ServerError Unit}
    (answered : h.answer = (.finished out, s')) : server.serve s = (out, s') := by
  rw [serve_eq, h.read]
  simp only
  rw [show server.answer h.head { s with link := h.opened } = _ from answered]

/-- The exchange for a request is the last one of its connection, and the client is told so. -/
structure Handling.IsLast (h : server.Handling s) : Prop where
  announced : ∃ front, h.response.head (server.closes h.request) =
    front ++ Utf8.encode "Connection: close\r\n" ++ Bytes.crlf
  /-- No other exchange is begun. -/
  alone : (server.serve s).2.counters.issued = s.counters.issued + 1
  /-- Behind a whole response the connection is closed. -/
  completes : ∀ s', server.serve s = (.ok (), s') →
    (∃ b, h.Whole b ∧ s'.link.writer.output = s.link.writer.output ++ b) ∧
      s.link.writer.Closes s'.link.writer
  breaks : ∀ e s', server.serve s = (.error e, s') →
    (∃ b, h.Begun b ∧ s'.link.writer.output = s.link.writer.output ++ b) ∧
      s.link.writer.ClosesLast s'.link.writer
  /-- Where nothing stands in the way of the response, it is sent. -/
  delivers : ∀ chunks, s.link.writer.rule.Open →
    (h.response.strip h.request.method).body.consumed = false →
    (h.response.strip h.request.method).body.producer.Flows
      ((server.config.bodyIdleTimeout.map Patience.idle).getD .endless) h.link.clock.now h.link
      chunks → ∃ s', server.serve s = (.ok (), s')

theorem Handling.isLast (h : server.Handling s) (closes : server.closes h.request = true) :
    h.IsLast := by
  have writer := h.writer
  have answered := h.answer_of_closes closes
  rcases sent : h.response.send s.exchange h.request.method true server.config.bodyIdleTimeout
    h.link with ⟨out, x, l⟩
  simp only [sent] at answered
  refine ⟨closes ▸ h.response.head_closing, ?_, fun s' served => ?_, fun e s' served => ?_,
    fun chunks opened fresh flows => ?_⟩
  · rcases out with _ | e | _ <;> rw [h.serve_of_finished answered] <;> rfl
  · rcases out with _ | e | _ <;> rw [h.serve_of_finished answered] at served <;> cases served
    obtain ⟨b, whole, output⟩ := Response.whole_send sent
    have open_ := (Response.trace_send sent).2 rfl
    rw [writer] at output open_
    refine ⟨⟨b, ?_, (Link.output_shutdown l).trans output⟩, open_.closes (Link.events_shutdown l)⟩
    rwa [Whole, closes]
  · rcases out with _ | e | _ <;> rw [h.serve_of_finished answered] at served <;> cases served
    obtain ⟨b, begun, output⟩ := Response.begun_send sent
    have last := (Response.trace_send sent).1
    rw [writer] at output last
    refine ⟨⟨b, ?_, output⟩, last⟩
    rwa [Begun, closes]
  · obtain ⟨x', l', sent'⟩ :=
      Response.send_of_flows s.exchange true (writer.symm ▸ opened) fresh flows
    cases sent.symm.trans sent'
    exact ⟨_, h.serve_of_finished answered⟩

/-- A request with a line that asks for the end of the connection is taken to ask for it if and only
if no other line is about the connection, or the version is the one that closes by default. Where it
is taken so, every server announces the end in its response and closes the connection behind it. -/
theorem close_heeded {x : Bytes} {first : List Char} {given : List (String × String)}
    {request : RequestHead} (laid : Laid x first given)
    (parsed : RequestHead.parse x = .ok request) (asks : AsksToClose given) :
    (request.wantsClose = true ↔
      (valuesOf given Fields.connection).length = 1 ∨ request.version = .http10) ∧
    (request.wantsClose = true → ∀ {ω : Type} {server : Server ω} {s : Session ω}
      (h : server.Handling s), h.head = x → h.IsLast) := by
  obtain ⟨_, folds, _⟩ := RequestHead.parse_laid laid parsed
  refine ⟨RequestHead.wantsClose_iff_of_asks folds asks, ?_⟩
  rintro wants ω server s h rfl
  cases parsed.symm.trans h.parsed
  exact h.isLast (by rw [closes, wants, Bool.or_true])

/-- A request that asks for the end in a spelling of its own, and the same request once more. The
second one is not answered. -/
theorem close_heeded_once :
    let server : Server Unit := { config := {}, routes := {} }
    let head := Utf8.encode "GET / HTTP/1.1\r\nHost: a\r\nCONNECTION: Close\r\n\r\n"
    let session : Session Unit := {
      link := {
        clock := { limit := 0 }
        reader := { arrivals := [.bytes (head ++ head)], capacity := 64 }
        writer := {} }
      counters := {} }
    ∃ s', server.serve session = (.ok (), s') ∧ s'.counters.issued = 1 ∧
      session.link.writer.Closes s'.link.writer := by
  intro server head session
  let given := [("Host", "a"), ("CONNECTION", "Close")]
  let request : RequestHead := ⟨.get, "/", .http11, given⟩
  let opened : Link := (session.link.readHead 16384).2
  have read : session.link.readHead 16384 = (.ok (some head), opened) := by rfl
  have parsed : RequestHead.parse head = .ok request := by
    dsimp only [head, request, given]
    decide +kernel
  have laid : Laid head "GET / HTTP/1.1".toList given :=
    laid_encodeChars ["Host: a".toList, "CONNECTION: Close".toList, []] (by decide +kernel)
      (by decide +kernel)
  have asks : AsksToClose given := ⟨"Close", by decide +kernel, by decide +kernel⟩
  have framed : Framing.ofRequest request = .ok .empty := by
    dsimp only [request, given]
    decide +kernel
  let h : server.Handling session :=
    ⟨head, opened, request, .empty, { status := .notFound }, [], opened.expect .empty 8192, read,
      parsed, framed, rfl⟩
  obtain ⟨heeds, ends⟩ := close_heeded laid parsed asks
  have last : h.IsLast := ends (heeds.mpr (.inl (by decide +kernel))) h rfl
  have lasts : (Patience.idle 60000).Lasts h.link.clock.now := Nat.zero_lt_succ 59999
  obtain ⟨s', served⟩ :=
    last.delivers _ WriteRule.open_default rfl (Producer.flows_known lasts [])
  have alone := last.alone
  rw [served] at alone
  exact ⟨s', served, alone, (last.completes s' served).2⟩

/-- A request that asks for the end twice is not taken to ask for it. -/
theorem close_missed_twice :
    ¬ ∀ (x : Bytes) (first : List Char) (given : List (String × String)) (request : RequestHead),
      Laid x first given → RequestHead.parse x = .ok request → AsksToClose given →
      request.wantsClose = true := by
  intro always
  let text := "GET / HTTP/1.1\r\nHost: h\r\nConnection: close\r\nConnection: close\r\n\r\n".toList
  let given := [("Host", "h"), ("Connection", "close"), ("Connection", "close")]
  let request : RequestHead := ⟨.get, "/", .http11, [("Host", "h"), ("Connection", "close, close")]⟩
  have laid : Laid (Utf8.encodeChars text) "GET / HTTP/1.1".toList given :=
    laid_encodeChars ["Host: h".toList, "Connection: close".toList, "Connection: close".toList, []]
      (by decide +kernel) (by decide +kernel)
  have parsed : RequestHead.parse (Utf8.encodeChars text) = .ok request := by decide +kernel
  have asks : AsksToClose given := ⟨"close", by decide +kernel, by decide +kernel⟩
  have missed : request.wantsClose = false := by decide +kernel
  exact Bool.false_ne_true (missed.symm.trans (always _ _ _ _ laid parsed asks))

end Server

end HttpExchange
