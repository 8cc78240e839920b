import HttpExchange.Proofs.Body.Breaking
import HttpExchange.Proofs.Server.Account
import HttpExchange.Proofs.Server.Likeness

/-!
A body that fails behind its head. The response is broken off: the chunks before the failure are on
the wire in whole frames, no end follows them, and the connection is closed. The server tells of it
with the number of these chunks, and the client has them all before it learns that more should have
come.
-/

namespace HttpExchange

open Delivery (filled Event)

namespace Response

variable {r : Response} {p : Producer} {l l' : Link} {method : Method} {close : Bool}
  {idle : Option Nat} {chunks : List Bytes} {cause : Mishap}

/-- What the wire and the producer show of a response that was left open behind some chunks, with the
last answers that were waited for. -/
structure LeftOpen (r : Response) (method : Method) (close : Bool) (idle : Option Nat)
    (l l' : Link) (chunks : List Bytes) (answers : List Pull) : Prop where
  /-- The head and the frames of the chunks that have bytes, and no end. -/
  output : l'.writer.output =
    l.writer.output ++ (r.head close ++ Framing.chunked.frames (filled chunks))
  /-- The sending direction was closed behind all that happened, and not before. -/
  trace : l'.writer.events = l.writer.events ++
    ((r.history method close idle l).flatMap (Event.shown r.body.producer.isNoted) ++ [.shut])
  open_ : .shut ∉ (r.history method close idle l).flatMap (Event.shown r.body.producer.isNoted)
  /-- The producer was asked for these chunks, then for these answers, and not again. -/
  asked : Event.answers (r.history method close idle l) = chunks.map .chunk ++ answers

/-- A response that was broken off: the last answer was the failure. -/
abbrev BrokenOff (r : Response) (method : Method) (close : Bool) (idle : Option Nat)
    (l l' : Link) (chunks : List Bytes) (cause : Mishap) : Prop :=
  r.LeftOpen method close idle l l' chunks [.failed cause]

/-- What a client has of a response that was broken off behind some chunks, when it reads the body in
pieces of so many bytes. -/
structure CutOff (r : Response) (close : Bool) (chunks : List Bytes) (bound : Nat)
    (reception : Reception ResponseHead) : Prop where
  status : reception.head.status = r.status.code
  reason : reception.head.reason = r.status.reason
  fields : ∀ n, reception.head.fields.find? n =
    Fields.joined ((Fields.valuesOf (r.sentFields close) n).map Fields.trimmed)
  pieces : reception.body.pieces = (filled chunks).flatMap (Bytes.cut bound)
  whole : (∀ b ∈ chunks, b.length ≤ bound) → reception.body.pieces = filled chunks
  ending : reception.body.ending = .error .incomplete

theorem answers_history (fresh : r.body.consumed = false) (notHead : method ≠ .head)
    (allowed : r.status ≠ .noContent) {l₁ : Link} (sent : l.send (r.head close) = (.ok (), l₁)) :
    Event.answers (r.history method close idle l) = Event.answers
      (({ framing := r.body.framing } : Delivery).history ((idle.map Patience.idle).getD .endless)
        r.body.producer l₁) := by
  have quiet := (Delivery.sends_of_send false sent).1.quiet
  rw [history, sent, strip_of_allowed notHead allowed]
  simp only
  rw [Event.answers_append, quiet.answers, List.nil_append, bodyHistory, Body.take,
    if_neg (by rw [fresh]; exact Bool.false_ne_true)]

/-- A failure of the body is told with the number of the exchange, and closes the sending
direction. -/
theorem send_of_failed (x : Exchange) {l₁ l₂ : Link} {d : Delivery} {e : BodyError}
    (sent : l.send (r.head close) = (.ok (), l₁))
    (delivered : (r.strip method).deliver idle l₁ = (.error e, d, l₂)) :
    ∃ x', r.send x method close idle l = (.error (.aborted x.id e), x', l₂.shutdown) := by
  let streaming := ((x.advance .headSent).2.advance .streaming).2
  have number : streaming.id = x.id := by
    rw [Exchange.id_advance, Exchange.id_advance]
  rw [send, sent, ← number]
  simp only [delivered]
  exact ⟨_, rfl⟩

theorem aborted_of_send {id number : Nat} {x' : Exchange} {e : BodyError}
    (eq : r.send { id } method close idle l = (.error (.aborted number e), x', l')) :
    x' = { id, phase := .aborted } := by
  unfold send at eq
  split at eq
  · cases eq
  · cases eq
  · split at eq <;> cases eq
    rfl

/-- What is shown of a delivery that failed behind some chunks is shown of the whole response. -/
theorem leftOpen_of_failed {l₁ l₂ : Link} {d : Delivery} {out : Outcome BodyError Nat}
    {answers : List Pull} (notHead : method ≠ .head) (allowed : r.status ≠ .noContent)
    (stream : r.body = .ofProducer p) (sent : l.send (r.head close) = (.ok (), l₁))
    (delivered : (r.strip method).deliver idle l₁ = (out, d, l₂))
    (output : l₂.writer.output = l₁.writer.output ++ Framing.chunked.frames (filled chunks))
    (asked : Event.answers (({ framing := .chunked } : Delivery).history
      ((idle.map Patience.idle).getD .endless) p l₁) = chunks.map .chunk ++ answers) :
    r.LeftOpen method close idle l l₂.shutdown chunks answers := by
  obtain ⟨part, put, whole, _⟩ := Delivery.put_send sent
  cases whole rfl
  refine ⟨?_, ?_, Event.shut_notMem_flatMap _ _, ?_⟩
  · rw [Link.output_shutdown, output, put.output, List.append_assoc]
  · have shown := shown_of_delivered sent delivered
    rw [strip_of_allowed notHead allowed] at shown
    rw [Link.events_shutdown, shown, List.append_assoc]
  · have fresh : r.body.consumed = false := congrArg Body.consumed stream
    rw [answers_history fresh notHead allowed sent, stream]
    exact asked

theorem deliver_stream (notHead : method ≠ .head) (allowed : r.status ≠ .noContent)
    (stream : r.body = .ofProducer p) (idle : Option Nat) (l : Link) :
    (r.strip method).deliver idle l =
      ({ framing := .chunked } : Delivery).run ((idle.map Patience.idle).getD .endless) p l := by
  have fresh : r.body.consumed = false := congrArg Body.consumed stream
  rw [strip_of_allowed notHead allowed, deliver_fresh fresh, stream]
  rfl

/-- Unless the idle timeout cuts it off, a response is broken off where its producer fails, once
there is enough time. -/
theorem send_breaks (x : Exchange) (notHead : method ≠ .head) (allowed : r.status ≠ .noContent)
    (stream : r.body = .ofProducer p) (close : Bool) (idle : Option Nat)
    (willing : l.writer.rule.Willing) (breaks : p.Breaks l chunks cause) :
    ∃ enough : Nat,
      (idle ≠ none ∧ ∀ limit, enough ≤ limit →
        (r.send x method close idle (l.limited limit)).1 =
          .error (.aborted x.id (.cancelled true))) ∨
      ∀ limit, enough ≤ limit → ∃ x' l', r.send x method close idle (l.limited limit) =
          (.error (.aborted x.id (.postCommit (filled chunks).length cause)), x', l') ∧
        r.BrokenOff method close idle (l.limited limit) l' chunks cause := by
  obtain ⟨enough₁, l₁, sends⟩ := Delivery.send_willing willing (r.head close)
  obtain ⟨part, put, _⟩ := Delivery.put_send (sends enough₁ (Nat.le_refl _))
  have willing₁ : l₁.writer.rule.Willing := put.rule ▸ willing
  have breaks₁ : p.Breaks l₁ chunks cause := breaks.congr ⟨put.body, put.reader⟩
  have delivers := fun limit => deliver_stream notHead allowed stream idle (l₁.limited limit)
  obtain ⟨enough₂, ⟨timed, cut⟩ | interrupted | breaksOff⟩ :=
    Delivery.run_of_breaks ((idle.map Patience.idle).getD .endless) willing₁.patient breaks₁
  · refine ⟨max enough₁ enough₂, .inl ⟨fun none => timed ?_, fun limit late => ?_⟩⟩
    · rw [none]
      rfl
    · obtain ⟨d, l₂, ran⟩ := cut limit (by omega)
      obtain ⟨x', failed⟩ := send_of_failed x (sends limit (by omega)) ((delivers limit).trans ran)
      exact congrArg Prod.fst failed
  · exact absurd willing₁ (interrupted enough₂ (Nat.le_refl _)).not_willing
  · refine ⟨max enough₁ enough₂, .inr fun limit late => ?_⟩
    obtain ⟨d, l₂, ran, carried, answers⟩ := breaksOff limit (by omega)
    have sent := sends limit (by omega)
    have delivered := (delivers limit).trans ran
    obtain ⟨x', failed⟩ := send_of_failed x sent delivered
    exact ⟨x', _, failed,
      leftOpen_of_failed notHead allowed stream sent delivered carried.output answers⟩

/-- A client reads the chunks before the failure, and then that the body was cut short. -/
theorem receive_brokenOff (notHead : method ≠ .head) (allowed : r.status ≠ .noContent)
    (stream : r.body = .ofProducer p) (writable : ∀ field ∈ r.fields, Fields.Writable field)
    (small : ∀ b ∈ chunks, b.length < Numeral.bound64) {reader : Reader} {tail : List Arrival}
    (holds : reader.Holds (r.head close ++ Framing.chunked.frames (filled chunks)) tail)
    (severed : Arrival.Severed tail) {limit : Nat} (enough : (r.head close).length ≤ limit)
    (bound : Nat) (c : Clock) :
    ∃ reception, Wire.receive ResponseHead.parse (Framing.ofResponse · method) limit bound reader c =
        .ok (some reception) ∧ r.CutOff close chunks bound reception := by
  have unknown : ∀ b, r.body.content = .known b → b.length < Numeral.bound64 := by
    intro b known
    rw [stream] at known
    cases known
  obtain ⟨fields, r', received, holds', spec⟩ :=
    receive_head writable unknown method enough bound holds c
  have chunked : (r.strip method).body.framing = .chunked := by
    rw [strip_of_allowed notHead allowed, stream]
    rfl
  rw [chunked] at received
  have some : ∀ b ∈ filled chunks, b ≠ [] := fun b member => Delivery.mem_filled member
  have fits : ∀ b ∈ filled chunks, b.length < Numeral.bound64 := by
    intro b member
    exact small b (List.mem_filter.mp member).1
  obtain ⟨pieces, ending⟩ := Decoder.drain_frames_severed some fits bound holds' severed c
  refine ⟨_, received, rfl, rfl, spec, pieces, ?_, ending⟩
  intro short
  rw [pieces, List.flatMap_congr fun b member =>
    Bytes.cut_of_le (some b member) (short b (List.mem_filter.mp member).1)]
  exact List.flatMap_singleton' _

end Response

namespace Server

variable {ω : Type} {server : Server ω} {s s₀ : Session ω} {heads : List Bytes} {r : Response}
  {x x' : Exchange} {method : Method} {close : Bool} {idle : Option Nat} {l l' : Link}

structure Handling.Sends (h : server.Handling s) (r : Response) (x : Exchange) (method : Method)
    (close : Bool) (idle : Option Nat) (l : Link) : Prop where
  response : h.response = r
  exchange : s.exchange = x
  requested : h.request.method = method
  closes : server.closes h.request = close
  timeout : server.config.bodyIdleTimeout = idle
  link : h.link = l

/-- A response that fails is the end of its connection, and is counted as aborted. -/
theorem Handling.serve_of_failed {e : ServerError} (h : server.Handling s)
    (looks : server.Looks s₀ heads s) (sends : h.Sends r x method close idle l)
    (failed : r.send x method close idle l = (.error e, x', l')) :
    ∃ s', server.serve s₀ = (.error e, s') ∧ s'.link = l' ∧
      s'.counters = s.counters.issue.abort := by
  obtain ⟨rfl, rfl, rfl, rfl, rfl, rfl⟩ := sends
  have answered : server.answer h.head { s with link := h.opened } =
      (.finished (.error e), ⟨l', s.counters.issue.abort, h.seen⟩) := by
    rw [Server.answer, h.parsed]
    simp only [h.framed, Server.exchange, Session.issue, h.responded]
    rw [show Session.exchange { s with link := h.opened } = s.exchange from rfl, failed]
  refine ⟨⟨l', s.counters.issue.abort, h.seen⟩, ?_, rfl, rfl⟩
  rw [serve_of_looks looks, serve_eq, h.read]
  simp only [answered]

end Server

namespace Response

variable {r : Response} {p : Producer} {l : Link} {method : Method} {chunks : List Bytes}
  {cause : Mishap}

/-- A body that fails behind its head breaks the response off, whatever the producer gave before and
however it fails. The head and the chunks are on the wire, and no end. The server ends the
connection with the number of these chunks, and a client has them all before it learns that the body
was cut short. -/
theorem send_brokenOff (x : Exchange) (notHead : method ≠ .head) (allowed : r.status ≠ .noContent)
    (stream : r.body = .ofProducer p) (close : Bool) (idle : Option Nat)
    (willing : l.writer.rule.Willing) (breaks : p.Breaks l chunks cause) :
    ∃ enough : Nat, ∀ limit, enough ≤ limit →
      (idle ≠ none → (r.send x method close idle (l.limited limit)).1 ≠
        .error (.aborted x.id (.cancelled true))) →
      ∃ x' l', r.send x method close idle (l.limited limit) =
          (.error (.aborted x.id (.postCommit (filled chunks).length cause)), x', l') ∧
        r.BrokenOff method close idle (l.limited limit) l' chunks cause ∧
        (∀ (ω : Type) (server : Server ω) (s₀ s : Session ω) (heads : List Bytes)
          (h : server.Handling s), server.Looks s₀ heads s →
          h.Sends r x method close idle (l.limited limit) →
          ∃ s', server.serve s₀ = (.error (.aborted (s.counters.issued + 1)
              (.postCommit (filled chunks).length cause)), s') ∧
            s'.link = l' ∧ s'.counters.completed = s.counters.completed ∧
            s'.counters.aborted = s.counters.aborted + 1) ∧
        ∀ (bytes : Bytes) (reader : Reader) (tail : List Arrival) (most bound : Nat) (c : Clock),
          l'.writer.output = l.writer.output ++ bytes →
          (∀ field ∈ r.fields, Fields.Writable field) →
          (∀ b ∈ chunks, b.length < Numeral.bound64) →
          reader.Holds bytes tail → Arrival.Severed tail → (r.head close).length ≤ most →
          ∃ reception, Wire.receive ResponseHead.parse (Framing.ofResponse · method) most bound
              reader c = .ok (some reception) ∧
            r.CutOff close chunks bound reception := by
  obtain ⟨enough, breaking⟩ := send_breaks x notHead allowed stream close idle willing breaks
  refine ⟨enough, fun limit late uncut => ?_⟩
  obtain ⟨timed, cut⟩ | breaksOff := breaking
  · exact absurd (cut limit late) (uncut timed)
  obtain ⟨x', l', sent, brokenOff⟩ := breaksOff limit late
  refine ⟨x', l', sent, brokenOff, ?_, ?_⟩
  · intro ω server s₀ s heads h looks sends
    obtain ⟨s', served, link, counters⟩ := h.serve_of_failed looks sends sent
    rw [← sends.exchange] at served
    refine ⟨s', served, link, ?_, ?_⟩ <;> rw [counters] <;> rfl
  · intro bytes reader tail most bound c output writable small holds severed enough
    cases List.append_cancel_left (output.symm.trans brokenOff.output)
    exact receive_brokenOff notHead allowed stream writable small holds severed enough bound c

/-- A handler that panics behind two chunks with bytes and one without. -/
theorem send_brokenOff_panicked :
    let r : Response := {
      status := .ok
      fields := [("X-Kind", "odd")]
      body := .ofProducer
        (.script [.chunk [1, 2], .chunk [], .pause 5, .chunk [3], .panic none, .chunk [4]]) }
    let server : Server Unit := {
      config := { bodyIdleTimeout := none }
      routes := ⟨[⟨.get, ⟨"/", [.literal ""]⟩, fun _ => .respond r⟩]⟩ }
    let head := Utf8.encode "GET / HTTP/1.1\r\nHost: a\r\n\r\n"
    let session (limit : Nat) : Session Unit := {
      link := {
        clock := { limit }
        reader := { arrivals := [.bytes head], capacity := 64 }
        writer := {} }
      counters := { issued := 3, completed := 2, aborted := 1 } }
    ∃ limit s' reception,
      server.serve (session limit) = (.error (.aborted 4 (.postCommit 2 (.panicked none))), s') ∧
        s'.counters.completed = 2 ∧ s'.counters.aborted = 2 ∧
        Wire.receive ResponseHead.parse (Framing.ofResponse · .get) 200 2
          { arrivals := [.bytes s'.link.writer.output], capacity := 16 } { limit := 0 } =
            .ok (some reception) ∧
        reception.body.pieces = [[1, 2], [3]] ∧ reception.body.ending = .error .incomplete := by
  intro r server head session
  let request : RequestHead := ⟨.get, "/", .http11, [("Host", "a")]⟩
  let opened (limit : Nat) : Link := ((session limit).link.readHead 16384).2
  let l : Link := (opened 0).expect .empty 8192
  have parsed : RequestHead.parse head = .ok request := by
    dsimp only [head, request]
    decide +kernel
  have framed : Framing.ofRequest request = .ok .empty := by
    dsimp only [request]
    decide +kernel
  have matched : ({ text := "/", segments := [.literal ""] } : Template).match? request.path =
      some [] := by
    dsimp only [request]
    decide +kernel
  have found : server.routes.find? request.method request.path =
      some (fun _ => .respond r, []) := by
    simp [server, request, RouteTable.find?, RouteTable.answer?, matched]
  have willing : l.writer.rule.Willing :=
    ⟨(Option.some_ne_none 0).symm, rfl, rfl, rfl, List.forall_mem_nil _, List.forall_mem_nil _⟩
  let front : List Yield := [.chunk [1, 2], .chunk [], .pause 5, .chunk [3]]
  have breaks : (Producer.script (front ++ [.panic none, .chunk [4]])).Breaks l
      (Yield.offered front) (.panicked none) := Producer.breaks_script (by decide) rfl l
  have notHead : Method.get ≠ .head := by decide
  have allowed : r.status ≠ .noContent := by decide
  obtain ⟨enough, broken⟩ :=
    send_brokenOff (session 0).exchange notHead allowed rfl false none willing breaks
  obtain ⟨_, l', _, brokenOff, reported, told⟩ := broken enough (Nat.le_refl _) (absurd rfl)
  have read : (session enough).link.readHead 16384 = (.ok (some head), opened enough) := by rfl
  have responded : server.respond request .empty [] ((opened enough).expect .empty 8192) =
      (some r, [], l.limited enough) := by
    rw [Server.respond, found]
    rfl
  let h : server.Handling (session enough) :=
    ⟨head, opened enough, request, .empty, r, [], l.limited enough, read, parsed, framed,
      responded⟩
  have closes : server.closes request = false := by
    dsimp only [server, request]
    decide +kernel
  obtain ⟨s', served, rfl, completed, aborted⟩ := reported Unit server (session enough)
    (session enough) [] h (.here _) ⟨rfl, rfl, rfl, closes, rfl, rfl⟩
  have holds := Reader.holds_segments (show 0 < 16 by decide) [s'.link.writer.output] []
  rw [List.flatten_singleton] at holds
  obtain ⟨reception, received, cutOff⟩ := told _ _ [] 200 2 { limit := 0 } rfl (by decide)
    (by decide) holds (.inl rfl) (by decide +kernel)
  refine ⟨enough, s', reception, served, completed, aborted, received, ?_, cutOff.ending⟩
  exact cutOff.whole (by decide)

end Response

end HttpExchange
