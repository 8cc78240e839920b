import HttpExchange.Proofs.Body.Reading
import HttpExchange.Server.Connection

/-!
The place of a connection in its input. Each time a server looks for a further request, all that it
has taken off the input are whole requests, each with its body. Where a body was not read to its
end, the server looks for no further request, and so no byte of a body is ever taken for one.
-/

namespace HttpExchange

deriving instance DecidableEq for Server.Step

variable {ω : Type}

theorem Framing.ofRequest_ne_untilClose {head : RequestHead} {f : Framing}
    (framed : ofRequest head = .ok f) : f ≠ .untilClose := by
  rintro rfl
  unfold ofRequest announced at framed
  split at framed
  · cases framed
  · split at framed
    · next text _ =>
        rw [ofLength] at framed
        split at framed <;> cases framed
    · cases framed

theorem Program.onlyReads_run {program : Program ω} {seen seen' : List ω} {l l' : Link}
    {verdict : Verdict} (eq : program.run seen l = (verdict, seen', l')) : l.OnlyReads l' := by
  induction program generalizing seen l with
  | respond | fail | panic =>
      cases eq
      exact (Link.Still.refl _).onlyReads
  | note what rest ih => exact ih eq
  | pause ms rest ih =>
      simp only [run] at eq
      split at eq
      · next waited => exact (Link.still_waitUntil waited).onlyReads.trans (ih eq)
      · next waited =>
          cases eq
          exact (Link.still_waitUntil waited).onlyReads
  | pull rest ih =>
      simp only [run] at eq
      split at eq
      · next read => exact (Link.onlyReads_readPiece read).trans (ih _ eq)
      · next read => exact (Link.onlyReads_readPiece read).trans (ih _ eq)
      · next read =>
          cases eq
          exact Link.onlyReads_readPiece read
  | collect rest ih =>
      simp only [run] at eq
      split at eq
      · next read => exact (Producer.onlyReads_collectOnto read).trans (ih _ eq)
      · next read => exact (Producer.onlyReads_collectOnto read).trans (ih _ eq)
      · next read =>
          cases eq
          exact Producer.onlyReads_collectOnto read

namespace Response

variable {r : Response} {idle : Option Nat} {l l' : Link}

theorem onlyReads_deliver {out : Outcome BodyError Nat} {d : Delivery}
    (eq : r.deliver idle l = (out, d, l')) : l.OnlyReads l' := by
  unfold deliver at eq
  split at eq
  · exact Delivery.onlyReads_run eq
  · cases eq
    exact (Link.Still.refl l).onlyReads

theorem onlyReads_send {x x' : Exchange} {method : Method} {close : Bool}
    {out : Outcome ServerError Unit} (eq : r.send x method close idle l = (out, x', l')) :
    l.OnlyReads l' := by
  unfold send at eq
  split at eq
  · next sent =>
      cases eq
      exact (Link.still_send sent).onlyReads
  · next sent =>
      cases eq
      exact (Link.still_send sent).onlyReads
  · next sent =>
      have headed := (Link.still_send sent).onlyReads
      split at eq <;> next delivered =>
        have reads := headed.trans (onlyReads_deliver delivered)
        cases eq
        first
        | exact reads
        | exact reads.trans (Link.still_shutdown _).onlyReads

end Response

namespace Server

variable {server : Server ω} {s s₀ s₁ s' : Session ω} {head : RequestHead} {framing : Framing}
  {step : Step}

theorem onlyReads_respond {seen seen' : List ω} {l l' : Link} {out : Option Response}
    (eq : server.respond head framing seen l = (out, seen', l')) : l.OnlyReads l' := by
  unfold respond at eq
  split at eq
  · cases eq
    exact (Link.Still.refl l).onlyReads
  · split at eq <;> next ran =>
      cases eq
      exact Program.onlyReads_run ran

theorem onlyReads_exchange {x : Exchange} (eq : server.exchange head framing x s = (step, s')) :
    (s.link.expect framing server.config.readBufferSize).OnlyReads s'.link := by
  unfold exchange at eq
  split at eq
  · next responded =>
      cases eq
      exact onlyReads_respond responded
  · next responded =>
      have answered := onlyReads_respond responded
      split at eq
      · next sent =>
          cases eq
          exact answered.trans (Response.onlyReads_send sent)
      · next sent =>
          cases eq
          exact answered.trans (Response.onlyReads_send sent)
      · next sent =>
          have reads := answered.trans (Response.onlyReads_send sent)
          unfold settle at eq
          split at eq
          · cases eq
            exact reads.trans (Link.still_shutdown _).onlyReads
          · cases eq
            exact reads

theorem isLeftOver_of_proceed {x : Exchange}
    (eq : server.exchange head framing x s = (.proceed, s')) :
    isLeftOver framing s'.link = false := by
  unfold exchange at eq
  split at eq
  · cases eq
  · split at eq
    · cases eq
    · cases eq
    · unfold settle at eq
      split at eq
      · cases eq
      · next other =>
          cases eq
          rw [Bool.not_eq_true, Bool.or_eq_false_iff] at other
          exact other.2

/-- A body that was read by others, from its start on: it came to its end exactly if an end was
answered before any error, and then the reader stands behind it. -/
theorem spans_of_reads {bound : Nat} {l l' : Link} {answers : List (Outcome WireError Piece)}
    (own : framing ≠ .untilClose) (reads : (l.expect framing bound).Reads answers l') :
    l'.body.released = Decoder.endsInOrder answers ∧
      (l'.body.released = true →
        ∃ b chunks, l.reader.Takes b l'.reader ∧ framing.Spans b chunks) := by
  obtain ⟨b, taken, released, spans⟩ := reads.stands (Decoder.stands_start own bound) rfl
  refine ⟨released, fun ended => ?_⟩
  obtain ⟨chunks, whole⟩ := spans (released ▸ ended)
  exact ⟨b, chunks, taken, whole⟩

/-- Behind an exchange that another one may follow, the reader stands behind the body. -/
theorem spans_of_proceed {x : Exchange} (own : framing ≠ .untilClose)
    (eq : server.exchange head framing x s = (.proceed, s')) :
    ∃ b chunks, s.link.reader.Takes b s'.link.reader ∧ framing.Spans b chunks := by
  obtain ⟨answers, reads⟩ := onlyReads_exchange eq
  have kept := isLeftOver_of_proceed eq
  by_cases none : framing = .empty
  · subst none
    obtain ⟨same, _⟩ := reads.done rfl
    refine ⟨[], [], ?_, .empty⟩
    rw [same]
    exact .refl _
  · have released : s'.link.body.released = true := by
      rw [isLeftOver, Bool.and_eq_false_iff] at kept
      rcases kept with empty | whole
      · exact absurd (by simpa using empty) none
      · simpa using whole
    exact (spans_of_reads own reads).2 released

end Server

/-- A request as it stands on the wire: its head, with blank lines in front, and its body under the
framing that the head announces. -/
structure Message where
  blanks : List Bytes
  head : Bytes
  request : RequestHead
  framing : Framing
  body : Bytes
  chunks : List Bytes
  blank : ∀ line ∈ blanks, Bytes.Line [] line
  whole : Wire.IsHead head
  parsed : RequestHead.parse head = .ok request
  framed : Framing.ofRequest request = .ok framing
  spans : framing.Spans body chunks

def Message.wire (m : Message) : Bytes := m.blanks.flatten ++ (m.head ++ m.body)

namespace Server

/-- From one session on, a server has answered requests with these heads, and looks for another one
in the other session. -/
inductive Looks (server : Server ω) : Session ω → List Bytes → Session ω → Prop where
  | here (s : Session ω) : Looks server s [] s
  | next {s s₁ s' : Session ω} {link : Link} {head : Bytes} {heads : List Bytes}
      (read : s.link.readHead server.config.maxHeadSize = (.ok (some head), link))
      (answered : server.answer head { s with link } = (.proceed, s₁))
      (rest : Looks server s₁ heads s') : Looks server s (head :: heads) s'

variable {server : Server ω} {s s₀ s₁ s' : Session ω} {link : Link} {heads : List Bytes}

theorem serve_eq (server : Server ω) (s : Session ω) :
    server.serve s = match s.link.readHead server.config.maxHeadSize with
      | (.ok none, link) => (.ok (), { s with link })
      | (.error e, link) => (.error (.body (.wire e)), { s with link }.abort)
      | (.stuck, link) => (.stuck, { s with link })
      | (.ok (some head), link) => match server.answer head { s with link } with
        | (.finished result, s) => (result, s)
        | (.proceed, s) => serve server s := by
  rw [serve]
  split
  · next read => simp only [read]
  · next read => simp only [read]
  · next read => simp only [read]
  · next read =>
      simp only [read]
      split <;> next answered => rw [answered]

/-- What an exchange takes off the input that another one may follow is one whole request. -/
theorem message_of_proceed {head : Bytes}
    (read : s.link.readHead server.config.maxHeadSize = (.ok (some head), link))
    (answered : server.answer head { s with link } = (.proceed, s₁)) :
    ∃ m : Message, m.head = head ∧ s.link.reader.Takes m.wire s₁.link.reader := by
  rcases eq : Wire.readHead server.config.maxHeadSize s.link.reader s.link.clock with ⟨out, r, c⟩
  rw [Link.readHead, eq] at read
  cases read
  obtain ⟨whole, blanks, blank, taken⟩ := Wire.readHead_takes eq
  unfold answer at answered
  split at answered
  · cases answered
  · next request parsed =>
      split at answered
      · cases answered
      · next framing framed =>
          obtain ⟨body, chunks, takes, spans⟩ :=
            spans_of_proceed (Framing.ofRequest_ne_untilClose framed) answered
          refine ⟨⟨blanks, head, request, framing, body, chunks, blank, whole, parsed, framed,
            spans⟩, rfl, ?_⟩
          rw [Message.wire, ← List.append_assoc]
          exact taken.trans takes

/-- Where the body of a request was not read to its end, nothing else is looked for. -/
theorem serve_of_unread {head : Bytes} {request : RequestHead} {framing : Framing} {step : Step}
    {answers : List (Outcome WireError Piece)}
    (read : s.link.readHead server.config.maxHeadSize = (.ok (some head), link))
    (parsed : RequestHead.parse head = .ok request)
    (framed : Framing.ofRequest request = .ok framing) (some : framing ≠ .empty)
    (answered : server.answer head { s with link } = (step, s'))
    (reads : (link.expect framing server.config.readBufferSize).Reads answers s'.link)
    (unread : Decoder.endsInOrder answers = false) :
    ∃ result, step = .finished result ∧ server.serve s = (result, s') := by
  have own := Framing.ofRequest_ne_untilClose framed
  have kept : s'.link.body.released = false := by rw [(spans_of_reads own reads).1, unread]
  cases step with
  | finished result =>
      refine ⟨result, rfl, ?_⟩
      rw [serve_eq, read]
      simp only [answered]
  | proceed =>
      rw [answer, parsed] at answered
      simp only [framed] at answered
      have none := isLeftOver_of_proceed answered
      rw [isLeftOver, kept, Bool.not_false, Bool.and_true] at none
      exact absurd (by simpa using none) some

theorem serve_of_looks (looks : server.Looks s₀ heads s) : server.serve s₀ = server.serve s := by
  induction looks with
  | here s => rfl
  | next read answered rest ih =>
      rw [serve_eq, read]
      simp only [answered]
      exact ih

theorem messages_of_looks (looks : server.Looks s₀ heads s) :
    ∃ messages : List Message, messages.map Message.head = heads ∧
      s₀.link.reader.Takes (messages.flatMap Message.wire) s.link.reader := by
  induction looks with
  | here s => exact ⟨[], rfl, .refl _⟩
  | next read answered rest ih =>
      obtain ⟨messages, rfl, taken⟩ := ih
      obtain ⟨m, rfl, takes⟩ := message_of_proceed read answered
      refine ⟨m :: messages, rfl, ?_⟩
      rw [List.flatMap_cons]
      exact takes.trans taken

/-- A connection never loses its place. Where a server looks for a further request, it has taken off
the input the requests before, each with its whole body, and nothing else. If what was answered of
a body has no end in order, the server looks for no further request. -/
theorem serve_keepsPlace (looks : server.Looks s₀ heads s) :
    server.serve s₀ = server.serve s ∧
      (∃ messages : List Message, messages.map Message.head = heads ∧
        s₀.link.reader.Takes (messages.flatMap Message.wire) s.link.reader) ∧
      ∀ head link request framing step s',
        s.link.readHead server.config.maxHeadSize = (.ok (some head), link) →
        RequestHead.parse head = .ok request → Framing.ofRequest request = .ok framing →
        framing ≠ .empty → server.answer head { s with link } = (step, s') →
        (∃ answers, (link.expect framing server.config.readBufferSize).Reads answers s'.link) ∧
        ∀ answers, (link.expect framing server.config.readBufferSize).Reads answers s'.link →
          Decoder.endsInOrder answers = false →
          ∃ result, step = .finished result ∧ server.serve s = (result, s') := by
  refine ⟨serve_of_looks looks, messages_of_looks looks, ?_⟩
  intro head link request framing step s' read parsed framed some answered
  constructor
  · rw [answer, parsed] at answered
    simp only [framed] at answered
    exact onlyReads_exchange answered
  · intro answers reads unread
    exact serve_of_unread read parsed framed some answered reads unread

/-- A body that is handed on to the response is read while that is sent, and the next request is
looked for right behind it. A body for which there is no handler is left where it is. -/
theorem serve_keepsPlace_relayed :
    let relay : Handler Unit := fun request => .respond { status := .ok, body := request.body }
    let relaying : Server Unit :=
      { config := {}, routes := ⟨[⟨.post, ⟨"/", [.literal ""]⟩, relay⟩]⟩ }
    let deaf : Server Unit := { config := {}, routes := {} }
    let head :=
      Utf8.encode "POST / HTTP/1.0\r\nConnection: keep-alive\r\nContent-Length: 2\r\n\r\n"
    let l : Link := {
      clock := { limit := 0 }
      reader := { arrivals := [.bytes (head ++ [104, 105, 71])], capacity := 4 }
      writer := {} }
    let s₀ : Session Unit := { link := l, counters := {} }
    (∃ s, relaying.Looks s₀ [head] s ∧ relaying.serve s₀ = relaying.serve s ∧
        s.link.reader.ahead = [71] ∧ ∃ m : Message, m.head = head ∧ m.wire = head ++ [104, 105]) ∧
      ∃ s', deaf.serve s₀ = (.ok (), s') ∧ s'.link.reader.ahead = [104, 105, 71] := by
  intro relay relaying deaf head l s₀
  let link := (l.readHead 16384).2
  have read : l.readHead 16384 = (.ok (some head), link) := by rfl
  constructor
  · let answered := relaying.answer head { s₀ with link }
    have proceeds : answered.1 = .proceed := by
      dsimp only [answered, link, s₀, l, head, relaying, relay]
      decide +kernel
    have left : answered.2.link.reader.ahead = [71] := by
      dsimp only [answered, link, s₀, l, head, relaying, relay]
      decide +kernel
    have step : relaying.answer head { s₀ with link } = (.proceed, answered.2) :=
      Prod.ext proceeds rfl
    have looks : relaying.Looks s₀ [head] answered.2 := .next read step (.here _)
    obtain ⟨served, ⟨messages, same, taken⟩, _⟩ := serve_keepsPlace looks
    refine ⟨answered.2, looks, served, left, ?_⟩
    obtain ⟨m, rfl, first⟩ := List.map_eq_singleton_iff.mp same
    refine ⟨m, first, ?_⟩
    rw [Reader.Takes, left, List.flatMap_singleton] at taken
    have ahead : s₀.link.reader.ahead = (head ++ [104, 105]) ++ [71] := by
      simp [s₀, l, Reader.ahead, Arrival.carried]
    rw [ahead] at taken
    exact (List.append_cancel_right taken).symm
  · let answered := deaf.answer head { s₀ with link }
    have finishes : answered.1 = .finished (.ok ()) := by
      dsimp only [answered, link, s₀, l, head, deaf]
      decide +kernel
    have left : answered.2.link.reader.ahead = [104, 105, 71] := by
      dsimp only [answered, link, s₀, l, head, deaf]
      decide +kernel
    have kept : answered.2.link.body.released = false := by
      dsimp only [answered, link, s₀, l, head, deaf]
      decide +kernel
    let request : RequestHead :=
      ⟨.post, "/", .http10, [("Connection", "keep-alive"), ("Content-Length", "2")]⟩
    have parsed : RequestHead.parse head = .ok request := by
      dsimp only [head, request]
      decide +kernel
    have framed : Framing.ofRequest request = .ok (.length 2) := by
      dsimp only [request]
      decide +kernel
    have here : deaf.Looks s₀ [] s₀ := .here s₀
    have step : deaf.answer head { s₀ with link } = (answered.1, answered.2) := rfl
    obtain ⟨⟨answers, reads⟩, unread⟩ := (serve_keepsPlace here).2.2 head link request (.length 2)
      answered.1 answered.2 read parsed framed Framing.noConfusion step
    have none := (spans_of_reads Framing.noConfusion reads).1
    obtain ⟨result, finished, served⟩ := unread answers reads (none.symm.trans kept)
    cases finished.symm.trans finishes
    exact ⟨answered.2, served, left⟩

end Server

end HttpExchange
