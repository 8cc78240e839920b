import HttpExchange.Proofs.Server.Sending

/-!
A response that is sent whole is read back as the handler gave it, whatever is sent behind it.
The server in turn answers the request that is read off its connection.
-/

namespace HttpExchange

namespace Response

open Delivery (filled)

variable {r : Response} {l : Link} {method : Method} {chunks : List Bytes}

/-- A head that says what the handler set, and when the connection ends. -/
structure ReadBack (r : Response) (close : Bool) (head : ResponseHead) : Prop where
  version : head.version = .http11
  status : head.status = r.status.code
  reason : head.reason = r.status.reason
  own : ∀ field ∈ r.fields, Fields.isReserved field.1 = false →
    head.fields.find? field.1 = some field.2
  others : ∀ n, Fields.isReserved n = false → head.fields.find? n = Fields.find? r.fields n
  closing : head.fields.find? Fields.connection = if close then some "close" else none

theorem readBack_of_find? (clean : ∀ field ∈ r.fields, Fields.Clean field)
    (apart : Fields.Apart r.fields) {close : Bool} {fields : Fields}
    (spec : ∀ n, fields.find? n =
      Fields.joined ((Fields.valuesOf (r.sentFields close) n).map Fields.trimmed)) :
    r.ReadBack close ⟨.http11, r.status.code, r.status.reason, fields⟩ := by
  have others : ∀ n, Fields.isReserved n = false → fields.find? n = Fields.find? r.fields n := by
    intro n free
    have plain := Fields.map_trimmed_valuesOf (fun field member => (clean field member).tidy) n
    rw [Fields.valuesOf_eq_toList apart] at plain
    rw [spec, valuesOf_sentFields_free apart free, plain, Fields.joined_toList]
  refine ⟨rfl, rfl, rfl, ?_, others, field_connection spec⟩
  intro field member free
  exact (others field.1 free).trans (Fields.find?_of_mem apart member)

/-- A response that is sent whole arrives whole. The client reads back what the handler set, and the
chunks of its body, to the end and no further; for a response without a body the handler's is not
looked at. -/
theorem receive_send (x : Exchange) (method : Method) (close : Bool) {idle : Option Nat}
    (clean : ∀ field ∈ r.fields, Fields.Clean field) (apart : Fields.Apart r.fields)
    (opened : l.writer.rule.Open) (fresh : r.body.consumed = false)
    (fits : r.body.producer.Fits l)
    (flows : r.body.producer.Flows ((idle.map Patience.idle).getD .endless) l.clock.now l chunks) :
    ∃ x' l' body, r.send x method close idle l = (.ok (), x', l') ∧
      l'.writer.output = l.writer.output ++ (r.head close ++ body) ∧
      (method = .head ∨ r.status = .noContent → body = [] ∧ l'.reader = l.reader ∧
        l'.body = l.body ∧ l'.writer.count .pulled = l.writer.count .pulled) ∧
      ∀ (reader : Reader) (rest : Bytes) (tail : List Arrival) (limit bound : Nat) (c : Clock),
        reader.Holds (r.head close ++ (body ++ rest)) tail → (r.head close).length ≤ limit →
        ∃ reception, Wire.receive ResponseHead.parse (Framing.ofResponse · method) limit bound
            reader c = .ok (some reception) ∧
          r.ReadBack close reception.head ∧ reception.body.ending = .ok () ∧
          reception.body.pieces = (if method = .head ∨ r.status = .noContent then []
            else (filled chunks).flatMap (Bytes.cut bound)) ∧
          reception.body.reader.Holds rest tail := by
  have small := Body.small_of_fits fits
  have writable : ∀ field ∈ r.fields, Fields.Writable field :=
    fun field member => (clean field member).toWritable
  by_cases none : method = .head ∨ r.status = .noContent
  · obtain ⟨x', w, sent, wrote⟩ := send_bodiless x none close opened flows.lasts
    refine ⟨x', { l with writer := w }, [], sent, ?_, fun _ => ⟨rfl, rfl, rfl, wrote.pulls⟩, ?_⟩
    · rw [List.append_nil]
      exact wrote.output
    · intro reader rest tail limit bound c holds enough
      obtain ⟨fields, r', received, holds', spec⟩ :=
        receive_head writable small method enough bound holds c
      refine ⟨_, received, readBack_of_find? clean apart spec, ?_⟩
      rw [strip_of_bodiless none, if_pos none]
      obtain ⟨r'', read, holds''⟩ := Decoder.drain_done (d := .start .empty bound) holds' c
      have drained : (Decoder.start (r.withBody .empty).body.framing bound).drain r' c = _ := read
      rw [drained]
      exact ⟨rfl, rfl, holds''⟩
  · have notHead : method ≠ .head := fun head => none (.inl head)
    have allowed : r.status ≠ .noContent := fun status => none (.inr status)
    obtain ⟨x', l', sent, output⟩ := send_flows x notHead allowed close opened fresh flows
    refine ⟨x', l', _, sent, output, fun bodiless => absurd bodiless none, ?_⟩
    intro reader rest tail limit bound c holds enough
    obtain ⟨fields, r', received, holds', spec⟩ :=
      receive_head writable small method enough bound holds c
    refine ⟨_, received, readBack_of_find? clean apart spec, ?_⟩
    obtain ⟨r'', read, holds''⟩ := Body.drain_of_flows flows fits bound holds' c
    rw [strip_of_allowed notHead allowed, if_neg none, read]
    exact ⟨rfl, rfl, holds''⟩

/-- Three chunks, one of them without bytes, with the first byte of the next message behind them. -/
theorem receive_send_chunks :
    let steps : List Yield := [.chunk [1, 2, 3], .chunk [], .giveWay, .chunk [4]]
    let r : Response := { status := .ok, body := .ofProducer (.script steps) }
    let l : Link :=
      { clock := { limit := 0 }, reader := { arrivals := [], capacity := 1 }, writer := {} }
    let sent := (r.send { id := 1 } .get true none l).2.2.writer.output
    ∃ reception, Wire.receive ResponseHead.parse (Framing.ofResponse · .get) sent.length 2
        { arrivals := [.bytes (sent ++ [72])], capacity := 1 } l.clock = .ok (some reception) ∧
      r.ReadBack true reception.head ∧ reception.body.ending = .ok () ∧
      reception.body.pieces = [[1, 2], [3], [4]] ∧ reception.body.reader.Holds [72] [] := by
  intro steps r l sent
  have clean : ∀ field ∈ r.fields, Fields.Clean field := by decide
  have opened : l.writer.rule.Open := WriteRule.open_default
  have fits : r.body.producer.Fits l := Producer.fits_script (by decide) l
  have lasts : (((none : Option Nat).map Patience.idle).getD .endless).Lasts l.clock.now := trivial
  have flows : r.body.producer.Flows _ l.clock.now l (Yield.offered steps) :=
    Producer.flows_script lasts (by decide)
  obtain ⟨x', l', body, whole, output, _, reads⟩ := receive_send { id := 1 } .get true clean
    (List.pairwise_singleton _ _) opened rfl fits flows
  have wire : sent = r.head true ++ body := by
    rw [show sent = l'.writer.output from congrArg (·.2.2.writer.output) whole, output]
    exact List.nil_append _
  have holds := Reader.holds_segments Nat.one_pos [sent ++ [72]] []
  rw [List.flatten_singleton, wire, List.append_assoc] at holds
  have enough : (r.head true).length ≤ sent.length := by
    rw [wire, List.length_append]
    exact Nat.le_add_right _ _
  obtain ⟨reception, received, head, ending, pieces, left⟩ :=
    reads _ [72] [] sent.length 2 l.clock holds enough
  rw [wire, List.append_assoc, ← wire]
  refine ⟨reception, received, head, ending, ?_, left⟩
  rw [pieces]
  simp [steps, Yield.offered, filled, Bytes.cut, r]

end Response

/-- What is received off a connection is the request that the server answers, with the body in front
of which its handler then is. -/
theorem Server.exchange_of_reception {ω : Type} {server : Server ω} {s : Session ω}
    {reception : Reception RequestHead}
    (received : Wire.receive RequestHead.parse Framing.ofRequest server.config.maxHeadSize
      server.config.readBufferSize s.link.reader s.link.clock = .ok (some reception)) :
    ∃ bytes link, s.link.readHead server.config.maxHeadSize = (.ok (some bytes), link) ∧
      server.answer bytes { s with link } =
        server.exchange reception.head reception.framing s.exchange { s with link }.issue ∧
      reception.body = (link.expect reception.framing server.config.readBufferSize).body.drain
        link.reader link.clock := by
  rcases read : Wire.readHead server.config.maxHeadSize s.link.reader s.link.clock with
    ⟨out, reader, clock⟩
  rw [Wire.receive, read] at received
  have link : s.link.readHead server.config.maxHeadSize =
      (out, { s.link with reader, clock }) := by
    rw [Link.readHead, read]
  rw [link]
  rcases out with (_ | bytes) | e | _
  · cases received
  · refine ⟨bytes, _, rfl, ?_⟩
    rw [answer]
    simp only at received
    cases parsed : RequestHead.parse bytes with
    | error e =>
        rw [parsed] at received
        cases received
    | ok head =>
        rw [parsed] at received
        simp only at received ⊢
        cases framed : Framing.ofRequest head with
        | error e =>
            rw [framed] at received
            cases received
        | ok framing =>
            rw [framed] at received
            cases received
            exact ⟨rfl, rfl⟩
  · cases received
  · cases received

end HttpExchange
