import HttpExchange.Client.Exchange
import HttpExchange.Proofs.Body.Content
import HttpExchange.Proofs.Client.Head
import HttpExchange.Proofs.Wire.Receive

/-!
A request that is sent whole is read back as the caller gave it, whatever is sent behind it.
-/

namespace HttpExchange

open Delivery (filled)

variable {d : Draft} {l : Link} {chunks : List Bytes}

theorem Draft.sendBody_flows (opened : l.writer.rule.Open) (fresh : d.body.consumed = false)
    (flows : d.body.producer.Flows .endless l.clock.now l chunks) :
    ∃ l', d.sendBody l = (.ok (), l') ∧
      l'.writer.output = l.writer.output ++ d.body.framing.transfer (filled chunks) := by
  obtain ⟨delivery, l', run, output⟩ :=
    Delivery.run_flows opened flows (Body.size_of_flows flows)
  refine ⟨l', ?_, output⟩
  rw [sendBody, Body.take, if_neg (by rw [fresh]; exact Bool.false_ne_true)]
  simp only [run]

namespace Client

variable {c : Client}

theorem writer_receive (c : Client) (method : Method) (l : Link) :
    (c.receive method l).2.writer = l.writer := by
  rcases read : l.readHead c.config.maxHeadSize with ⟨out, l'⟩
  have same : l'.writer = l.writer := congrArg (·.2.writer) read.symm
  rw [receive, read]
  rcases out with found | e | _
  · cases found with
    | none => exact same
    | some bytes =>
        simp only
        cases ResponseHead.parse bytes with
        | error e => exact same
        | ok head =>
            simp only
            cases Framing.ofResponse head method with
            | error e => exact same
            | ok framing => exact same
  · exact same
  · exact same

/-- What is received off a connection is the head that the client takes for its answer, with the
body in front of which the client then is. -/
theorem receive_of_reception {method : Method} {reception : Reception ResponseHead}
    (received : Wire.receive ResponseHead.parse (Framing.ofResponse · method) c.config.maxHeadSize
      c.config.readBufferSize l.reader l.clock = .ok (some reception)) :
    ∃ l', c.receive method l = (.ok reception.head, l') ∧
      reception.body = l'.body.drain l'.reader l'.clock := by
  rcases read : Wire.readHead c.config.maxHeadSize l.reader l.clock with ⟨out, r, clock⟩
  rw [Wire.receive, read] at received
  have link : l.readHead c.config.maxHeadSize = (out, { l with reader := r, clock }) := by
    rw [Link.readHead, read]
  rw [receive, link]
  rcases out with (_ | bytes) | e | _
  · cases received
  · simp only at received ⊢
    cases parsed : ResponseHead.parse bytes with
    | error e =>
        rw [parsed] at received
        cases received
    | ok head =>
        rw [parsed] at received
        simp only at received ⊢
        cases framed : Framing.ofResponse head method with
        | error e =>
            rw [framed] at received
            cases received
        | ok framing =>
            rw [framed] at received
            cases received
            exact ⟨_, rfl, rfl⟩
  · cases received
  · cases received

theorem output_send (whole : d.spoiled = false) (opened : l.writer.rule.Open)
    (fresh : d.body.consumed = false)
    (flows : d.body.producer.Flows .endless l.clock.now l chunks) :
    (c.send d l).2.2.writer.output = l.writer.output ++
      (d.head c.config ++ d.body.framing.transfer (filled chunks)) := by
  obtain ⟨w, sent, put⟩ := Delivery.send_open opened (d.head c.config)
  have still : w.rule.Open := put.rule ▸ opened
  obtain ⟨l', delivered, output⟩ :=
    Draft.sendBody_flows (l := { l with writer := w }) still fresh (flows.behind w)
  have same : (c.send d l).2.2.writer = l'.writer := by
    have silent := writer_receive { c with issued := c.issued + 1 } d.method l'
    rw [send, if_neg (by rw [whole]; exact Bool.false_ne_true)]
    simp only [sent, delivered]
    rcases received : ({ c with issued := c.issued + 1 } : Client).receive d.method l' with ⟨out, l₂⟩
    rw [received] at silent
    cases out with
    | ok head => exact silent
    | error e => exact silent
    | stuck => exact silent
  rw [same, output, put.output, List.append_assoc]

/-- A request that is sent whole arrives whole. The server reads back what the caller gave, and the
chunks of the body, to the end and no further. -/
theorem readBack_send (c : Client) (proper : d.Proper c.config) (whole : d.spoiled = false)
    (opened : l.writer.rule.Open) (fresh : d.body.consumed = false)
    (fits : d.body.producer.Fits l)
    (flows : d.body.producer.Flows .endless l.clock.now l chunks) :
    ∃ body, (c.send d l).2.2.writer.output = l.writer.output ++ (d.head c.config ++ body) ∧
      ∀ (reader : Reader) (rest : Bytes) (tail : List Arrival) (limit bound : Nat) (clock : Clock),
        reader.Holds (d.head c.config ++ (body ++ rest)) tail → (d.head c.config).length ≤ limit →
        ∃ reception, Wire.receive RequestHead.parse Framing.ofRequest limit bound reader clock =
            .ok (some reception) ∧
          d.ReadBack c.config reception.head ∧ reception.body.ending = .ok () ∧
          reception.body.pieces = (filled chunks).flatMap (Bytes.cut bound) ∧
          reception.body.pieces.flatten = chunks.flatten ∧
          reception.body.reader.Holds rest tail := by
  refine ⟨_, output_send whole opened fresh flows, ?_⟩
  intro reader rest tail limit bound clock holds enough
  obtain ⟨fields, parsed, spec⟩ := Draft.parse_head proper
  have framed : Framing.ofRequest ⟨d.method, d.target, .http11, fields⟩ = .ok d.body.framing :=
    Draft.framing_agrees (Body.small_of_fits fits) spec
  have each := Fields.headLines (RequestHead.headLine_firstLine d.method proper.target)
    fun field member => (Draft.clean_sentFields proper field member).toWritable
  rw [Draft.head_eq] at holds enough parsed
  obtain ⟨r', received, holds'⟩ := Wire.receive_headOf Framing.ofRequest (List.cons_ne_nil _ _) each
    enough parsed framed bound holds clock
  obtain ⟨r'', read, holds''⟩ := Body.drain_of_flows flows fits bound holds' clock
  refine ⟨_, received, Draft.readBack_of_find? proper spec, ?_⟩
  have bytes := Framing.flatten_pieces .chunked bound (filled chunks)
  rw [Delivery.flatten_filled] at bytes
  rw [read]
  exact ⟨rfl, rfl, bytes, holds''⟩

/-- Two fields with one name arrive as one, and three bytes in two pieces. -/
theorem readBack_send_post :
    let d : Draft := {
      method := .post
      target := "/items?all"
      fields := [("X-Tag", "a"), ("x-tag", "b")]
      body := .ofBytes [1, 2, 3] }
    let c : Client := { config := {} }
    let l : Link :=
      { clock := { limit := 0 }, reader := { arrivals := [], capacity := 1 }, writer := {} }
    let wire := (c.send d l).2.2.writer.output
    ∃ reception, Wire.receive RequestHead.parse Framing.ofRequest wire.length 2
        { arrivals := [.bytes wire], capacity := 1 } l.clock = .ok (some reception) ∧
      d.ReadBack c.config reception.head ∧ reception.head.field? "X-Tag" = some "a, b" ∧
      reception.body.ending = .ok () ∧ reception.body.pieces = [[1, 2], [3]] ∧
      reception.body.reader.Holds [] [] := by
  intro d c l wire
  have proper : d.Proper c.config :=
    ⟨by decide, by decide, by decide, by decide, List.pairwise_singleton _ _⟩
  have opened : l.writer.rule.Open := WriteRule.open_default
  have fits : d.body.producer.Fits l := Producer.fits_known (by decide) l
  have lasts : Patience.endless.Lasts l.clock.now := trivial
  have flows : d.body.producer.Flows _ l.clock.now l [[1, 2, 3]] := Producer.flows_known lasts _
  obtain ⟨body, output, reads⟩ := readBack_send c proper rfl opened rfl fits flows
  have sent : wire = d.head c.config ++ (body ++ []) := by
    rw [List.append_nil]
    exact output.trans (List.nil_append _)
  have holds := Reader.holds_segments Nat.one_pos [wire] []
  rw [List.flatten_singleton, sent] at holds
  have enough : (d.head c.config).length ≤ wire.length := by
    rw [sent, List.length_append]
    exact Nat.le_add_right _ _
  obtain ⟨reception, received, head, ending, pieces, _, left⟩ :=
    reads _ [] [] wire.length 2 l.clock holds enough
  rw [← sent] at received
  refine ⟨reception, received, head, ?_, ending, ?_, left⟩
  · exact head.own ("X-Tag", "a") List.mem_cons_self (by decide)
  · rw [pieces]
    simp [filled, Bytes.cut]

end Client

end HttpExchange
