import HttpExchange.Proofs.Body.Content
import HttpExchange.Proofs.Server.Head
import HttpExchange.Proofs.Wire.Receive

/-!
A response on the wire: its head, and of its body what the delivery got there. The client reads the
head back, and is then in front of the body with the framing that it was sent with.
-/

namespace HttpExchange

open Delivery (filled)

namespace Response

variable {r : Response} {l : Link} {method : Method} {chunks : List Bytes}

theorem strip_of_bodiless (none : method = .head ∨ r.status = .noContent) :
    r.strip method = r.withBody .empty := by
  rw [strip, if_pos]
  rcases none with head | status
  · exact .inl head
  · exact .inr (beq_iff_eq.mpr status)

theorem strip_of_allowed (notHead : method ≠ .head) (allowed : r.status ≠ .noContent) :
    r.strip method = r := by
  rw [strip, if_neg]
  rintro (head | forbidden)
  · exact notHead head
  · exact allowed (beq_iff_eq.mp forbidden)

theorem receive_head (writable : ∀ field ∈ r.fields, Fields.Writable field)
    (small : ∀ b, r.body.content = .known b → b.length < Numeral.bound64) (method : Method)
    {close : Bool} {limit : Nat} (enough : (r.head close).length ≤ limit) (bound : Nat)
    {reader : Reader} {y : Bytes} {tail : List Arrival}
    (holds : reader.Holds (r.head close ++ y) tail) (c : Clock) :
    ∃ fields r', Wire.receive ResponseHead.parse (Framing.ofResponse · method) limit bound reader c =
        .ok (some ⟨⟨.http11, r.status.code, r.status.reason, fields⟩, (r.strip method).body.framing,
          (Decoder.start (r.strip method).body.framing bound).drain r' c⟩) ∧
      r'.Holds y tail ∧ ∀ n, Fields.find? fields n =
        Fields.joined ((Fields.valuesOf (r.sentFields close) n).map Fields.trimmed) := by
  obtain ⟨fields, parsed, spec⟩ := parse_head writable close
  have framed : Framing.ofResponse ⟨.http11, r.status.code, r.status.reason, fields⟩ method =
      .ok (r.strip method).body.framing := framing_agrees small rfl spec method
  have each := Fields.headLines (ResponseHead.headLine_firstLine r.status)
    (writable_sentFields writable close)
  rw [head_eq] at enough holds parsed
  obtain ⟨r', received, holds'⟩ := Wire.receive_headOf (Framing.ofResponse · method)
    (List.cons_ne_nil _ _) each enough parsed framed bound holds c
  exact ⟨fields, r', received, holds', spec⟩

theorem output_deliver {r : Response} {idle : Option Nat} {out : Outcome BodyError Nat}
    {d : Delivery} {l' : Link} (eq : r.deliver idle l = (out, d, l')) :
    ∃ pulled wire, Delivery.Shows ⟨l.clock.now, { framing := r.body.framing }, r.body.producer, l⟩
        pulled wire ∧ l'.writer.output = l.writer.output ++ wire := by
  rw [deliver, Body.take] at eq
  split at eq
  · next p body taken =>
      split at taken
      · cases taken
      · cases taken
        exact Delivery.shows_of_run eq
  · cases eq
    exact ⟨[], [], ⟨.none _ _, .inl List.nil_prefix⟩, (List.append_nil _).symm⟩

theorem output_send (r : Response) (x : Exchange) (method : Method) (close : Bool)
    (idle : Option Nat) (l : Link) :
    ∃ sent, (r.send x method close idle l).2.2.writer.output = l.writer.output ++ sent ∧
      (sent <+: r.head close ∨ ∃ pulled wire, sent = r.head close ++ wire ∧
        Delivery.Shows ⟨l.clock.now, { framing := (r.strip method).body.framing },
          (r.strip method).body.producer, l⟩ pulled wire) := by
  rcases sent : l.send (r.head close) with ⟨out, l₁⟩
  obtain ⟨part, put, whole, _⟩ := Delivery.put_send sent
  rcases out with _ | e | _
  · rcases delivered : (r.strip method).deliver idle l₁ with ⟨out₂, d, l₂⟩
    obtain ⟨pulled, wire, shows, output⟩ := output_deliver delivered
    have through : l₂.writer.output = l.writer.output ++ (r.head close ++ wire) := by
      rw [output, put.output, whole rfl, List.append_assoc]
    -- an abort behind a failure writes nothing
    have same : (r.send x method close idle l).2.2.writer.output = l₂.writer.output := by
      rw [send, sent]
      simp only [delivered]
      rcases out₂ with _ | e | _
      · rfl
      · exact Link.output_shutdown l₂
      · rfl
    rw [put.link] at shows
    exact ⟨_, same.trans through, .inr ⟨pulled, wire, rfl, shows.behind⟩⟩
  · refine ⟨part, ?_, .inl put.beginning⟩
    rw [send, sent]
    exact put.output
  · refine ⟨part, ?_, .inl put.beginning⟩
    rw [send, sent]
    exact put.output

theorem deliver_fresh (fresh : r.body.consumed = false) (idle : Option Nat) (l : Link) :
    r.deliver idle l = ({ framing := r.body.framing } : Delivery).run
      ((idle.map Patience.idle).getD .endless) r.body.producer l := by
  rw [deliver, Body.take, if_neg (by rw [fresh]; exact Bool.false_ne_true)]

theorem send_flows (x : Exchange) (notHead : method ≠ .head) (allowed : r.status ≠ .noContent)
    (close : Bool) {idle : Option Nat} (opened : l.writer.rule.Open)
    (fresh : r.body.consumed = false)
    (flows : r.body.producer.Flows ((idle.map Patience.idle).getD .endless) l.clock.now l chunks) :
    ∃ x' l', r.send x method close idle l = (.ok (), x', l') ∧ l'.writer.output =
      l.writer.output ++ (r.head close ++ r.body.framing.transfer (filled chunks)) := by
  obtain ⟨w, sent, put⟩ := Delivery.send_open opened (r.head close)
  have still : w.rule.Open := put.rule ▸ opened
  obtain ⟨d, l', delivered, output⟩ := Delivery.run_flows (l := { l with writer := w }) still
    (flows.behind w) (Body.size_of_flows flows)
  rw [← deliver_fresh fresh] at delivered
  let streaming := ((x.advance .headSent).2.advance .streaming).2
  refine ⟨(streaming.advance .completed).2, l', ?_, ?_⟩
  · rw [send, sent, strip_of_allowed notHead allowed]
    simp only [delivered]
    rfl
  · rw [output, put.output, List.append_assoc]

/-- Of a response without a body only the head is sent, and the handler's body is not looked at. -/
theorem send_bodiless (x : Exchange) (none : method = .head ∨ r.status = .noContent)
    (close : Bool) {idle : Option Nat} (opened : l.writer.rule.Open)
    (lasts : ((idle.map Patience.idle).getD .endless).Lasts l.clock.now) :
    ∃ x' w, r.send x method close idle l = (.ok (), x', { l with writer := w }) ∧
      Writer.Wrote l.writer w (r.head close) := by
  obtain ⟨w, sent, put⟩ := Delivery.send_open opened (r.head close)
  have still : w.rule.Open := put.rule ▸ opened
  have size : ∀ n, (Framing.empty).declared? = some n → 0 = n := fun n same => Option.some.inj same
  obtain ⟨d, w', delivered, nothing⟩ :=
    Delivery.run_nothing (l := { l with writer := w }) still lasts size
  let streaming := ((x.advance .headSent).2.advance .streaming).2
  refine ⟨(streaming.advance .completed).2, w', ?_, ?_⟩
  · have fresh : (r.withBody .empty).body.consumed = false := rfl
    have stripped := (deliver_fresh fresh idle { l with writer := w }).trans delivered
    rw [send, sent, strip_of_bodiless none]
    simp only [stripped]
    rfl
  · have joint := put.trans nothing
    rwa [Framing.terminator, List.append_nil] at joint

end Response

end HttpExchange
