import HttpExchange.Proofs.Body.Declared
import HttpExchange.Proofs.Server.Account
import HttpExchange.Proofs.Server.Unanswered
import HttpExchange.Server.Acceptor

/-!
What a connection gets for which there is no slot: a response whose bytes are known beforehand, and
the end. Nothing that it sends is read. If nothing but waits stands in the way, the head of the
response arrives, and its bytes arrive too if the flush in front of them is over before the idle
timeout.
-/

namespace HttpExchange

namespace Delivery

variable {l : Link} {idle : Option Nat} {b : Bytes}

theorem output_of_filled {patience : Patience} {s : Course} {out : Outcome BodyError Nat}
    {d' : Delivery} {l' : Link} {n : Nat} (declared : s.delivery.framing.declared? = some n)
    (filled : s.delivery.written = n) (committed : s.delivery.head = none)
    (eq : s.loop patience = (out, d', l')) : l'.writer.output = s.link.writer.output := by
  obtain ⟨next, part, room, beginning, output⟩ := adds_of_loop declared (Nat.le_of_eq filled) eq
  obtain rfl : next = [] := List.eq_nil_of_length_eq_zero (by omega)
  rw [pending_of_head_none committed, List.append_nil] at beginning
  rw [output, List.prefix_nil.mp beginning, List.append_nil]

/-- Known bytes are handed over as long as the idle timeout is not over. -/
theorem demand_known (some : b ≠ []) {last : Nat} (early : ∀ ms ∈ idle, l.clock.now < last + ms)
    (framing : Framing) :
    ({ framing } : Delivery).demand (((idle.map Patience.idle).getD .endless).deadline? last)
      (.known b) l = (.chunk b, .script [], { framing }, l) := by
  have answer : ∀ clock, (Producer.known b).ask { l with clock } =
      (.chunk b, .script [], false, { l with clock }) := by
    intro clock
    rw [Producer.ask, if_neg (by rwa [List.isEmpty_iff])]
  apply demand_of_askWithin rfl
  cases timed : idle with
  | none => exact answer l.clock
  | some ms =>
      have lasts : (Patience.until (last + ms)).Lasts l.clock.now := early ms timed
      exact Producer.askWithin_of_ask lasts Pull.noConfusion answer

/-- Known bytes are written whole, if the flush in front of them ends within the idle timeout. What
comes of the demand behind them makes no difference. -/
theorem output_known_willing (some : b ≠ []) (willing : l.writer.rule.Willing)
    (inTime : l.FlushesInTime idle) :
    ∃ enough, ∀ limit, enough ≤ limit →
      (({ framing := .length b.length } : Delivery).run ((idle.map Patience.idle).getD .endless)
        (.known b) (l.limited limit)).2.2.writer.output = l.writer.output ++ b := by
  obtain ⟨enough₁, l₁, rule, flushes⟩ := flush_willing willing
  have early : ∀ ms ∈ idle, l₁.clock.now < l.clock.now + ms :=
    (flushesInTime_iff (flushes enough₁ (Nat.le_refl _))).mp inTime
  let s : Course := ⟨l.clock.now, { framing := .length b.length }, .script [], l₁⟩
  have fits : s.delivery.overruns b = false := by
    rw [overruns_eq_false_iff]
    rintro n ⟨⟩
    exact Nat.le_of_eq (Nat.zero_add _)
  obtain ⟨enough₂, s', _, _, _, rounds⟩ :=
    round_of_fits (s := s) ((idle.map Patience.idle).getD .endless) ⟨rule ▸ willing, rfl⟩ fits
  refine ⟨max enough₁ enough₂, fun limit late => ?_⟩
  have round := rounds limit (by omega) ⟨l.clock.now, s.delivery, .known b, l₁.limited limit⟩
    (demand_known (l := l₁.limited limit) some early _)
  have sent := sent_of_round round
  rw [filled_cons_of_ne_nil some] at sent
  rcases looped : (s'.limited limit).loop ((idle.map Patience.idle).getD .endless) with
    ⟨out, d', l'⟩
  obtain ⟨ran, flushed, _⟩ := run_of_loop (l := l.limited limit) rfl (flushes limit (by omega))
    ((loop_of_round round).trans looped)
  have head : (s'.limited limit).delivery.head = none := sent.head
  have declared : (s'.limited limit).delivery.framing.declared? = Option.some b.length := by
    rw [sent.framing]
    rfl
  have written : (s'.limited limit).delivery.written = b.length := by
    rw [sent.written]
    simp [filled, s]
  have output := sent.output
  rw [pending_of_head_none head, List.append_nil, Framing.frames_of_declared rfl] at output
  calc (Delivery.run _ _ _ _).2.2.writer.output
    _ = l'.writer.output := congrArg (·.2.2.writer.output) ran
    _ = (s'.limited limit).link.writer.output := output_of_filled declared written head looped
    _ = l₁.writer.output ++ [b].flatten := output
    _ = l.writer.output ++ b := by rw [List.flatten_singleton]; exact congrArg (· ++ b) flushed

end Delivery

namespace Response

variable {r : Response} {l l₁ l₂ : Link} {method : Method} {close : Bool} {idle : Option Nat}
  {b : Bytes}

/-- Behind its head a response writes what is delivered of its body; a failure writes nothing. -/
theorem output_send_of_delivered {d : Delivery} {out : Outcome BodyError Nat}
    (sent : l.send (r.head close) = (.ok (), l₁))
    (delivered : (r.strip method).deliver idle l₁ = (out, d, l₂)) (x : Exchange) :
    (r.send x method close idle l).2.2.writer.output = l₂.writer.output := by
  rw [send, sent]
  simp only [delivered]
  cases out with
  | ok | stuck => rfl
  | error => exact Link.output_shutdown l₂

/-- Unless it relays a body, a response is sent without reading anything. -/
theorem still_send (own : (r.strip method).body.producer ≠ .incoming) (x : Exchange) :
    l.Still (r.send x method close idle l).2.2 := by
  rcases sent : l.send (r.head close) with ⟨_ | e | _, l₁⟩
  all_goals
    have head := Link.still_send sent
    rw [send, sent]
  · rcases delivered : (r.strip method).deliver idle l₁ with ⟨out, d, l₂⟩
    have body : l₁.Still l₂ := by
      rcases take_cases (r.strip method).body with ⟨rest, taken⟩ | taken
      all_goals
        rw [deliver, taken] at delivered
      · exact Delivery.still_run own delivered
      · cases delivered
        exact .refl l₁
    simp only [delivered]
    cases out with
    | ok | stuck => exact head.trans body
    | error => exact (head.trans body).trans (Link.still_shutdown l₂)
  · exact head
  · exact head

/-- A response whose bytes are known is written whole, once there is enough time, if the flush behind
its head is over before the idle timeout. -/
theorem output_send_known (known : r.body = .ofBytes b) (some : b ≠ [])
    (stays : r.strip method = r) (x : Exchange) (willing : l.writer.rule.Willing) {enough : Nat}
    (sends : l.SendsBy (r.head close) enough l₁) (inTime : l₁.FlushesInTime idle) :
    ∃ moment, ∀ limit, moment ≤ limit →
      (r.send x method close idle (l.limited limit)).2.2.writer.output =
        l.writer.output ++ (r.head close ++ b) := by
  obtain ⟨part, put, whole, _⟩ := Delivery.put_send (sends enough (Nat.le_refl _))
  cases whole rfl
  have rule := Delivery.rule_of_sendsBy sends
  obtain ⟨later, writes⟩ := Delivery.output_known_willing some (rule ▸ willing) inTime
  refine ⟨max enough later, fun limit late => ?_⟩
  rcases delivered : (r.strip method).deliver idle (l₁.limited limit) with ⟨out, d, l₂⟩
  have body : l₂.writer.output = l₁.writer.output ++ b := by
    have framing : (Body.ofBytes b).framing = .length b.length :=
      if_neg (by rwa [List.isEmpty_iff])
    have fresh : r.body.consumed = false := by rw [known]; rfl
    rw [stays, deliver_fresh fresh, known, framing] at delivered
    exact (congrArg (·.2.2.writer.output) delivered).symm.trans (writes limit (by omega))
  have output : l₁.writer.output = l.writer.output ++ r.head close := put.output
  rw [output_send_of_delivered (sends limit (by omega)) delivered, body, output, List.append_assoc]

/-- Never more than the head and the known bytes is written. -/
theorem output_send_le_known (known : r.body = .ofBytes b) (stays : r.strip method = r)
    (x : Exchange) (close : Bool) (idle : Option Nat) (l : Link) :
    ∃ part, part <+: r.head close ++ b ∧
      (r.send x method close idle l).2.2.writer.output = l.writer.output ++ part := by
  rcases sent : r.send x method close idle l with ⟨out, x', l'⟩
  obtain ⟨part, ⟨chunks, supplies, begun⟩, output⟩ := begun_send sent
  refine ⟨part, ?_, output⟩
  rw [stays, known] at supplies begun
  have plain : (Body.ofBytes b).framing ≠ .chunked := Framing.plain_known b
  have within : chunks.flatten <+: b := by
    obtain ⟨rest, whole⟩ := Producer.supplies_known supplies
    refine ⟨rest.flatten, ?_⟩
    rw [← List.flatten_append, whole]
    exact flatten_known b
  rw [Framing.frames_of_ne_chunked plain, Framing.transfer_of_ne_chunked plain,
    Delivery.flatten_filled] at begun
  have bounded : part <+: r.head close ++ chunks.flatten := begun.elim id And.right
  exact bounded.trans ((List.prefix_append_right_inj _).mpr within)

theorem receive_known (known : r.body = .ofBytes b) (some : b ≠ [])
    (small : b.length < Numeral.bound64) (stays : r.strip method = r)
    (clean : ∀ field ∈ r.fields, Fields.Clean field) (apart : Fields.Apart r.fields)
    (close : Bool) {reader : Reader} {rest : Bytes} {tail : List Arrival}
    (holds : reader.Holds (r.head close ++ (b ++ rest)) tail) {limit : Nat}
    (enough : (r.head close).length ≤ limit) (bound : Nat) (c : Clock) :
    ∃ reception, Wire.receive ResponseHead.parse (Framing.ofResponse · method) limit bound reader
        c = .ok (Option.some reception) ∧
      r.ReadBack close reception.head ∧ reception.body.pieces.flatten = b ∧
      reception.body.ending = .ok () ∧ reception.body.reader.Holds rest tail := by
  have writable : ∀ field ∈ r.fields, Fields.Writable field :=
    fun field member => (clean field member).toWritable
  have content : ∀ x, r.body.content = .known x → x.length < Numeral.bound64 := by
    intro x same
    rw [known] at same
    cases same
    exact small
  obtain ⟨fields, r', received, holds', spec⟩ :=
    receive_head writable content method enough bound holds c
  have framing : (r.strip method).body.framing = .length b.length := by
    rw [stays, known]
    exact if_neg (by rwa [List.isEmpty_iff])
  obtain ⟨r'', read, left⟩ :=
    Decoder.drain_length (d := .start (.length b.length) bound) holds' c
  have drained : (Decoder.start (.length b.length) bound).drain r' c = _ := read
  rw [framing, drained] at received
  exact ⟨_, received, readBack_of_find? clean apart spec, Bytes.flatten_cut _ b, rfl, left⟩

end Response

namespace Server

variable {ω : Type} {server : Server ω} {link : Link}

def capacityText : Bytes := Utf8.encode "Server is at capacity, please try again later"

def refusal : Bytes := atCapacity.head true ++ capacityText

theorem body_atCapacity : atCapacity.body = .ofBytes capacityText := rfl

theorem strip_atCapacity (method : Method) (notHead : method ≠ .head) :
    atCapacity.strip method = atCapacity :=
  Response.strip_of_allowed notHead (by decide)

theorem capacityText_ne_nil : capacityText ≠ [] := by decide

/-- What becomes of a connection that is refused: nothing that it sends is read, nothing but the
refusal is written, and in the end the sending direction is closed. -/
structure Refused (link refused : Link) : Prop where
  still : link.Still refused
  output : ∃ part, part <+: refusal ∧ refused.writer.output = link.writer.output ++ part
  closed : ∃ sent, link.writer.ClosesLast sent ∧ refused.writer.events = sent.events ++ [.shut]

theorem refused_refuse (server : Server ω) (link : Link) : Refused link (server.refuse link) := by
  have stays := strip_atCapacity .get nofun
  have own : (atCapacity.strip .get).body.producer ≠ .incoming := by
    rw [stays]
    exact nofun
  obtain ⟨part, beginning, output⟩ := Response.output_send_le_known body_atCapacity stays
    { id := 0 } true server.config.bodyIdleTimeout link
  refine ⟨(Response.still_send own _).trans (Link.still_shutdown _), ⟨part, beginning, ?_⟩,
    ⟨_, (Response.trace_send rfl).1, Link.events_shutdown _⟩⟩
  exact (Link.output_shutdown _).trans output

/-- Once there is enough time, the whole refusal is written, if the flush behind its head is over
before the idle timeout; if it is not, the head is. -/
theorem output_refuse_willing (server : Server ω) (willing : link.writer.rule.Willing) :
    ∃ (enough : Nat) (headed : Link), link.SendsBy (atCapacity.head true) enough headed ∧
      ∀ limit, enough ≤ limit → (server.refuse (link.limited limit)).writer.output =
        link.writer.output ++
          if headed.FlushesInTime server.config.bodyIdleTimeout then refusal
          else atCapacity.head true := by
  have stays := strip_atCapacity .get nofun
  obtain ⟨enough, headed, sends⟩ := Delivery.send_willing willing (atCapacity.head true)
  by_cases inTime : headed.FlushesInTime server.config.bodyIdleTimeout
  · obtain ⟨moment, writes⟩ := Response.output_send_known body_atCapacity capacityText_ne_nil stays
      { id := 0 } willing sends inTime
    refine ⟨max enough moment, headed, fun limit late => sends limit (by omega),
      fun limit late => ?_⟩
    rw [if_pos inTime]
    exact (Link.output_shutdown _).trans (writes limit (by omega))
  · have fresh : (atCapacity.strip .get).body.consumed = false := by
      rw [stays]
      rfl
    obtain ⟨moment, breaks⟩ :=
      Response.send_overdue { id := 0 } .get fresh willing sends inTime
    refine ⟨max enough moment, headed, fun limit late => sends limit (by omega),
      fun limit late => ?_⟩
    obtain ⟨x', l', sent, output⟩ := breaks limit (by omega)
    rw [if_neg inTime, refuse, sent]
    exact (Link.output_shutdown _).trans output

/-- The client reads that the service is unavailable, that the connection ends, and why. -/
theorem receive_refusal {reader : Reader} {rest : Bytes} {tail : List Arrival}
    (holds : reader.Holds (refusal ++ rest) tail) {method : Method} (notHead : method ≠ .head)
    {limit : Nat} (enough : refusal.length ≤ limit) (bound : Nat) (c : Clock) :
    ∃ reception, Wire.receive ResponseHead.parse (Framing.ofResponse · method) limit bound reader
        c = .ok (some reception) ∧
      reception.head.status = 503 ∧ reception.head.fields.find? Fields.connection = some "close" ∧
      reception.body.pieces.flatten = capacityText ∧ reception.body.ending = .ok () ∧
      reception.body.reader.Holds rest tail := by
  have clean : ∀ field ∈ atCapacity.fields, Fields.Clean field := by decide
  have apart : Fields.Apart atCapacity.fields := by
    rw [Fields.Apart]
    decide
  have small : capacityText.length < Numeral.bound64 := by decide
  rw [refusal, List.append_assoc] at holds
  have short : (atCapacity.head true).length ≤ limit := by
    rw [refusal, List.length_append] at enough
    omega
  obtain ⟨reception, received, back, pieces, ending, left⟩ := Response.receive_known body_atCapacity
    capacityText_ne_nil small (strip_atCapacity method notHead) clean apart true holds short bound c
  exact ⟨reception, received, back.status, back.closing, pieces, ending, left⟩

end Server

end HttpExchange
