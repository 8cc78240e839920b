import HttpExchange.Proofs.Body.Progress

/-!
What happens in a delivery, event by event. The history of a delivery says more than the trace of
its writer: what came of each demand, and which flushes and writes came to nothing. It is a history
of turns, in each of which the producer is asked once.
-/

namespace HttpExchange

namespace Delivery

inductive Event where
  /-- The producer was asked at a moment. What came of it, and whether a cancellation was asked for
  that no demand has met yet. -/
  | pull (moment : Nat) (answer : Pull) (permit : Bool)
  /-- The wire took bytes in one write. -/
  | wrote (b : Bytes)
  /-- A write failed, or was given up. -/
  | unwritten
  | flush (out : Outcome WireError Unit)

namespace Event

def isPull : Event → Bool
  | pull _ _ _ => true
  | _ => false

def chunks (events : List Event) : List Bytes :=
  events.filterMap fun e => match e with
    | pull _ (.chunk b) _ => some b
    | _ => none

def bytes (events : List Event) : Bytes :=
  events.flatMap fun e => match e with
    | wrote b => b
    | _ => []

/-- What the trace of a writer shows of an event. It does not show every producer's answers. -/
def shown (noted : Bool) : Event → List WireEvent
  | pull _ (.chunk _) _ | pull _ (.failed _) _ => if noted then [.pulled] else []
  | pull _ _ _ | unwritten | flush .stuck => []
  | wrote b => [.wrote b]
  | flush _ => [.flushed]

end Event

end Delivery

namespace Link

def writesTo (l l' : Link) : List Bytes :=
  (l'.writer.events.drop l.writer.events.length).filterMap fun e => match e with
    | .wrote b => some b
    | _ => none

def sending (l : Link) (b : Bytes) : List Delivery.Event :=
  match l.writeAll b with
  | (.ok (), l₁) => (l.writesTo l₁).map .wrote ++ [.flush l₁.flush.1]
  | (.error _, l₁) | (.stuck, l₁) => (l.writesTo l₁).map .wrote ++ [.unwritten]

end Link

namespace Delivery

def overruns (d : Delivery) (b : Bytes) : Bool :=
  (d.framing.declared?.filter fun n => n < d.written + b.length).isSome

def fallsShort (d : Delivery) : Bool := (d.framing.declared?.filter fun n => d.written ≠ n).isSome

namespace Course

variable (patience : Patience) (s : Course)

/-- Whether a cancellation comes before the producer is even asked. -/
def isCancelled : Bool :=
  s.delivery.permit || (patience.deadline? s.last).any fun moment => moment ≤ s.link.clock.now

def turn : List Event :=
  if s.isCancelled patience then []
  else match s.demand patience with
    | (.chunk b, _, d, l) => .pull s.link.clock.now (.chunk b) d.permit ::
      if b.isEmpty || d.overruns b then [] else l.sending (d.pending ++ d.framing.frame b)
    | (.ended, _, d, l) => .pull s.link.clock.now .ended d.permit ::
      if d.fallsShort then [] else l.sending (d.pending ++ d.framing.terminator)
    | (answer, _, d, _) => [.pull s.link.clock.now answer d.permit]

def next : Option Course :=
  match s.demand patience with
  | (.chunk b, p, d, l) =>
    if b.isEmpty then some ⟨l.clock.now, d, p, l⟩
    else match d.deliver b l with
      | (.ok (), d, l₁) => match l₁.flush with
        | (.ok (), l₂) => some ⟨l.clock.now, d, p, l₂⟩
        | _ => none
      | _ => none
  | _ => none

variable {patience s}

theorem round_of_next {s' : Course} (eq : s.next patience = some s') :
    ∃ b, Round patience s b s' := by
  unfold next at eq
  split at eq
  · next b p d l asked =>
      split at eq
      · next none =>
          cases eq
          rw [List.isEmpty_iff] at none
          subst none
          exact ⟨[], .skip asked⟩
      · next some =>
          rw [List.isEmpty_iff] at some
          split at eq
          · next wrote =>
              split at eq
              · next passed =>
                  cases eq
                  exact ⟨b, .deliver asked some wrote passed⟩
              · cases eq
          · cases eq
  · cases eq

theorem next_of_round {s' : Course} {b : Bytes} (round : Round patience s b s') :
    s.next patience = some s' := by
  cases round with
  | skip asked =>
      rw [next, asked]
      exact if_pos List.isEmpty_nil
  | deliver asked some wrote passed =>
      rw [next, asked]
      simp only [List.isEmpty_iff, if_neg some, wrote, passed]

theorem next_of_halt {out : Outcome BodyError Nat} {d : Delivery} {l : Link}
    (halt : Halt patience s out d l) : s.next patience = none := by
  cases halt with
  | failed asked | cancelled asked | stuck asked | ended asked finished => rw [next, asked]
  | refused asked some wrote | caught asked some wrote =>
      rw [next, asked]
      simp only [List.isEmpty_iff, if_neg some, wrote]
  | unflushed asked some wrote passed | unpassed asked some wrote passed =>
      rw [next, asked]
      simp only [List.isEmpty_iff, if_neg some, wrote, passed]

theorem weight_next {s' : Course} (eq : s.next patience = some s') :
    s'.producer.weight s'.link.weight < s.producer.weight s.link.weight := by
  obtain ⟨b, round⟩ := round_of_next eq
  cases round with
  | skip asked => exact (weight_demand asked).2 _ rfl
  | deliver asked some wrote passed =>
      rw [Link.weight_flush passed, weight_deliver wrote]
      exact (weight_demand asked).2 _ rfl

def later (patience : Patience) (s : Course) : List Event :=
  s.turn patience ++ match _next : s.next patience with
    | some s' => later patience s'
    | none => []
termination_by s.producer.weight s.link.weight
decreasing_by exact weight_next _next

end Course

def history (d : Delivery) (patience : Patience) (p : Producer) (l : Link) : List Event :=
  match d.stage with
  | .ready => match l.flush with
    | (.ok (), l₁) => .flush (.ok ()) :: Course.later patience ⟨l.clock.now, d, p, l₁⟩
    | (out, _) => [.flush out]
  | .finished | .failed => []

/-- How bytes are written and passed on: all of them, or a beginning, and then nothing follows. -/
inductive Sends (b : Bytes) : List Event → Outcome WireError Unit → Prop where
  | whole (parts : List Bytes) (all : parts.flatten = b) (out : Outcome WireError Unit) :
      Sends b (parts.map .wrote ++ [.flush out]) out
  | cut (parts : List Bytes) (beginning : parts.flatten <+: b) {out : Outcome WireError Unit}
      (failed : out ≠ .ok ()) : Sends b (parts.map .wrote ++ [.unwritten]) out

theorem send_eq (l : Link) (b : Bytes) :
    l.send b = match l.writeAll b with
      | (.ok (), l₁) => l₁.flush
      | (.error e, l₁) => (.error e, l₁)
      | (.stuck, l₁) => (.stuck, l₁) := by
  rcases wrote : l.writer.writeAll b l.clock with ⟨out, writer, clock⟩
  rw [Link.send, Wire.writeHead, Link.writeAll, wrote]
  cases out <;> rfl

theorem parts_of_writeAll {l l₁ : Link} {b : Bytes} {out : Outcome WireError Unit}
    (eq : l.writeAll b = (out, l₁)) :
    ∃ parts, l.writesTo l₁ = parts ∧ l₁.writer.events = l.writer.events ++ parts.map .wrote ∧
      parts.flatten <+: b ∧ (out = .ok () → parts.flatten = b) := by
  rcases wrote : l.writer.writeAll b l.clock with ⟨out₁, writer, clock⟩
  obtain ⟨parts, beginning, grew, whole⟩ := Writer.grew_writeAll wrote
  rw [Link.writeAll, wrote] at eq
  cases eq
  refine ⟨parts, ?_, grew.events, beginning, ?_⟩
  · rw [Link.writesTo, grew.events, List.drop_left, List.filterMap_map]
    exact List.filterMap_some
  · intro ended
    cases out₁ with
    | ok _ => exact whole rfl
    | error e => cases ended
    | stuck => cases ended

theorem events_of_flush {l l₁ : Link} {out : Outcome WireError Unit} (noted : Bool)
    (eq : l.flush = (out, l₁)) :
    l₁.writer.events = l.writer.events ++ (Event.flush out).shown noted := by
  unfold Link.flush Writer.flush at eq
  simp only at eq
  split at eq
  · cases eq
    exact (List.append_nil _).symm
  · split at eq
    · cases eq
      exact List.reverse_cons
    · cases eq
      exact List.reverse_cons

theorem shown_parts (noted : Bool) (parts : List Bytes) :
    (parts.map Event.wrote).flatMap (Event.shown noted) = parts.map .wrote := by
  rw [List.flatMap_map]
  exact List.map_eq_flatMap.symm

theorem sends_of_send {l l' : Link} {b : Bytes} {out : Outcome WireError Unit} (noted : Bool)
    (eq : l.send b = (out, l')) :
    Sends b (l.sending b) out ∧
      l'.writer.events = l.writer.events ++ (l.sending b).flatMap (Event.shown noted) := by
  rcases wrote : l.writeAll b with ⟨out₁, l₁⟩
  obtain ⟨parts, writes, grew, beginning, whole⟩ := parts_of_writeAll wrote
  rw [send_eq, wrote] at eq
  rw [Link.sending, wrote]
  cases out₁ with
  | ok _ =>
      have passed : l₁.flush = (out, l') := eq
      simp only [writes, passed]
      refine ⟨.whole parts (whole rfl) out, ?_⟩
      rw [List.flatMap_append, shown_parts, ← List.append_assoc, ← grew, List.flatMap_singleton]
      exact events_of_flush noted passed
  | error e =>
      cases eq
      simp only [writes]
      refine ⟨.cut parts beginning nofun, ?_⟩
      rw [List.flatMap_append, shown_parts]
      exact grew.trans (congrArg _ (List.append_nil _).symm)
  | stuck =>
      cases eq
      simp only [writes]
      refine ⟨.cut parts beginning nofun, ?_⟩
      rw [List.flatMap_append, shown_parts]
      exact grew.trans (congrArg _ (List.append_nil _).symm)

variable {patience : Patience} {s s' : Course} {p : Producer} {d d' d₁ : Delivery} {l l' : Link}
  {b : Bytes} {out : Outcome BodyError Nat} {pull : Pull}

inductive Turn (d : Delivery) : List Event → Delivery → Prop where
  /-- Nothing is done with a chunk without bytes. -/
  | skip (moment : Nat) (permit : Bool) :
      Turn d [.pull moment (.chunk []) permit] { d with permit }
  | deliver (moment : Nat) {b : Bytes} (permit : Bool) (some : b ≠ []) {sent : List Event}
      (sends : Sends (d.pending ++ d.framing.frame b) sent (.ok ())) :
      Turn d (.pull moment (.chunk b) permit :: sent) { d with
        permit
        head := none
        chunks := d.chunks + 1
        written := d.written + b.length }

inductive Last (d : Delivery) : List Event → Outcome BodyError Nat → Delivery → Prop where
  /-- Cancelled before the producer was asked. -/
  | unasked (permit : Bool) : Last d [] (.error (.cancelled d.isCommitted)) { d with permit }
  /-- Cancelled while the producer kept the delivery waiting. -/
  | cancelled (moment : Nat) (permit : Bool) :
      Last d [.pull moment .cancelled permit] (.error (.cancelled d.isCommitted)) { d with permit }
  | failed (moment : Nat) (cause : Mishap) (permit : Bool) :
      Last d [.pull moment (.failed cause) permit] (.error (d.failure cause)) { d with permit }
  | stuck (moment : Nat) (permit : Bool) :
      Last d [.pull moment .stuck permit] .stuck { d with permit }
  | overrun (moment : Nat) {b : Bytes} (permit : Bool) (some : b ≠ []) {n : Nat}
      (declared : d.framing.declared? = .some n) (more : n < d.written + b.length) :
      Last d [.pull moment (.chunk b) permit] (.error (d.failure (.tooLong n))) { d with permit }
  | undelivered (moment : Nat) {b : Bytes} (permit : Bool) (some : b ≠ []) {sent : List Event}
      {out : Outcome WireError Unit} (sends : Sends (d.pending ++ d.framing.frame b) sent out)
      (failed : out ≠ .ok ()) {d' : Delivery} (head : d'.head = none) :
      Last d (.pull moment (.chunk b) permit :: sent)
        ((out.mapError .wire).map fun _ => d.chunks) d'
  | short (moment : Nat) (permit : Bool) {n : Nat} (declared : d.framing.declared? = some n)
      (other : d.written ≠ n) :
      Last d [.pull moment .ended permit] (.error (d.failure (.tooShort d.written n)))
        { d with permit }
  | ended (moment : Nat) (permit : Bool) {sent : List Event} {out : Outcome WireError Unit}
      (sends : Sends (d.pending ++ d.framing.terminator) sent out) :
      Last d (.pull moment .ended permit :: sent) ((out.mapError .wire).map fun _ => d.chunks)
        { d with permit, head := none }

/-- How a delivery may unfold from a demand on, whatever its producer and its writer do. -/
inductive Unfolds : Delivery → List Event → Outcome BodyError Nat → Delivery → Prop where
  | last {d d' : Delivery} {events : List Event} {out : Outcome BodyError Nat}
      (last : Last d events out d') : Unfolds d events out d'
  | turn {d d₁ d' : Delivery} {events more : List Event} {out : Outcome BodyError Nat}
      (turn : Turn d events d₁) (rest : Unfolds d₁ more out d') : Unfolds d (events ++ more) out d'

theorem demand_of_isCancelled (cancelled : s.isCancelled patience = true) :
    s.demand patience = (.cancelled, s.producer, { s.delivery with permit := false }, s.link) := by
  unfold Course.demand Delivery.demand
  cases permit : s.delivery.permit with
  | true => exact if_pos rfl
  | false =>
      rw [Course.isCancelled, permit, Bool.false_or] at cancelled
      cases deadline : patience.deadline? s.last with
      | none =>
          rw [deadline] at cancelled
          cases cancelled
      | some moment =>
          rw [deadline, Option.any_some, decide_eq_true_iff] at cancelled
          simp only [Producer.askBefore, if_pos cancelled, Bool.false_eq_true, if_false]

theorem isCancelled_eq_false (asked : s.demand patience = (pull, p, d, l))
    (own : pull ≠ .cancelled) : s.isCancelled patience = false := by
  cases cancelled : s.isCancelled patience with
  | false => rfl
  | true => exact absurd (congrArg Prod.fst (asked.symm.trans (demand_of_isCancelled cancelled))) own

theorem turn_chunk (asked : s.demand patience = (.chunk b, p, d, l)) :
    s.turn patience = .pull s.link.clock.now (.chunk b) d.permit ::
      if b.isEmpty || d.overruns b then [] else l.sending (d.pending ++ d.framing.frame b) := by
  have own : Pull.chunk b ≠ .cancelled := nofun
  rw [Course.turn, isCancelled_eq_false asked own, asked]
  rfl

theorem turn_ended (asked : s.demand patience = (.ended, p, d, l)) :
    s.turn patience = .pull s.link.clock.now .ended d.permit ::
      if d.fallsShort then [] else l.sending (d.pending ++ d.framing.terminator) := by
  have own : Pull.ended ≠ .cancelled := nofun
  rw [Course.turn, isCancelled_eq_false asked own, asked]
  rfl

theorem deliver_fits_or (d : Delivery) (b : Bytes) (l : Link) :
    (d.overruns b = true ∧ ∃ n, d.framing.declared? = some n ∧ n < d.written + b.length ∧
        d.deliver b l = (.error (d.failure (.tooLong n)), d, l)) ∨
      (d.overruns b = false ∧
        d.deliver b l = match l.writeAll (d.pending ++ d.framing.frame b) with
          | (.ok (), l) => (.ok (), { d with
              head := none
              chunks := d.chunks + 1
              written := d.written + b.length }, l)
          | (.error e, l) => (.error (.wire e), { d with head := none }, l)
          | (.stuck, l) => (.stuck, { d with head := none }, l)) := by
  unfold deliver overruns
  cases limit : d.framing.declared?.filter fun n => n < d.written + b.length with
  | some n =>
      obtain ⟨declared, more⟩ := Option.filter_eq_some_iff.mp limit
      exact .inl ⟨rfl, n, declared, of_decide_eq_true more, rfl⟩
  | none => exact .inr ⟨rfl, rfl⟩

theorem finish_reaches_or (d : Delivery) (l : Link) :
    (d.fallsShort = true ∧ ∃ n, d.framing.declared? = some n ∧ d.written ≠ n ∧
        d.finish l = (.error (d.failure (.tooShort d.written n)), d, l)) ∨
      (d.fallsShort = false ∧ ∃ out l', l.send (d.pending ++ d.framing.terminator) = (out, l') ∧
        d.finish l = ((out.mapError .wire).map fun _ => d.chunks, { d with head := none }, l')) := by
  unfold finish fallsShort
  cases limit : d.framing.declared?.filter fun n => d.written ≠ n with
  | some n =>
      obtain ⟨declared, other⟩ := Option.filter_eq_some_iff.mp limit
      exact .inl ⟨rfl, n, declared, of_decide_eq_true other, rfl⟩
  | none => exact .inr ⟨rfl, _, _, rfl, rfl⟩

theorem turn_sending (asked : s.demand patience = (.chunk b, p, d, l)) (some : b ≠ [])
    (fits : d.overruns b = false) :
    s.turn patience = .pull s.link.clock.now (.chunk b) d.permit ::
      l.sending (d.pending ++ d.framing.frame b) := by
  have filled : b.isEmpty = false := List.isEmpty_eq_false_iff.mpr some
  rw [turn_chunk asked, fits, filled]
  rfl

theorem turn_overrun (asked : s.demand patience = (.chunk b, p, d, l))
    (beyond : d.overruns b = true) :
    s.turn patience = [.pull s.link.clock.now (.chunk b) d.permit] := by
  rw [turn_chunk asked, beyond, Bool.or_true]
  rfl

theorem sent_of_deliver {l₁ l₂ : Link} (wrote : d.deliver b l = (.ok (), d', l₁))
    {out : Outcome WireError Unit} (passed : l₁.flush = (out, l₂)) :
    d.overruns b = false ∧ l.send (d.pending ++ d.framing.frame b) = (out, l₂) ∧
      d' = { d with head := none, chunks := d.chunks + 1, written := d.written + b.length } := by
  rcases deliver_fits_or d b l with ⟨_, _, _, _, refused⟩ | ⟨fits, same⟩
  · cases refused.symm.trans wrote
  · rw [same] at wrote
    split at wrote <;> cases wrote
    next written => exact ⟨fits, by rw [send_eq, written]; exact passed, rfl⟩

theorem unsent_of_deliver {out : Outcome BodyError Unit} (fits : d.overruns b = false)
    (wrote : d.deliver b l = (out, d', l')) (failed : out ≠ .ok ()) :
    ∃ out₁, l.send (d.pending ++ d.framing.frame b) = (out₁, l') ∧ out₁ ≠ .ok () ∧
      out = out₁.mapError .wire ∧ d'.head = none := by
  rcases deliver_fits_or d b l with ⟨beyond, _⟩ | ⟨_, same⟩
  · exact absurd (fits.symm.trans beyond) Bool.false_ne_true
  · rw [same] at wrote
    split at wrote <;> cases wrote
    · exact absurd rfl failed
    · next e written => exact ⟨.error e, by rw [send_eq, written], nofun, rfl, rfl⟩
    · next written => exact ⟨.stuck, by rw [send_eq, written], nofun, rfl, rfl⟩

/-- A chunk that is sent makes a round. -/
theorem round_of_sent (asked : s.demand patience = (.chunk b, p, d, l)) (some : b ≠ [])
    (fits : d.overruns b = false)
    (sent : l.send (d.pending ++ d.framing.frame b) = (.ok (), l')) :
    Round patience s b ⟨l.clock.now, { d with
      head := none
      chunks := d.chunks + 1
      written := d.written + b.length }, p, l'⟩ := by
  rcases deliver_fits_or d b l with ⟨beyond, _⟩ | ⟨_, same⟩
  · exact absurd (fits.symm.trans beyond) Bool.false_ne_true
  · rcases wrote : l.writeAll (d.pending ++ d.framing.frame b) with ⟨_ | _ | _, l₁⟩
    all_goals
      rw [wrote] at same
      rw [send_eq, wrote] at sent
    · exact .deliver asked some same sent
    · cases sent
    · cases sent

/-- Where a chunk is not sent the delivery ends. -/
theorem loop_of_unsent (asked : s.demand patience = (.chunk b, p, d, l)) (some : b ≠ [])
    (fits : d.overruns b = false) {e : WireError}
    (sent : l.send (d.pending ++ d.framing.frame b) = (.error e, l')) :
    ∃ d', s.loop patience = (.error (.wire e), d', l') := by
  rcases deliver_fits_or d b l with ⟨beyond, _⟩ | ⟨_, same⟩
  · exact absurd (fits.symm.trans beyond) Bool.false_ne_true
  · rcases wrote : l.writeAll (d.pending ++ d.framing.frame b) with ⟨_ | _ | _, l₁⟩
    all_goals
      rw [wrote] at same
      rw [send_eq, wrote] at sent
    · exact ⟨_, loop_of_halt (.unflushed asked some same sent)⟩
    · cases sent
      exact ⟨_, loop_of_halt (.refused asked some same)⟩
    · cases sent

theorem turn_of_round (round : Round patience s b s') :
    Turn s.delivery (s.turn patience) s'.delivery := by
  cases round with
  | skip asked =>
      obtain ⟨⟨permit, state⟩, _, _⟩ := demand_spec asked
      rw [turn_chunk asked]
      subst state
      exact .skip _ permit
  | deliver asked some wrote passed =>
      obtain ⟨⟨permit, state⟩, _, _⟩ := demand_spec asked
      obtain ⟨fits, sent, rfl⟩ := sent_of_deliver wrote passed
      rw [turn_sending asked some fits]
      have sends := (sends_of_send false sent).1
      subst state
      exact .deliver _ permit some sends

theorem last_of_unsent {l₁ : Link} (asked : s.demand patience = (.chunk b, p, d₁, l₁))
    (some : b ≠ []) (fits : d₁.overruns b = false) {out : Outcome WireError Unit}
    (sent : l₁.send (d₁.pending ++ d₁.framing.frame b) = (out, l)) (failed : out ≠ .ok ())
    (head : d.head = none) :
    Last s.delivery (s.turn patience) ((out.mapError .wire).map fun _ => s.delivery.chunks) d := by
  obtain ⟨⟨permit, state⟩, _, _⟩ := demand_spec asked
  rw [turn_sending asked some fits]
  subst state
  have sends : Sends (s.delivery.pending ++ s.delivery.framing.frame b) _ out :=
    (sends_of_send false sent).1
  exact .undelivered _ permit some sends failed head

theorem last_of_halt (halt : Halt patience s out d l) :
    Last s.delivery (s.turn patience) out d := by
  cases halt with
  | failed asked | stuck asked =>
      obtain ⟨⟨permit, state⟩, _, _⟩ := demand_spec asked
      rw [Course.turn, isCancelled_eq_false asked nofun, asked]
      subst state
      constructor
  | cancelled asked =>
      cases before : s.isCancelled patience with
      | true =>
          cases (demand_of_isCancelled before).symm.trans asked
          rw [Course.turn, before]
          exact .unasked false
      | false =>
          obtain ⟨⟨permit, state⟩, _, _⟩ := demand_spec asked
          rw [Course.turn, before, asked]
          subst state
          exact .cancelled _ permit
  | @ended p d d₁ l l₁ out asked finished =>
      obtain ⟨⟨permit, state⟩, _, _⟩ := demand_spec asked
      rw [turn_ended asked]
      rcases finish_reaches_or d₁ l₁ with
        ⟨short, n, declared, other, same⟩ | ⟨reached, out₁, l₂, sent, same⟩
      · rw [short, if_pos rfl]
        cases same.symm.trans finished
        subst state
        exact .short _ permit declared other
      · rw [reached, if_neg Bool.false_ne_true]
        cases same.symm.trans finished
        have sends := (sends_of_send false sent).1
        subst state
        exact .ended _ permit sends
  | @refused p d d₁ l l₁ b e asked some wrote =>
      rcases deliver_fits_or d₁ b l₁ with ⟨beyond, n, declared, more, same⟩ | ⟨fits, _⟩
      · obtain ⟨⟨permit, state⟩, _, _⟩ := demand_spec asked
        rw [turn_overrun asked beyond]
        cases same.symm.trans wrote
        subst state
        exact .overrun _ permit some declared more
      · obtain ⟨out, sent, failed, same, head⟩ := unsent_of_deliver fits wrote nofun
        have last := last_of_unsent asked some fits sent failed head
        cases out with
        | ok _ => exact absurd rfl failed
        | stuck => cases same
        | error e =>
            cases same
            exact last
  | @caught p d d₁ l l₁ b asked some wrote =>
      rcases deliver_fits_or d₁ b l₁ with ⟨_, _, _, _, same⟩ | ⟨fits, _⟩
      · cases same.symm.trans wrote
      · obtain ⟨out, sent, failed, same, head⟩ := unsent_of_deliver fits wrote nofun
        have last := last_of_unsent asked some fits sent failed head
        cases out with
        | ok _ => exact absurd rfl failed
        | stuck => exact last
        | error e => cases same
  | unflushed asked some wrote passed =>
      obtain ⟨fits, sent, rfl⟩ := sent_of_deliver wrote passed
      exact last_of_unsent asked some fits sent nofun rfl
  | unpassed asked some wrote passed =>
      obtain ⟨fits, sent, rfl⟩ := sent_of_deliver wrote passed
      exact last_of_unsent asked some fits sent nofun rfl

theorem later_of_round (round : Round patience s b s') :
    s.later patience = s.turn patience ++ s'.later patience := by
  rw [Course.later]
  split
  · next following =>
      cases following.symm.trans (Course.next_of_round round)
      rfl
  · next none => cases none.symm.trans (Course.next_of_round round)

theorem later_of_halt (halt : Halt patience s out d l) :
    s.later patience = s.turn patience := by
  rw [Course.later]
  split
  · next following => cases following.symm.trans (Course.next_of_halt halt)
  · exact List.append_nil _

theorem unfolds_of_loop (eq : s.loop patience = (out, d', l')) :
    Unfolds s.delivery (s.later patience) out d' := by
  obtain ⟨pulled, s', rounds, halt⟩ := rounds_of_loop eq
  clear eq
  induction rounds with
  | none s =>
      rw [later_of_halt halt]
      exact .last (last_of_halt halt)
  | more first rest ih =>
      rw [later_of_round first]
      exact .turn (turn_of_round first) (ih halt)

/-- What a run does: nothing if a body was taken before; else it flushes, and goes on from there if
that came to something. -/
inductive Ran (patience : Patience) (p : Producer) (d : Delivery) (l : Link) :
    List Event → Outcome BodyError Nat → Delivery → Link → Prop where
  | refused (stage : d.stage = .failed) : Ran patience p d l [] (.error .alreadyConsumed) d l
  | repeated (stage : d.stage = .finished) : Ran patience p d l [] (.ok d.chunks) d l
  | unflushed (stage : d.stage = .ready) {out : Outcome WireError Unit} {l' : Link}
      (failed : out ≠ .ok ()) (flushed : l.flush = (out, l')) :
      Ran patience p d l [.flush out] ((out.mapError .wire).map fun _ => d.chunks)
        { d with stage := .failed } l'
  | begun (stage : d.stage = .ready) {l₁ l' : Link} {out : Outcome BodyError Nat} {d' : Delivery}
      (flushed : l.flush = (.ok (), l₁))
      (looped : Course.loop patience ⟨l.clock.now, d, p, l₁⟩ = (out, d', l')) :
      Ran patience p d l (.flush (.ok ()) :: Course.later patience ⟨l.clock.now, d, p, l₁⟩) out
        (d'.settle out) l'

theorem ran_of_run (eq : d.run patience p l = (out, d', l')) :
    Ran patience p d l (d.history patience p l) out d' l' := by
  unfold run at eq
  unfold history
  cases stage : d.stage with
  | failed =>
      rw [stage] at eq
      cases eq
      exact .refused stage
  | finished =>
      rw [stage] at eq
      cases eq
      exact .repeated stage
  | ready =>
      rw [stage] at eq
      rcases flushed : l.flush with ⟨wired, l₁⟩
      simp only [start, flushed] at eq ⊢
      cases wired with
      | ok _ =>
          rcases looped : Course.loop patience ⟨l.clock.now, d, p, l₁⟩ with ⟨out₁, d₁, l₂⟩
          have same : d.loop patience l.clock.now p l₁ = (out₁, d₁, l₂) := looped
          simp only [same] at eq
          cases eq
          exact .begun stage flushed looped
      | error e =>
          cases eq
          refine .unflushed stage ?_ flushed
          intro same
          cases same
      | stuck =>
          cases eq
          refine .unflushed stage ?_ flushed
          intro same
          cases same

inductive Runs (d : Delivery) : List Event → Outcome BodyError Nat → Delivery → Prop where
  | refused (stage : d.stage = .failed) : Runs d [] (.error .alreadyConsumed) d
  | repeated (stage : d.stage = .finished) : Runs d [] (.ok d.chunks) d
  | unflushed (stage : d.stage = .ready) {out : Outcome WireError Unit} (failed : out ≠ .ok ()) :
      Runs d [.flush out] ((out.mapError .wire).map fun _ => d.chunks) { d with stage := .failed }
  | begun (stage : d.stage = .ready) {events : List Event} {out : Outcome BodyError Nat}
      {d' : Delivery} (unfolds : Unfolds d events out d') :
      Runs d (.flush (.ok ()) :: events) out (d'.settle out)

theorem runs_of_run (eq : d.run patience p l = (out, d', l')) :
    Runs d (d.history patience p l) out d' := by
  have ran := ran_of_run eq
  generalize d.history patience p l = events at ran ⊢
  cases ran with
  | refused stage => exact .refused stage
  | repeated stage => exact .repeated stage
  | unflushed stage failed => exact .unflushed stage failed
  | begun stage _ looped => exact .begun stage (unfolds_of_loop looped)

end Delivery

namespace Producer

variable {p p' : Producer} {l l' : Link} {pull : Pull} {permit noted : Bool}

def isNoted : Producer → Bool
  | script _ => true
  | known _ | incoming => false

/-- The trace shows the producer's answers, or does not; an empty script gives none to show. -/
def Notes (noted : Bool) (p : Producer) : Prop := p.isNoted = noted ∨ p = script []

theorem notes_of_ask (eq : p.ask l = (pull, p', permit, l')) (notes : p.Notes noted) :
    p'.Notes noted := by
  cases p with
  | script steps =>
      obtain ⟨steps', rfl, pulled⟩ := ask_script eq
      rcases notes with same | none
      · exact .inl same
      · cases none
        cases pulled
        exact .inr rfl
  | known b =>
      cases eq
      exact .inr rfl
  | incoming =>
      rcases notes with same | none
      · rw [ask] at eq
        split at eq <;> cases eq <;> exact .inl same
      · cases none

theorem shown_of_note (w : Writer) (moment : Nat) (met : Bool)
    (asked : p.ask l = (pull, p', permit, l')) (notes : p.Notes noted) :
    (p.note pull w).events = w.events ++ (Delivery.Event.pull moment pull met).shown noted := by
  rcases notes with rfl | rfl
  · cases p <;> cases pull <;> first | exact List.reverse_cons | exact (List.append_nil _).symm
  · cases asked
    exact (List.append_nil _).symm

end Producer

namespace Delivery

variable {patience : Patience} {s s' : Course} {p : Producer} {d d' d₁ : Delivery} {l l' : Link}
  {b : Bytes} {out : Outcome BodyError Nat} {pull : Pull} {noted : Bool}

theorem demand_writer (asked : s.demand patience = (pull, p, d, l)) :
    l.writer = s.producer.note pull s.link.writer := by
  rcases demand_cases asked with ⟨rfl, _, rfl⟩ | ⟨permit, _, answer⟩
  · exact (Producer.note_cancelled _ _).symm
  · exact Producer.askWithin_note answer

theorem notes_of_demand (asked : s.demand patience = (.chunk b, p, d, l))
    (notes : s.producer.Notes noted) : p.Notes noted := by
  obtain ⟨clock, clock', permit, l₁, answer, _⟩ := ask_of_demand asked nofun nofun
  exact Producer.notes_of_ask answer notes

theorem shown_of_demand (asked : s.demand patience = (pull, p, d, l))
    (notes : s.producer.Notes noted) :
    l.writer.events = s.link.writer.events ++
      (Event.pull s.link.clock.now pull d.permit).shown noted := by
  rw [demand_writer asked]
  have own : pull ≠ .cancelled → pull ≠ .stuck → ∃ clock p permit l₁,
      s.producer.ask { s.link with clock } = (pull, p, permit, l₁) := by
    intro own came
    obtain ⟨clock, _, permit, l₁, answer, _⟩ := ask_of_demand asked own came
    exact ⟨clock, p, permit, l₁, answer⟩
  cases pull with
  | cancelled => rw [Producer.note_cancelled]; exact (List.append_nil _).symm
  | stuck => rw [Producer.note_stuck]; exact (List.append_nil _).symm
  | chunk b | failed cause | ended =>
      obtain ⟨clock, p, permit, l₁, answer⟩ := own nofun nofun
      exact Producer.shown_of_note _ _ _ answer notes

/-- What a turn does to the link: the producer is asked, and behind its answer something is sent at
most once. -/
inductive Acts (patience : Patience) (s : Course) : Link → Prop where
  | unasked (idle : s.turn patience = []) : Acts patience s s.link
  | asks {answer : Pull} {p : Producer} {d : Delivery} {l : Link}
      (asked : s.demand patience = (answer, p, d, l))
      (alone : s.turn patience = [.pull s.link.clock.now answer d.permit]) : Acts patience s l
  | sends {answer : Pull} {p : Producer} {d : Delivery} {l l' : Link} {b : Bytes}
      {out : Outcome WireError Unit} (asked : s.demand patience = (answer, p, d, l))
      (behind : s.turn patience = .pull s.link.clock.now answer d.permit :: l.sending b)
      (sent : l.send b = (out, l')) : Acts patience s l'

theorem acts_of_round (round : Round patience s b s') : Acts patience s s'.link := by
  cases round with
  | skip asked => exact .asks asked (turn_chunk asked)
  | deliver asked some wrote passed =>
      obtain ⟨fits, sent, _⟩ := sent_of_deliver wrote passed
      exact .sends asked (turn_sending asked some fits) sent

theorem acts_of_halt (halt : Halt patience s out d l) : Acts patience s l := by
  cases halt with
  | failed asked | stuck asked =>
      refine .asks asked ?_
      rw [Course.turn, isCancelled_eq_false asked nofun, asked]
      rfl
  | cancelled asked =>
      cases before : s.isCancelled patience with
      | true =>
          cases (demand_of_isCancelled before).symm.trans asked
          refine .unasked ?_
          rw [Course.turn, before]
          rfl
      | false =>
          refine .asks asked ?_
          rw [Course.turn, before, asked]
          rfl
  | @ended p d d₁ l l₁ out asked finished =>
      rcases finish_reaches_or d₁ l₁ with
        ⟨short, _, _, _, same⟩ | ⟨reached, out₁, l₂, sent, same⟩
      · cases same.symm.trans finished
        exact .asks asked (by rw [turn_ended asked, short, if_pos rfl])
      · cases same.symm.trans finished
        exact .sends asked (by rw [turn_ended asked, reached, if_neg Bool.false_ne_true]) sent
  | @refused p d d₁ l l₁ b e asked some wrote =>
      rcases deliver_fits_or d₁ b l₁ with ⟨beyond, _, _, _, same⟩ | ⟨fits, _⟩
      · cases same.symm.trans wrote
        exact .asks asked (turn_overrun asked beyond)
      · obtain ⟨_, sent, _⟩ := unsent_of_deliver fits wrote nofun
        exact .sends asked (turn_sending asked some fits) sent
  | @caught p d d₁ l l₁ b asked some wrote =>
      rcases deliver_fits_or d₁ b l₁ with ⟨_, _, _, _, same⟩ | ⟨fits, _⟩
      · cases same.symm.trans wrote
      · obtain ⟨_, sent, _⟩ := unsent_of_deliver fits wrote nofun
        exact .sends asked (turn_sending asked some fits) sent
  | unflushed asked some wrote passed | unpassed asked some wrote passed =>
      obtain ⟨fits, sent, _⟩ := sent_of_deliver wrote passed
      exact .sends asked (turn_sending asked some fits) sent

theorem shown_of_acts (acts : Acts patience s l) (notes : s.producer.Notes noted) :
    l.writer.events = s.link.writer.events ++ (s.turn patience).flatMap (Event.shown noted) := by
  cases acts with
  | unasked idle =>
      rw [idle]
      exact (List.append_nil _).symm
  | asks asked alone =>
      rw [alone, List.flatMap_singleton]
      exact shown_of_demand asked notes
  | sends asked behind sent =>
      rw [behind, List.flatMap_cons, ← List.append_assoc, ← shown_of_demand asked notes]
      exact (sends_of_send noted sent).2

theorem notes_of_round (round : Round patience s b s') (notes : s.producer.Notes noted) :
    s'.producer.Notes noted := by
  cases round with
  | skip asked | deliver asked => exact notes_of_demand asked notes

theorem shown_of_loop (eq : s.loop patience = (out, d', l')) (notes : s.producer.Notes noted) :
    l'.writer.events = s.link.writer.events ++ (s.later patience).flatMap (Event.shown noted) := by
  obtain ⟨pulled, s', rounds, halt⟩ := rounds_of_loop eq
  clear eq
  induction rounds with
  | none s =>
      rw [later_of_halt halt]
      exact shown_of_acts (acts_of_halt halt) notes
  | more first rest ih =>
      rw [later_of_round first, List.flatMap_append, ← List.append_assoc,
        ← shown_of_acts (acts_of_round first) notes]
      exact ih (notes_of_round first notes) halt

theorem shown_of_run (eq : d.run patience p l = (out, d', l')) :
    l'.writer.events =
      l.writer.events ++ (d.history patience p l).flatMap (Event.shown p.isNoted) := by
  have ran := ran_of_run eq
  generalize d.history patience p l = events at ran ⊢
  cases ran with
  | refused | repeated => exact (List.append_nil _).symm
  | unflushed _ _ flushed =>
      rw [List.flatMap_singleton]
      exact events_of_flush p.isNoted flushed
  | begun _ flushed looped =>
      rw [shown_of_loop looped (.inl rfl), events_of_flush p.isNoted flushed, List.append_assoc,
        List.flatMap_cons]

theorem bytesOf_shown (noted : Bool) (events : List Event) :
    Writer.bytesOf (events.flatMap (Event.shown noted)) = Event.bytes events := by
  rw [Writer.bytesOf, List.flatMap_assoc, Event.bytes]
  congr 1
  funext e
  cases e with
  | wrote b => exact List.append_nil b
  | unwritten => rfl
  | flush out => cases out <;> rfl
  | pull moment answer permit => cases answer <;> cases noted <;> rfl

theorem output_of_shown {events : List Event} (shown : l'.writer.events =
    l.writer.events ++ events.flatMap (Event.shown noted)) :
    l'.writer.output = l.writer.output ++ Event.bytes events := by
  rw [Writer.output, shown, Writer.bytesOf_append, bytesOf_shown, Writer.output]

/-- The bytes of the history are those that a run adds to the wire. -/
theorem output_of_run (eq : d.run patience p l = (out, d', l')) :
    l'.writer.output = l.writer.output ++ Event.bytes (d.history patience p l) :=
  output_of_shown (shown_of_run eq)

theorem Event.shut_notMem_shown (noted : Bool) (e : Event) : .shut ∉ e.shown noted := by
  cases e with
  | wrote | unwritten => simp [shown]
  | flush out => cases out <;> simp [shown]
  | pull moment answer permit => cases answer <;> cases noted <;> simp [shown]

theorem Event.shut_notMem_flatMap (noted : Bool) (events : List Event) :
    .shut ∉ events.flatMap (shown noted) := by
  rw [List.mem_flatMap]
  rintro ⟨e, _, member⟩
  exact shut_notMem_shown noted e member

theorem staysOpen_send {b : Bytes} {out : Outcome WireError Unit} (eq : l.send b = (out, l')) :
    l.writer.StaysOpen l'.writer :=
  ⟨_, (sends_of_send false eq).2, Event.shut_notMem_flatMap false _⟩

theorem staysOpen_run (eq : d.run patience p l = (out, d', l')) :
    l.writer.StaysOpen l'.writer :=
  ⟨_, shown_of_run eq, Event.shut_notMem_flatMap _ _⟩

end Delivery

end HttpExchange
