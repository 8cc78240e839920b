import HttpExchange.Proofs.Body.InFlight
import HttpExchange.Server.Connection

/-!
One chunk in flight, in a response. Its head is whole on the wire and passed on before the body is
asked for anything, and from there on a chunk is asked for only behind the one before it.
-/

namespace HttpExchange

open Delivery (Event OneInFlight)

namespace Response

variable {r : Response} {method : Method} {close : Bool} {idle : Option Nat} {l l' : Link}

def bodyHistory (r : Response) (idle : Option Nat) (l : Link) : List Event :=
  match r.body.take with
  | (.ok p, _) =>
    ({ framing := r.body.framing } : Delivery).history ((idle.map Patience.idle).getD .endless) p l
  | (.error _, _) => []

def history (r : Response) (method : Method) (close : Bool) (idle : Option Nat) (l : Link) :
    List Event :=
  match l.send (r.head close) with
  | (.ok (), l₁) => l.sending (r.head close) ++ (r.strip method).bodyHistory idle l₁
  | _ => l.sending (r.head close)

theorem take_cases (body : Body) :
    (∃ rest, body.take = (.ok body.producer, rest)) ∨
      body.take = (.error .alreadyConsumed, body) := by
  unfold Body.take
  split
  · exact .inr rfl
  · exact .inl ⟨_, rfl⟩

theorem bodyHistory_inFlight (r : Response) (idle : Option Nat) (l : Link) :
    OneInFlight r.body.framing [] (r.bodyHistory idle l) := by
  rcases take_cases r.body with ⟨rest, taken⟩ | taken
  · let d : Delivery := { framing := r.body.framing }
    rw [bodyHistory, taken]
    exact (Delivery.runs_of_run (d := d) rfl).oneInFlight
  · rw [bodyHistory, taken]
    exact Delivery.oneInFlight_of_quiet _ _ nofun

theorem shown_of_deliver {out : Outcome BodyError Nat} {d : Delivery}
    (eq : r.deliver idle l = (out, d, l')) : l'.writer.events =
      l.writer.events ++ (r.bodyHistory idle l).flatMap (Event.shown r.body.producer.isNoted) := by
  rcases take_cases r.body with ⟨rest, taken⟩ | taken
  · rw [deliver, taken] at eq
    rw [bodyHistory, taken]
    exact Delivery.shown_of_run eq
  · rw [deliver, taken] at eq
    rw [bodyHistory, taken]
    cases eq
    exact (List.append_nil _).symm

theorem shown_of_delivered {out : Outcome BodyError Nat} {d : Delivery} {l₁ : Link}
    (sent : l.send (r.head close) = (.ok (), l₁))
    (delivered : (r.strip method).deliver idle l₁ = (out, d, l')) :
    l'.writer.events = l.writer.events ++ (r.history method close idle l).flatMap
      (Event.shown (r.strip method).body.producer.isNoted) := by
  have first := (Delivery.sends_of_send (r.strip method).body.producer.isNoted sent).2
  have behind := shown_of_deliver delivered
  rw [first, List.append_assoc, ← List.flatMap_append] at behind
  rw [history, sent]
  exact behind

/-- The trace of the writer shows the history, and the shutdown where the body came to nothing. -/
theorem shown_of_send (r : Response) (x : Exchange) (method : Method) (close : Bool)
    (idle : Option Nat) (l : Link) : ∃ tail, (tail = [] ∨ tail = [.shut]) ∧
      (r.send x method close idle l).2.2.writer.events = l.writer.events ++
        ((r.history method close idle l).flatMap
          (Event.shown (r.strip method).body.producer.isNoted) ++ tail) := by
  rcases sent : l.send (r.head close) with ⟨out, l₁⟩
  cases out with
  | error e | stuck =>
      have first := (Delivery.sends_of_send (r.strip method).body.producer.isNoted sent).2
      unfold send history
      rw [sent]
      exact ⟨[], .inl rfl, first.trans (by rw [List.append_nil])⟩
  | ok _ =>
      rcases delivered : (r.strip method).deliver idle l₁ with ⟨out, d, l₂⟩
      have shown := shown_of_delivered sent delivered
      rw [send, sent]
      simp only [delivered]
      cases out with
      | ok _ | stuck => exact ⟨[], .inl rfl, shown.trans (by rw [List.append_nil])⟩
      | error e =>
          refine ⟨[.shut], .inr rfl, ?_⟩
          rw [← List.append_assoc, ← shown]
          exact Link.events_shutdown l₂

/-- No demand comes before the head is whole on the wire and passed on. -/
theorem asks_behind_head {before after : List Event} {moment : Nat} {answer : Pull} {permit : Bool}
    (split : r.history method close idle l = before ++ .pull moment answer permit :: after) :
    ∃ (parts : List Bytes) (more : List Event),
      before = parts.map .wrote ++ .flush (.ok ()) :: more ∧ parts.flatten = r.head close ∧
        (r.strip method).bodyHistory idle (l.send (r.head close)).2 =
          more ++ .pull moment answer permit :: after := by
  rcases sent : l.send (r.head close) with ⟨out, l₁⟩
  have sends := (Delivery.sends_of_send false sent).1
  have unasked : l.sending (r.head close) ≠ before ++ .pull moment answer permit :: after := by
    intro same
    cases sends.quiet _ (same ▸ List.mem_append_right before List.mem_cons_self)
  rw [history, sent] at split
  cases out with
  | error e | stuck => exact absurd split unasked
  | ok _ =>
      obtain ⟨parts, same, whole⟩ := sends.parts
      obtain ⟨more, rfl, later⟩ := Event.split_behind sends.quiet rfl split
      refine ⟨parts, more, ?_, whole, later⟩
      rw [same, List.append_assoc, List.singleton_append]

end Response

/-- Backpressure: the trace of a run shows a history in which one chunk is in flight at most, and
behind which no body is asked for anything. In a response the whole head is passed on before. -/
theorem one_chunk_in_flight :
    (∀ (d : Delivery) (patience : Patience) (p : Producer) (l : Link),
      (d.run patience p l).2.2.writer.events = l.writer.events ++
          (d.history patience p l).flatMap (Event.shown p.isNoted) ∧
        OneInFlight d.framing d.pending (d.history patience p l) ∧
        ∀ patience' p' l', (d.run patience p l).2.1.history patience' p' l' = []) ∧
      ∀ (r : Response) (x : Exchange) (method : Method) (close : Bool) (idle : Option Nat)
        (l : Link),
        (∃ tail, (tail = [] ∨ tail = [.shut]) ∧
          (r.send x method close idle l).2.2.writer.events = l.writer.events ++
            ((r.history method close idle l).flatMap
              (Event.shown (r.strip method).body.producer.isNoted) ++ tail)) ∧
        OneInFlight (r.strip method).body.framing []
          ((r.strip method).bodyHistory idle (l.send (r.head close)).2) ∧
        ∀ before moment answer permit after,
          r.history method close idle l = before ++ .pull moment answer permit :: after →
          ∃ (parts : List Bytes) (more : List Event),
            before = parts.map .wrote ++ .flush (.ok ()) :: more ∧ parts.flatten = r.head close ∧
              (r.strip method).bodyHistory idle (l.send (r.head close)).2 =
                more ++ .pull moment answer permit :: after := by
  constructor
  · intro d patience p l
    have runs : d.Runs (d.history patience p l) _ _ := Delivery.runs_of_run rfl
    exact ⟨Delivery.shown_of_run rfl, runs.oneInFlight, runs.settled⟩
  · intro r x method close idle l
    refine ⟨r.shown_of_send x method close idle l, Response.bodyHistory_inFlight _ _ _, ?_⟩
    intro before moment answer permit after split
    exact Response.asks_behind_head split

end HttpExchange
