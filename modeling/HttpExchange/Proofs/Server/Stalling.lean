import HttpExchange.Proofs.Body.Stalling
import HttpExchange.Proofs.Server.BrokenOff

/-!
A response whose producer falls silent. The idle timeout cuts it off behind the chunks that came
before: the exchange is aborted, and the connection is closed with the message left open.
-/

namespace HttpExchange

open Delivery (filled Event)

namespace Response

variable {r : Response} {p : Producer} {l : Link} {method : Method} {chunks : List Bytes}
  {ms final : Nat}

/-- A producer that stalls is cut off cleanly, whatever chunks it gave before and whenever it gave
them. The delivery ends when its time is over, counted from its last chunk, or from the start; the
head and the frames of the chunks are on the wire, and no end; the producer is not asked again. The
exchange is aborted, and the sending direction is closed once, behind all this. -/
theorem send_stalls (id : Nat) (notHead : method ≠ .head) (allowed : r.status ≠ .noContent)
    (stream : r.body = .ofProducer p) (close : Bool) (opened : l.writer.rule.Open)
    (stalls : p.Stalls ms l.clock.now l chunks final) (late : final + ms ≤ l.clock.limit) :
    ∃ l₁ d l₂, l.send (r.head close) = (.ok (), l₁) ∧
      (r.strip method).deliver (some ms) l₁ = (.error (.cancelled true), d, l₂) ∧
      l₂.clock.now = final + ms ∧
      r.send { id } method close (some ms) l =
        (.error (.aborted id (.cancelled true)), { id, phase := .aborted }, l₂.shutdown) ∧
      r.LeftOpen method close (some ms) l l₂.shutdown chunks
        (if 0 < ms then [.cancelled] else []) := by
  obtain ⟨w, sent, put⟩ := Delivery.send_open opened (r.head close)
  let l₁ : Link := { l with writer := w }
  have stalls₁ : p.Stalls ms l₁.clock.now l₁ chunks final := stalls.behind w
  have opened₁ : l₁.writer.rule.Open := put.rule ▸ opened
  obtain ⟨d, l₂, ran, moment, output, answers⟩ := Delivery.run_stalls opened₁ stalls₁ late
  have delivered := (deliver_stream notHead allowed stream (some ms) l₁).trans ran
  obtain ⟨x', failed⟩ := send_of_failed { id } sent delivered
  refine ⟨l₁, d, l₂, sent, delivered, moment, ?_, ?_⟩
  · rw [failed, aborted_of_send failed]
  · exact leftOpen_of_failed notHead allowed stream sent delivered output answers

/-- A chunk without bytes is progress: fifty milliseconds are not over between the first chunk with
bytes and the second one, though these are sixty apart. Behind the second one they are. -/
theorem send_stalls_paced :
    let steps : List Yield := [.pause 30, .chunk [65], .pause 30, .chunk [], .pause 30, .chunk [66],
      .pause 51, .chunk [67]]
    let r : Response := { status := .ok, body := .ofProducer (.script steps) }
    let l : Link := {
      clock := { limit := 1000 }
      reader := { arrivals := [], capacity := 1 }
      writer := {} }
    ∃ l₁ d l₂, l.send (r.head true) = (.ok (), l₁) ∧
      (r.strip .get).deliver (some 50) l₁ = (.error (.cancelled true), d, l₂) ∧
      l₂.clock.now = 140 ∧
      r.send { id := 7 } .get true (some 50) l =
        (.error (.aborted 7 (.cancelled true)), { id := 7, phase := .aborted }, l₂.shutdown) ∧
      r.LeftOpen .get true (some 50) l l₂.shutdown [[65], [], [66]] [.cancelled] := by
  intro steps r l
  let gaps : List (Nat × Bytes) := [(30, [65]), (30, []), (30, [66])]
  let rest : List Yield := [.pause 51, .chunk [67]]
  have quiet : ∀ l : Link,
      ((Producer.script rest).ask (l.limited (l.clock.now + 50))).1 = .stuck :=
    Producer.ask_pause_long (by decide) [.chunk [67]]
  have stalls : (Producer.script (Producer.paced gaps ++ rest)).Stalls 50 l.clock.now l
      (gaps.map Prod.snd) (l.clock.now + Producer.pauses gaps) :=
    Producer.stalls_paced (by decide) quiet (by decide)
  exact send_stalls 7 (by decide) (by decide) rfl true WriteRule.open_default stalls (by decide)

end Response

end HttpExchange
