import HttpExchange.Client.Exchange
import HttpExchange.Proofs.Body.Likeness
import HttpExchange.Proofs.Body.Reading

/-!
Where the exchange of a client stands while the body of the response is read. The decoder, the body
that the caller pulls and the exchange go on in step: as long as pieces come the exchange streams, the
end in order completes it, and the one error aborts it.
-/

namespace HttpExchange

namespace Decoder

variable {state state' : DecoderState} {bound : Nat} {r r' : Reader} {c c' : Clock}

/-- No step leads into failure; only an error that was reported does. -/
theorem advance_sound {out : Outcome WireError Piece} (sound : state ≠ .failed)
    (eq : advance state bound r c = (out, state', r', c')) : state' ≠ .failed := by
  fun_induction advance state bound r c
  case case2 ih | case3 ih | case9 ih | case14 ih =>
      exact ih DecoderState.noConfusion eq
  case case6 =>
      cases eq
      split <;> exact DecoderState.noConfusion
  case case26 => exact absurd rfl sound
  all_goals
    cases eq
    exact DecoderState.noConfusion

end Decoder

/-- What was seen of a body that is pulled, and where the exchange stood behind each pull: pieces and
waiting while it streams, then the end or one error, and from there on nothing but the end. -/
inductive Told : List (Outcome BodyError Piece × Phase) → Phase → Prop where
  | none : Told [] .streaming
  | chunk (b : Bytes) {seen : List (Outcome BodyError Piece × Phase)} {phase : Phase}
      (rest : Told seen phase) : Told ((.ok (.data b), .streaming) :: seen) phase
  | stuck {seen : List (Outcome BodyError Piece × Phase)} {phase : Phase}
      (rest : Told seen phase) : Told ((.stuck, .streaming) :: seen) phase
  | ended {seen : List (Outcome BodyError Piece × Phase)}
      (later : ∀ s ∈ seen, s = (.ok .ended, .completed)) :
      Told ((.ok .ended, .completed) :: seen) .completed
  | failed (e : BodyError) {seen : List (Outcome BodyError Piece × Phase)}
      (later : ∀ s ∈ seen, s = (.ok .ended, .aborted)) :
      Told ((.error e, .aborted) :: seen) .aborted

namespace Answer

/-- One pull after another, with where the exchange stood behind each. In between the link stays
still. -/
inductive Pulls : Answer → Link → List (Outcome BodyError Piece × Phase) → Answer → Link → Prop where
  | none {a : Answer} {l l' : Link} (still : l.Still l') : Pulls a l [] a l'
  | next {a a₁ a' : Answer} {l l₁ l₂ l' : Link} {out : Outcome BodyError Piece}
      {seen : List (Outcome BodyError Piece × Phase)} (still : l.Still l₁)
      (pulled : a.next l₁ = (out, a₁, l₂)) (rest : Pulls a₁ l₂ seen a' l') :
      Pulls a l ((out, a₁.exchange.phase) :: seen) a' l'

variable {a a' : Answer} {l l' l₁ : Link} {seen : List (Outcome BodyError Piece × Phase)}

structure Streams (a : Answer) (l : Link) : Prop where
  phase : a.exchange.phase = .streaming
  sound : l.body.state ≠ .failed

/-- The body is over, in order or with an error, and the exchange with it. -/
inductive Over (a : Answer) (l : Link) : Prop where
  | completed (phase : a.exchange.phase = .completed) (done : l.body.state = .done)
  | aborted (phase : a.exchange.phase = .aborted) (failed : l.body.state = .failed)

theorem Streams.still (streams : a.Streams l) (still : l.Still l') : a.Streams l' :=
  ⟨streams.phase, still.body ▸ streams.sound⟩

theorem Over.still (gone : a.Over l) (still : l.Still l') : a.Over l' := by
  cases gone with
  | completed phase done => exact .completed phase (still.body ▸ done)
  | aborted phase failed => exact .aborted phase (still.body ▸ failed)

theorem Over.next (gone : a.Over l) : ∃ l', a.next l = (.ok .ended, a, l') ∧ a.Over l' := by
  cases gone with
  | completed phase done =>
      have stays : a.complete = a := by
        rw [complete, Exchange.advance, phase, if_neg (by decide)]
      refine ⟨{ l with body := { l.body with released := true } }, ?_, .completed phase done⟩
      rw [Answer.next, Link.readPiece, Decoder.next_done done]
      simp only [stays]
  | aborted phase failed =>
      have stays : a.complete = a := by
        rw [complete, Exchange.advance, phase, if_neg (by decide)]
      refine ⟨l, ?_, .aborted phase failed⟩
      rw [Answer.next, Link.readPiece, Decoder.next_failed failed]
      simp only [stays]

theorem Streams.complete (streams : a.Streams l) : a.complete.exchange.phase = .completed := by
  rw [Answer.complete, Exchange.advance, streams.phase, if_pos (by decide)]

theorem Streams.abort (streams : a.Streams l) : a.abort.exchange.phase = .aborted := by
  rw [Answer.abort, Exchange.abort, Exchange.advance, streams.phase, if_pos (by decide)]

/-- A pull of a body that streams: it goes on, it ends in order, or it fails. -/
theorem Streams.next {out : Outcome BodyError Piece} (streams : a.Streams l)
    (pulled : a.next l = (out, a', l')) :
    ((∃ b, out = .ok (.data b)) ∨ out = .stuck) ∧ a' = a ∧ a.Streams l' ∨
      out = .ok .ended ∧ a' = a.complete ∧ a'.Over l' ∨
      (∃ e, out = .error e) ∧ a' = a.abort ∧ a'.Over l' := by
  rcases step : Decoder.advance l.body.state (max 1 l.body.bound) l.reader l.clock with
    ⟨answer, state, r, clock⟩
  have sound := Decoder.advance_sound streams.sound step
  rw [Answer.next, Link.readPiece, Decoder.next, step] at pulled
  rcases answer with (b | _) | e | _
  all_goals cases pulled
  · exact .inl ⟨.inl ⟨b, rfl⟩, rfl, streams.phase, sound⟩
  · obtain rfl : state = .done := by
      rcases Decoder.advance_ended step with done | failed
      · exact done
      · exact absurd failed streams.sound
    exact .inr (.inl ⟨rfl, rfl, .completed streams.complete rfl⟩)
  · exact .inr (.inr ⟨⟨_, rfl⟩, rfl, .aborted streams.abort rfl⟩)
  · exact .inl ⟨.inr rfl, rfl, streams.phase, sound⟩

theorem Pulls.over (pulls : a.Pulls l seen a' l') (gone : a.Over l) :
    a' = a ∧ ∀ s ∈ seen, s = (.ok .ended, a.exchange.phase) := by
  induction pulls with
  | none => exact ⟨rfl, List.forall_mem_nil _⟩
  | next still pulled rest ih =>
      obtain ⟨_, ended, gone'⟩ := (gone.still still).next
      cases pulled.symm.trans ended
      obtain ⟨same, rest⟩ := ih gone'
      exact ⟨same, List.forall_mem_cons.mpr ⟨rfl, rest⟩⟩

theorem Pulls.told (pulls : a.Pulls l seen a' l') (streams : a.Streams l) :
    Told seen a'.exchange.phase := by
  induction pulls with
  | none => exact streams.phase ▸ .none
  | next still pulled rest ih =>
      have streams := streams.still still
      rcases streams.next pulled with
        ⟨more, rfl, streams'⟩ | ⟨rfl, rfl, gone⟩ | ⟨⟨e, rfl⟩, rfl, gone⟩
      · have later := ih streams'
        rw [streams.phase]
        rcases more with ⟨b, rfl⟩ | rfl
        · exact .chunk b later
        · exact .stuck later
      · obtain ⟨rfl, nothing⟩ := rest.over gone
        rw [streams.complete] at nothing ⊢
        exact .ended nothing
      · obtain ⟨rfl, nothing⟩ := rest.over gone
        rw [streams.abort] at nothing ⊢
        exact .failed e nothing

theorem body_next {out : Outcome BodyError Piece} (pulled : a.next l = (out, a', l')) :
    a'.body = a.body := by
  rw [next] at pulled
  split at pulled <;> cases pulled <;> rfl

theorem Pulls.body (pulls : a.Pulls l seen a' l') : a'.body = a.body := by
  induction pulls with
  | none => rfl
  | next _ pulled _ ih => exact ih.trans (body_next pulled)

inductive Aggregated (chunks : List Bytes) :
    Outcome BodyError Piece × Phase → Outcome ClientError Bytes → Prop where
  | whole : Aggregated chunks (.ok .ended, .completed) (.ok chunks.flatten)
  | failed (e : BodyError) : Aggregated chunks (.error e, .aborted) (.error (.body e))
  | stuck : Aggregated chunks (.stuck, .streaming) .stuck

def settle (a : Answer) : Outcome BodyError Bytes → Outcome ClientError Bytes × Answer
  | .ok b => (.ok b, a.complete)
  | .error e => (.error (.body e), a.abort)
  | .stuck => (.stuck, a)

def piece (b : Bytes) : Outcome BodyError Piece × Phase := (.ok (.data b), .streaming)

theorem collectOnto_pulls (streams : a.Streams l) {before : List Bytes}
    {out : Outcome BodyError Bytes}
    (eq : Producer.collectOnto before .incoming l = (out, l')) :
    ∃ chunks last, a.Pulls l (chunks.map piece ++ [last]) (a.settle out).2 l' ∧
      (a.settle out).2.exchange.phase = last.2 ∧
      Aggregated (before.reverse ++ chunks) last (a.settle out).1 := by
  induction weight : l.weight using Nat.strongRecOn generalizing l before with
  | ind n ih =>
      subst weight
      rw [Producer.collectOnto_eq] at eq
      rcases read : l.readPiece with ⟨answer, l₁⟩
      rcases answer with (b | _) | e | _
      all_goals simp only [Producer.pull, Producer.ask, read] at eq
      · have pulled : a.next l = (.ok (.data b), a, l₁) := by
          rw [Answer.next, read]
        have sound : a.Streams l₁ := by
          rcases streams.next pulled with ⟨_, _, later⟩ | ⟨other, _⟩ | ⟨⟨_, other⟩, _⟩
          · exact later
          · cases other
          · cases other
        obtain ⟨chunks, last, pulls, phase, all⟩ :=
          ih _ ((Link.weight_readPiece read).2 b rfl) sound eq rfl
        refine ⟨b :: chunks, last, ?_, phase, ?_⟩
        · have first := Pulls.next (.refl l) pulled pulls
          rwa [streams.phase] at first
        · rwa [List.reverse_cons, List.append_assoc] at all
      · cases eq
        have pulled : a.next l = (.ok .ended, a.complete, l') := by
          rw [Answer.next, read]
        refine ⟨[], _, .next (.refl l) pulled (.none (.refl l')), rfl, ?_⟩
        rw [List.append_nil, streams.complete]
        exact .whole
      · cases eq
        have pulled : a.next l = (.error (.wire e), a.abort, l') := by
          rw [Answer.next, read]
        refine ⟨[], _, .next (.refl l) pulled (.none (.refl l')), rfl, ?_⟩
        rw [streams.abort]
        exact .failed (.wire e)
      · cases eq
        have pulled : a.next l = (.stuck, a, l') := by
          rw [Answer.next, read]
        refine ⟨[], _, .next (.refl l) pulled (.none (.refl l')), rfl, ?_⟩
        rw [streams.phase]
        exact .stuck

/-- The answer behind its body, which somebody else has now. -/
def taken (a : Answer) : Answer := { a with body := { consumed := true } }

theorem takeBody_fresh (fresh : a.body = .ofProducer .incoming) :
    a.takeBody = (.ok .incoming, a.taken) := by
  rw [takeBody, fresh]
  rfl

theorem body_settle (a : Answer) (out : Outcome BodyError Bytes) :
    (a.settle out).2.body = a.body := by
  cases out <;> rfl

theorem takeBody_consumed (consumed : a.body.consumed = true) :
    a.takeBody = (.error .alreadyConsumed, a) := by
  rw [takeBody, Body.take, if_pos consumed]

theorem aggregate_consumed (consumed : a.body.consumed = true) (l : Link) :
    a.aggregate l = (.error (.body .alreadyConsumed), a, l) := by
  rw [aggregate, takeBody_consumed consumed]

theorem aggregate_fresh (fresh : a.body = .ofProducer .incoming) {out : Outcome BodyError Bytes}
    (collected : Producer.incoming.collect l = (out, l')) :
    a.aggregate l = ((a.taken.settle out).1, (a.taken.settle out).2, l') := by
  rw [aggregate, takeBody_fresh fresh]
  simp only [collected]
  cases out <;> rfl

end Answer

namespace Client

variable {c c' : Client} {d : Draft} {l l' l₁ : Link} {a : Answer}

theorem receive_ok {method : Method} {head : ResponseHead}
    (received : c.receive method l = (.ok head, l')) : l'.body.state ≠ .failed := by
  rw [receive] at received
  split at received
  · cases received
  · cases received
  · cases received
  · split at received
    · cases received
    · split at received
      · cases received
      · next framing _ =>
          cases received
          cases framing <;> exact nofun

/-- The answer to a request that was sent: its body is still on the wire, all of it. -/
theorem send_ok (sent : c.send d l = (.ok a, c', l')) :
    a.body = .ofProducer .incoming ∧ a.Streams l' := by
  rw [send] at sent
  split at sent
  · cases sent
  · simp only at sent
    split at sent
    · cases sent
    · cases sent
    · split at sent
      · cases sent
      · cases sent
      · split at sent
        · cases sent
        · cases sent
        · next received =>
            cases sent
            exact ⟨rfl, rfl, receive_ok received⟩

/-- The exchange of an answer tells how its body ended, whatever comes behind the head. While the body
is pulled, the exchange streams behind every piece; it is completed where the end is seen in order and
aborted where the one error is seen, and from there on neither it nor what is seen changes. An
aggregate is what the pulls would have given: all their pieces if the end is behind them, and else just
their error. Behind either the body is gone. -/
theorem send_tracked (sent : c.send d l = (.ok a, c', l')) :
    a.exchange.phase = .streaming ∧ a.takeBody = (.ok .incoming, a.taken) ∧
      (∀ seen a' l₂, a.taken.Pulls l' seen a' l₂ →
        Told seen a'.exchange.phase ∧ a'.takeBody = (.error .alreadyConsumed, a')) ∧
      ∀ l₁, l'.Still l₁ → ∃ chunks last out a' l₂, a.aggregate l₁ = (out, a', l₂) ∧
        a.taken.Pulls l₁ (chunks.map Answer.piece ++ [last]) a' l₂ ∧
        a'.exchange.phase = last.2 ∧ Answer.Aggregated chunks last out ∧
        ∀ l₃, a'.aggregate l₃ = (.error (.body .alreadyConsumed), a', l₃) := by
  obtain ⟨fresh, streams⟩ := send_ok sent
  have streams : a.taken.Streams l' := ⟨streams.phase, streams.sound⟩
  refine ⟨streams.phase, Answer.takeBody_fresh fresh, ?_, ?_⟩
  · intro seen a' l₂ pulls
    exact ⟨pulls.told streams, Answer.takeBody_consumed (pulls.body ▸ rfl)⟩
  · intro l₁ still
    rcases collected : Producer.incoming.collect l₁ with ⟨out, l₂⟩
    obtain ⟨chunks, last, pulls, phase, all⟩ :=
      Answer.collectOnto_pulls (streams.still still) collected
    have consumed : (a.taken.settle out).2.body.consumed = true := by
      rw [Answer.body_settle]
      rfl
    exact ⟨chunks, last, _, _, l₂, Answer.aggregate_fresh fresh collected, pulls, phase, all,
      Answer.aggregate_consumed consumed⟩

/-- Five bytes are announced. When they come the exchange is completed; when the connection ends
inside them it is aborted behind the piece that came, and stays so. -/
theorem send_tracked_cut :
    let c : Client := { config := { readBufferSize := 2 } }
    let d : Draft := { method := .get, target := "/" }
    let link (body : Bytes) : Link := {
      clock := { limit := 0 }
      reader := {
        arrivals := [.bytes (Utf8.encode "HTTP/1.1 200 OK\r\nContent-Length: 5\r\n\r\n" ++ body)]
        capacity := 64 }
      writer := {} }
    let answer : Answer := {
      head := ⟨.http11, 200, "OK", [("Content-Length", "5")]⟩
      exchange := ⟨1, .streaming⟩ }
    (∃ l' a' l₂, c.send d (link [72, 101, 108, 108, 111]) = (.ok answer, { c with issued := 1 }, l') ∧
      answer.aggregate l' = (.ok [72, 101, 108, 108, 111], a', l₂) ∧
      a'.exchange.phase = .completed) ∧
    ∃ l' a' l₂, c.send d (link [72, 101, 108]) = (.ok answer, { c with issued := 1 }, l') ∧
      answer.taken.Pulls l' [Answer.piece [72, 101], (.error (.wire .incomplete), .aborted),
        (.ok .ended, .aborted)] a' l₂ ∧ a'.exchange.phase = .aborted := by
  intro c d link answer
  have sent (body : Bytes) (front : (c.send d (link body)).1 = .ok answer)
      (counted : (c.send d (link body)).2.1 = { c with issued := 1 }) :
      c.send d (link body) = (.ok answer, { c with issued := 1 }, (c.send d (link body)).2.2) :=
    Prod.ext front (Prod.ext counted rfl)
  constructor
  · have went := sent [72, 101, 108, 108, 111] (by decide +kernel) (by decide +kernel)
    obtain ⟨_, _, _, all⟩ := send_tracked went
    obtain ⟨chunks, last, out, a', l₂, whole, _, phase, collected, _⟩ := all _ (.refl _)
    have bytes : (answer.aggregate (c.send d (link [72, 101, 108, 108, 111])).2.2).1 =
        .ok [72, 101, 108, 108, 111] := by decide +kernel
    rw [whole] at bytes
    refine ⟨_, a', l₂, went, by rw [whole, ← bytes], ?_⟩
    cases collected with
    | whole => exact phase
    | failed => cases bytes
    | stuck => cases bytes
  · have went := sent [72, 101, 108] (by decide +kernel) (by decide +kernel)
    obtain ⟨_, _, told, _⟩ := send_tracked went
    have seen :
        let one := answer.taken.next (c.send d (link [72, 101, 108])).2.2
        let two := one.2.1.next one.2.2
        (one.1, two.1, (two.2.1.next two.2.2).1) =
          (.ok (.data [72, 101]), .error (.wire .incomplete), .ok .ended) := by decide +kernel
    rcases first : answer.taken.next (c.send d (link [72, 101, 108])).2.2 with ⟨one, a₁, l₁⟩
    rcases second : a₁.next l₁ with ⟨two, a₂, l₂⟩
    rcases third : a₂.next l₂ with ⟨three, a₃, l₃⟩
    simp only [first, second, third] at seen
    cases seen
    have pulls := Answer.Pulls.next (.refl _) first (.next (.refl _) second (.next (.refl _) third
      (.none (.refl l₃))))
    obtain ⟨told, _⟩ := told _ _ _ pulls
    refine ⟨_, a₃, l₃, went, ?_⟩
    generalize a₁.exchange.phase = phase₁, a₂.exchange.phase = phase₂,
      a₃.exchange.phase = phase₃ at told pulls ⊢
    cases told with
    | chunk _ rest =>
        cases rest with
        | failed _ later =>
            cases later _ List.mem_cons_self
            exact ⟨pulls, rfl⟩

end Client

end HttpExchange
