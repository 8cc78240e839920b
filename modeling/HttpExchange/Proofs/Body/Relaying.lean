import HttpExchange.Proofs.Body.Breaking
import HttpExchange.Proofs.Body.Standing
import HttpExchange.Proofs.Body.Timing
import HttpExchange.Server.Request

/-!
A body that is relayed: its pieces are taken off one direction of a link and written to the other
one. The relay gives what is handed out to whoever reads the body, whenever it is asked, and fails
where the reader would. An end is on the wire exactly if the body came to its own.
-/

namespace HttpExchange

namespace Decoder

variable {d : Decoder} {r r' : Reader} {c c' : Clock} {f : Framing} {x : Bytes}

theorem advance_piece {state state' : DecoderState} {bound : Nat} {b : Bytes} (room : 0 < bound)
    (eq : advance state bound r c = (.ok (.data b), state', r', c')) : b ≠ [] := by
  fun_induction advance state bound r c
  case case2 ih | case3 ih | case9 ih | case14 ih => exact ih eq
  case case6 read | case18 read =>
      cases eq
      obtain ⟨got, _, same, _⟩ := readData_takes read
      obtain ⟨rfl, size⟩ := same _ rfl
      rw [← List.length_pos_iff, size]
      omega
  case case22 some =>
      cases eq
      rwa [List.isEmpty_iff] at some
  all_goals cases eq

theorem next_piece {d' : Decoder} {b : Bytes} (eq : d.next r c = (.ok (.data b), d', r', c')) :
    b ≠ [] := by
  have room : 0 < max 1 d.bound := by omega
  rcases step : advance d.state (max 1 d.bound) r c with ⟨(_ | _) | _ | _, state, r₁, c₁⟩
  all_goals
    rw [next, step] at eq
    cases eq
  exact advance_piece room step

theorem drain_pieces (d : Decoder) (r : Reader) (c : Clock) :
    ∀ b ∈ (d.drain r c).pieces, b ≠ [] := by
  fun_induction drain d r c with
  | case1 d r c b d₁ r₁ c₁ read ih =>
      exact List.forall_mem_cons.mpr ⟨next_piece read, ih⟩
  | case2 | case3 | case4 => exact List.forall_mem_nil _

/-- A body that ends in order is the whole of what its framing spans, and is known to be read. -/
theorem drain_stands (stands : Stands f x d.state) (fresh : d.released = false)
    (ended : (d.drain r c).ending = .ok ()) :
    ∃ b chunks, r.Takes b (d.drain r c).reader ∧ f.Spans (x ++ b) chunks ∧
      (d.drain r c).decoder.released = true := by
  fun_induction drain d r c generalizing x with
  | case1 d r c piece d₁ r₁ c₁ read ih =>
      obtain ⟨b, taken, ⟨none, _⟩ | ⟨⟨_, none⟩, _⟩ | ⟨_, later, still⟩⟩ :=
        next_stands stands fresh read
      · cases none
      · cases none
      · obtain ⟨more, chunks, takes, spans, released⟩ := ih later still ended
        rw [List.append_assoc] at spans
        exact ⟨b ++ more, chunks, taken.trans takes, spans, released⟩
  | case2 d r c d₁ r₁ c₁ read =>
      obtain ⟨b, taken, ⟨_, _, released, whole⟩ | ⟨⟨_, none⟩, _⟩ | ⟨⟨_, none⟩ | none, _⟩⟩ :=
        next_stands stands fresh read
      · cases whole with
        | chunk opening => cases opening
        | whole spans => exact ⟨b, _, taken, spans, released⟩
      all_goals cases none
  | case3 | case4 => cases ended

end Decoder

namespace Producer

variable {p q q' : Producer} {l m m' : Link} {chunks : List Bytes} {cause : Mishap}

/-- What a relay answers where its body is read to this. -/
def relayed : Outcome WireError Piece → Pull
  | .ok (.data b) => .chunk b
  | .ok .ended => .ended
  | .error e => .failed (.unread e)
  | .stuck => .stuck

theorem relayed_ne_cancelled (out : Outcome WireError Piece) : relayed out ≠ .cancelled := by
  rcases out with (_ | _) | _ | _
  all_goals exact Pull.noConfusion

theorem relayed_ne_stuck {out : Outcome WireError Piece} (came : out ≠ .stuck) :
    relayed out ≠ .stuck := by
  rcases out with (_ | _) | _ | _
  · exact Pull.noConfusion
  · exact Pull.noConfusion
  · exact Pull.noConfusion
  · exact absurd rfl came

theorem ask_incoming (l : Link) :
    incoming.ask l = (relayed l.readPiece.1, incoming, false, l.readPiece.2) := by
  rw [ask]
  rcases l.readPiece with ⟨(_ | _) | _ | _, _⟩ <;> rfl

/-- A relay answers at any time what is read of its body at one time. -/
theorem answers_of_next {d d' : Decoder} {r r' : Reader} {c c' : Clock}
    {out : Outcome WireError Piece} (read : d.next r c = (out, d', r', c')) (came : out ≠ .stuck)
    (l : Link) :
    incoming.Answers { l with reader := r, body := d } (relayed out) incoming
      { l with reader := r', body := d' } := by
  have asked : incoming.ask { l with clock := c, reader := r, body := d } =
      (relayed out, incoming, false, { l with clock := c', reader := r', body := d' }) := by
    rw [ask_incoming, Link.readPiece, read]
  have answers : incoming.Answers { l with clock := c, reader := r, body := d } (relayed out)
      incoming { l with clock := c', reader := r', body := d' } :=
    answers_of_ask asked (relayed_ne_cancelled out) (relayed_ne_stuck came)
  exact answers

/-- A relay gives the pieces of its body, and behind them answers as the body ends. -/
theorem gives_of_drain (d : Decoder) (r : Reader) (c : Clock) (l : Link) :
    ∃ m, incoming.Gives { l with reader := r, body := d } (d.drain r c).pieces incoming m ∧
      ∀ out, (d.drain r c).ending = out → out ≠ .stuck →
        ∃ m', incoming.Answers m (relayed (out.map fun _ => .ended)) incoming m' ∧
          m'.reader = (d.drain r c).reader ∧ m'.body = (d.drain r c).decoder := by
  fun_induction Decoder.drain d r c with
  | case1 d r c b d₁ r₁ c₁ read ih =>
      obtain ⟨m, gives, ends⟩ := ih
      exact ⟨m, .chunk (answers_of_next read nofun l) gives, ends⟩
  | case2 d r c d₁ r₁ c₁ read =>
      refine ⟨_, .none _ _, ?_⟩
      rintro _ rfl _
      exact ⟨_, answers_of_next read nofun l, rfl, rfl⟩
  | case3 d r c e d₁ r₁ c₁ read =>
      refine ⟨_, .none _ _, ?_⟩
      rintro _ rfl _
      exact ⟨_, answers_of_next read nofun l, rfl, rfl⟩
  | case4 d r c d₁ r₁ c₁ read =>
      refine ⟨_, .none _ _, ?_⟩
      rintro _ rfl came
      exact absurd rfl came

/-- The body of a request gives, whoever asks for it, what a decoder hands out of it. -/
theorem gives_of_request {f : Framing} {bound : Nat} (unread : l.body = .start f bound)
    (c : Clock) :
    let body := l.body.drain l.reader c
    (body.ending = .ok () → ∃ q m q' m', (Request.bodyOf f).producer.Gives l body.pieces q m ∧
      q.Answers m .ended q' m' ∧ m'.reader = body.reader ∧
      (f ≠ .empty → m'.body = body.decoder)) ∧
    ∀ e, body.ending = .error e → (Request.bodyOf f).producer.Breaks l body.pieces (.unread e) := by
  intro body
  by_cases empty : f = .empty
  · subst empty
    have drained : body = ⟨[], .ok (), { l.body with released := true }, l.reader, c⟩ := by
      have done : l.body.state = .done := congrArg Decoder.state unread
      rw [show body = _ from Decoder.drain_eq l.body l.reader c, Decoder.next_done done]
    have asked : (known []).ask l = (.ended, script [], false, l) := rfl
    have ends : (known []).Answers l .ended (script []) l := answers_of_ask asked nofun nofun
    rw [drained]
    refine ⟨fun _ => ⟨_, _, _, _, .none _ _, ends, rfl, ?_⟩, nofun⟩
    intro some
    exact absurd rfl some
  · have relay : (Request.bodyOf f).producer = incoming := by
      cases f with
      | empty => exact absurd rfl empty
      | length | chunked | untilClose => rfl
    rw [relay]
    obtain ⟨m, gives, ends⟩ := gives_of_drain l.body l.reader c l
    constructor
    · intro ended
      obtain ⟨m', answers, reader, decoder⟩ := ends _ ended nofun
      exact ⟨_, m, _, m', gives, answers, reader, fun _ => decoder⟩
    · intro e failed
      obtain ⟨m', answers, _⟩ := ends _ failed nofun
      exact gives.breaks answers

end Producer

end HttpExchange
