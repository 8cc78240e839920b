import HttpExchange.Proofs.Body.Answering

/-!
Delivery over a writer that only ever waits. Every chunk that is written at all makes its round,
once there is enough time, and what the whole run comes to is then settled by what is left.
-/

namespace HttpExchange

namespace Delivery

variable {patience : Patience} {s : Course} {p p' q : Producer} {d : Delivery} {l l' m : Link}
  {b : Bytes} {chunks : List Bytes} {pull : Pull}

theorem overruns_eq_false_iff :
    d.overruns b = false ↔ ∀ n, d.framing.declared? = some n → d.written + b.length ≤ n := by
  cases declared : d.framing.declared? <;> simp [overruns, declared]

/-- The delivery is not kept from its next demand: nothing but waits stands in the way of its
writer, and no cancellation is asked for. -/
structure Course.Steady (s : Course) : Prop where
  willing : s.link.writer.rule.Willing
  still : s.delivery.permit = false

theorem round_of_fits (patience : Patience) (steady : s.Steady)
    (fits : s.delivery.overruns b = false) :
    ∃ (enough : Nat) (s' : Course), s'.producer = s.producer ∧ s.link.Still s'.link ∧ s'.Steady ∧
      ∀ limit, enough ≤ limit → ∀ before : Course,
        before.demand patience = (.chunk b, s.producer, s.delivery, s.link.limited limit) →
        Round patience before b (s'.limited limit) := by
  by_cases empty : b = []
  · subst empty
    refine ⟨0, { s with last := s.link.clock.now }, rfl, .refl _,
      ⟨steady.willing, steady.still⟩, ?_⟩
    intro limit _ before asked
    exact .skip asked
  · obtain ⟨enough, l', sends⟩ :=
      send_willing steady.willing (s.delivery.pending ++ s.delivery.framing.frame b)
    obtain ⟨still, rule, round⟩ := round_of_sends patience empty fits sends
    exact ⟨enough, s.sent b l', rfl, still, ⟨rule ▸ steady.willing, steady.still⟩, round⟩

theorem demand_of_steady (steady : s.Steady) (answers : s.producer.Answers s.link pull p' l')
    (came : pull ≠ .stuck) :
    ∃ (enough : Nat) (s₁ : Course), s₁.producer = p' ∧ l'.Still s₁.link ∧ s₁.Steady ∧
      s₁.delivery = s.delivery ∧ s₁.link.writer.output = s.link.writer.output ∧
      ∀ limit, enough ≤ limit → (s.limited limit).demand .endless =
        (pull, s₁.producer, s₁.delivery, s₁.link.limited limit) := by
  obtain ⟨enough, ⟨timed, _⟩ | ⟨clock, answer⟩⟩ :=
    demand_of_answers .endless answers came steady.still
  · exact absurd rfl timed
  have demanded := answer enough (Nat.le_refl _)
  obtain ⟨_, output, rule⟩ := demand_spec demanded
  have same : ({ s.delivery with permit := false } : Delivery) = s.delivery := by
    rw [← steady.still]
  rw [same] at answer
  exact ⟨enough, ⟨s.last, s.delivery, p', { l' with clock }⟩, rfl, ⟨rfl, rfl⟩,
    ⟨rule ▸ steady.willing, steady.still⟩, rfl, output, answer⟩

/-- Chunks within the length all make their rounds, once there is enough time. -/
theorem rounds_of_fits (gives : p.Gives l chunks q m) (s : Course) (producer : s.producer = p)
    (still : l.Still s.link) (steady : s.Steady)
    (fits : ∀ n, s.delivery.framing.declared? = some n →
      s.delivery.written + chunks.flatten.length ≤ n) :
    ∃ (enough : Nat) (s' : Course), s'.producer = q ∧ m.Still s'.link ∧ s'.Steady ∧
      ∀ limit, enough ≤ limit → Rounds .endless (s.limited limit) chunks (s'.limited limit) := by
  induction gives generalizing s with
  | none => exact ⟨0, s, producer, still, steady, fun _ _ => .none _⟩
  | @chunk p p' q l l' m b bs answers rest ih =>
      subst producer
      have sum : (b :: bs).flatten.length = b.length + bs.flatten.length := by
        rw [List.flatten_cons, List.length_append]
      obtain ⟨l₁, answers₁, still₁⟩ := answers.congr still
      obtain ⟨enough, s₁, producer₁, still₂, steady₁, same, _, answer⟩ :=
        demand_of_steady steady answers₁ Pull.noConfusion
      have room : s₁.delivery.overruns b = false := by
        rw [same, overruns_eq_false_iff]
        intro n declared
        have := fits n declared
        omega
      obtain ⟨enough', s₂, producer₂, still₃, steady₂, round⟩ :=
        round_of_fits .endless steady₁ room
      have first : ∀ limit, max enough enough' ≤ limit →
          Round .endless (s.limited limit) b (s₂.limited limit) := by
        intro limit late
        exact round limit (by omega) _ (answer limit (by omega))
      have before := sent_of_round (first _ (Nat.le_refl _))
      have fits' : ∀ n, s₂.delivery.framing.declared? = some n →
          s₂.delivery.written + bs.flatten.length ≤ n := by
        intro n declared
        have framing : s₂.delivery.framing = s.delivery.framing := before.framing
        have written : s₂.delivery.written = s.delivery.written + (filled [b]).flatten.length :=
          before.written
        rw [flatten_filled, List.flatten_singleton] at written
        have := fits n (framing ▸ declared)
        omega
      obtain ⟨enough₂, s', producer', still', steady', rounds⟩ :=
        ih s₂ (producer₂.trans producer₁) ((still₁.trans still₂).trans still₃) steady₂ fits'
      refine ⟨max (max enough enough') enough₂, s', producer', still', steady', ?_⟩
      intro limit late
      exact .more (first limit (by omega)) (rounds limit (by omega))

/-- A delivery that has taken these chunks whole, and what its run comes to from there. -/
structure Course.Behind (s : Course) (d : Delivery) (p : Producer) (l : Link) (chunks : List Bytes)
    (enough : Nat) : Prop where
  steady : s.Steady
  framing : s.delivery.framing = d.framing
  head : s.delivery.head = if filled chunks = [] then d.head else none
  count : s.delivery.chunks = (filled chunks).length
  written : s.delivery.written = chunks.flatten.length
  output : s.link.writer.output ++ s.delivery.pending =
    l.writer.output ++ (d.pending ++ d.framing.frames (filled chunks))
  runs : ∀ limit, enough ≤ limit → ∀ out d' l', (s.limited limit).loop .endless = (out, d', l') →
    d.run .endless p (l.limited limit) = (out, d'.settle out, l')
  answers : ∀ limit, enough ≤ limit → Event.answers (d.history .endless p (l.limited limit)) =
    chunks.map .chunk ++ Event.answers ((s.limited limit).later .endless)

/-- From the start a delivery takes all chunks within the length, once there is enough time. -/
theorem behind_of_gives {f : Framing} (head : Option Bytes) (willing : l.writer.rule.Willing)
    (gives : p.Gives l chunks q m)
    (fits : ∀ n, f.declared? = some n → chunks.flatten.length ≤ n) :
    ∃ (enough : Nat) (s : Course), s.producer = q ∧ m.Still s.link ∧
      s.Behind { framing := f, head } p l chunks enough := by
  let d : Delivery := { framing := f, head }
  obtain ⟨enough, l₁, rule, passed⟩ := flush_willing willing
  obtain ⟨body, reader⟩ := Link.still_flush (passed enough (Nat.le_refl _))
  let s : Course := ⟨l.clock.now, d, p, l₁⟩
  have fits' : ∀ n, s.delivery.framing.declared? = some n →
      s.delivery.written + chunks.flatten.length ≤ n := by
    intro n declared
    rw [show s.delivery.written = 0 from rfl, Nat.zero_add]
    exact fits n declared
  obtain ⟨enough', s', producer, still', steady, rounds⟩ :=
    rounds_of_fits gives s rfl ⟨body, reader⟩ ⟨rule ▸ willing, rfl⟩ fits'
  have before := sent_of_rounds (rounds enough' (Nat.le_refl _))
  have flushed : l₁.writer.output = l.writer.output := by
    have same := (put_flush (passed enough (Nat.le_refl _))).1.output
    rwa [List.append_nil] at same
  refine ⟨max enough enough', s', producer, still', ⟨steady, before.framing, before.head,
    before.chunks.trans (Nat.zero_add _), ?_, ?_, ?_, ?_⟩⟩
  · rw [← flatten_filled]
    exact before.written.trans (Nat.zero_add _)
  · rw [← flushed]
    exact before.output
  · intro limit late out d' l' looped
    refine (run_of_loop rfl (passed limit (by omega)) ?_).1
    exact (loop_of_rounds (rounds limit (by omega))).trans looped
  · intro limit late
    obtain ⟨_, _, told⟩ := run_of_loop (d := d) (l := l.limited limit) rfl
      (passed limit (by omega)) rfl
    exact told.trans (answers_of_rounds (rounds limit (by omega)))

end Delivery

end HttpExchange
