import HttpExchange.Proofs.Body.Elapsing
import HttpExchange.Proofs.Body.Idling

/-!
A producer that falls silent under an idle timeout. Each chunk before, one without bytes as well,
has the time begin anew; the delivery is cut off when it is over, and what is on the wire by then are
the whole frames of these chunks.
-/

namespace HttpExchange

namespace Producer

/-- From its last answer on the producer gives these chunks, each in less than so long, and behind
the last one, which comes at the second moment, it has nothing to say for longer than that. -/
inductive Stalls (ms : Nat) : Nat → Producer → Link → List Bytes → Nat → Prop where
  | silent {last : Nat} {p : Producer} {l : Link}
      (silent : (p.ask (l.limited (last + ms))).1 = .stuck) : Stalls ms last p l [] last
  | chunk {last final : Nat} {p p' : Producer} {l l' : Link} {b : Bytes} {bs : List Bytes}
      (asked : p.ask l = (.chunk b, p', false, l')) (early : l'.clock.now < last + ms)
      (rest : Stalls ms l'.clock.now p' l' bs final) : Stalls ms last p l (b :: bs) final

variable {p p' : Producer} {l l' : Link} {bs : List Bytes} {ms last final : Nat} {pull : Pull}

theorem Stalls.behind (stalls : p.Stalls ms last l bs final) (w : Writer) :
    p.Stalls ms last { l with writer := w } bs final := by
  induction stalls generalizing w with
  | @silent last p l silent =>
      apply Stalls.silent
      rcases asked : p.ask (l.limited (last + ms)) with ⟨pull, p', permit, l'⟩
      rw [asked] at silent
      exact (congrArg Prod.fst (ask_writer w asked).1).trans silent
  | chunk asked early rest ih => exact .chunk (ask_writer w asked).1 early (ih _)

/-- The steps that give chunks, each behind a pause. -/
def paced (gaps : List (Nat × Bytes)) : List Yield :=
  gaps.flatMap fun gap => [.pause gap.1, .chunk gap.2]

def pauses (gaps : List (Nat × Bytes)) : Nat := gaps.foldr (fun gap rest => gap.1 + rest) 0

theorem ask_paced {gap : Nat × Bytes} {steps : List Yield}
    (late : l.clock.now + gap.1 ≤ l.clock.limit) :
    (script (paced [gap] ++ steps)).ask l = (.chunk gap.2, script steps, false,
      { l.notePull with clock := { l.clock with now := l.clock.now + gap.1 } }) := by
  have waited : l.clock.waitUntil (l.clock.now + gap.1) =
      (true, { l.clock with now := l.clock.now + gap.1 }) := by
    rw [Clock.waitUntil, if_pos late, Nat.max_eq_right (Nat.le_add_right _ _)]
  have steps : paced [gap] ++ steps = .pause gap.1 :: .chunk gap.2 :: steps := rfl
  rw [steps, ask, pullScript]
  simp only [Link.waitUntil, waited, Bool.false_eq_true, if_false]
  rfl

/-- Whatever the pauses, a script stalls at the first one that is too long, or that has no end. -/
theorem stalls_paced {gaps : List (Nat × Bytes)} (short : ∀ gap ∈ gaps, gap.1 < ms)
    {steps : List Yield}
    (quiet : ∀ l : Link, ((script steps).ask (l.limited (l.clock.now + ms))).1 = .stuck)
    (late : l.clock.now + pauses gaps ≤ l.clock.limit) :
    (script (paced gaps ++ steps)).Stalls ms l.clock.now l (gaps.map Prod.snd)
      (l.clock.now + pauses gaps) := by
  induction gaps generalizing l with
  | nil => exact .silent (quiet l)
  | cons gap gaps ih =>
      obtain ⟨here, later⟩ := List.forall_mem_cons.mp short
      have sum : pauses (gap :: gaps) = gap.1 + pauses gaps := rfl
      rw [sum, ← Nat.add_assoc] at late ⊢
      rw [List.map_cons]
      let l₁ : Link := { l.notePull with clock := { l.clock with now := l.clock.now + gap.1 } }
      have asked : (script (paced (gap :: gaps) ++ steps)).ask l =
          (.chunk gap.2, script (paced gaps ++ steps), false, l₁) := by
        have split : paced (gap :: gaps) ++ steps = paced [gap] ++ (paced gaps ++ steps) := rfl
        rw [split]
        exact ask_paced (Nat.le_trans (Nat.le_add_right _ _) late)
      exact .chunk asked (Nat.add_lt_add_left here _) (@ih l₁ later late)

theorem ask_pause_long {gap : Nat} (long : ms < gap) (steps : List Yield) (l : Link) :
    ((script (.pause gap :: steps)).ask (l.limited (l.clock.now + ms))).1 = .stuck := by
  have asleep : ((l.limited (l.clock.now + ms)).clock.waitUntil (l.clock.now + gap)).1 = false :=
    congrArg Prod.fst (if_neg (Nat.not_le_of_lt (Nat.add_lt_add_left long _)))
  rcases waited : (l.limited (l.clock.now + ms)).clock.waitUntil (l.clock.now + gap) with ⟨awake, c⟩
  rw [waited] at asleep
  cases asleep
  have now : (l.limited (l.clock.now + ms)).clock.now = l.clock.now := rfl
  rw [ask, pullScript]
  simp only [Link.waitUntil, now, waited, Bool.false_eq_true, if_false]

theorem askBefore_silent {moment : Nat} (silent : (p.ask (l.limited moment)).1 = .stuck)
    (open_ : l.clock.now < moment) (late : moment ≤ l.clock.limit) :
    ∃ p' permit l', p.askBefore moment l = (.cancelled, p', permit, l') ∧
      l'.clock.now = moment := by
  rcases asked : p.ask (l.limited moment) with ⟨pull, p', permit, l₁⟩
  rw [asked] at silent
  cases silent
  have reached : l₁.clock.now = max l.clock.now moment := expires_ask asked
  have within : p.ask { l with clock := l.clock.within moment } = (.stuck, p', permit, l₁) := by
    rw [← asked, Link.limited, Clock.within, Nat.min_eq_right late, Clock.limited]
  refine ⟨p', permit, { l₁ with clock := { l.clock with now := l₁.clock.now } }, ?_, ?_⟩
  · rw [askBefore, if_neg (Nat.not_le_of_lt open_), within]
    exact if_pos late
  · rw [reached]
    exact Nat.max_eq_right (Nat.le_of_lt open_)

end Producer

namespace Delivery

variable {p : Producer} {d : Delivery} {l : Link} {chunks : List Bytes} {ms last final : Nat}

/-- A demand that nothing is said to before the time is over. -/
theorem demand_silent {s : Course} (fresh : s.last = s.link.clock.now)
    (still : s.delivery.permit = false)
    (silent : (s.producer.ask (s.link.limited (s.last + ms))).1 = .stuck)
    (late : s.last + ms ≤ s.link.clock.limit) :
    ∃ p d l, s.demand (.idle ms) = (.cancelled, p, d, l) ∧ l.clock.now = s.last + ms ∧
      Event.answers (s.turn (.idle ms)) = if 0 < ms then [.cancelled] else [] := by
  by_cases lasts : 0 < ms
  · have open_ : s.link.clock.now < s.last + ms := by omega
    obtain ⟨p', permit, l', asked, moment⟩ := Producer.askBefore_silent silent open_ late
    have demanded : s.demand (.idle ms) = (.cancelled, p', { s.delivery with permit }, l') :=
      demand_of_askWithin still (show s.producer.askWithin (some (s.last + ms)) s.link = _ from asked)
    have uncut : s.isCancelled (.idle ms) = false := by
      rw [Course.isCancelled, still, Bool.false_or]
      exact decide_eq_false (Nat.not_le_of_lt open_)
    refine ⟨_, _, _, demanded, moment, ?_⟩
    rw [Course.turn, uncut, demanded, if_pos lasts]
    rfl
  · have cancelled : s.isCancelled (.idle ms) = true := isCancelled_of_late (by omega)
    refine ⟨_, _, _, demand_of_isCancelled cancelled, by omega, ?_⟩
    rw [Course.turn, cancelled, if_neg lasts]
    rfl

/-- The chunks of a producer that stalls are rounds, and the demand behind them is cancelled. -/
theorem rounds_of_stalls (stalls : p.Stalls ms last l chunks final) (fresh : last = l.clock.now)
    (late : final + ms ≤ l.clock.limit) {w : Writer} (opened : w.rule.Open)
    (still : d.permit = false) (free : d.framing.declared? = none) :
    ∃ s' q d' l', Rounds (.idle ms) ⟨last, d, p, { l with writer := w }⟩ chunks s' ∧
      s'.demand (.idle ms) = (.cancelled, q, d', l') ∧ l'.clock.now = final + ms ∧
      Event.answers (s'.turn (.idle ms)) = if 0 < ms then [.cancelled] else [] := by
  induction stalls generalizing d w with
  | @silent last p l silent =>
      let s : Course := ⟨last, d, p, { l with writer := w }⟩
      have quiet : (s.producer.ask (s.link.limited (s.last + ms))).1 = .stuck := by
        cases (Producer.Stalls.silent silent).behind w with
        | silent quiet => exact quiet
      obtain ⟨q, d', l', demanded, moment, answers⟩ := demand_silent (s := s) fresh still quiet late
      exact ⟨s, q, d', l', .none s, demanded, moment, answers⟩
  | @chunk last final p p' l l' b bs asked early rest ih =>
      let s : Course := ⟨last, d, p, { l with writer := w }⟩
      let w₁ := p.note (.chunk b) w
      have limit : l'.clock.limit = l.clock.limit := (Producer.elapses_ask asked).limit
      have inTime : p.askWithin (some (last + ms)) { l with writer := w } =
          (.chunk b, p', false, { l' with writer := w₁ }) :=
        Producer.askBefore_of_ask (Producer.ask_writer w asked).1 nofun nofun early
      have demanded : s.demand (.idle ms) =
          (.chunk b, p', { d with permit := false }, { l' with writer := w₁ }) :=
        demand_of_askWithin still inTime
      have opened₁ : w₁.rule.Open := (Producer.output_note p (.chunk b) w).2 ▸ opened
      have late' : final + ms ≤ l'.clock.limit := limit ▸ late
      by_cases empty : b = []
      · subst empty
        obtain ⟨s', q, d', l₂, rounds, cut⟩ :=
          ih (d := { d with permit := false }) rfl late' opened₁ rfl free
        exact ⟨s', q, d', l₂, .more (.skip demanded) rounds, cut⟩
      · have room : ∀ n, d.framing.declared? = some n → d.written + b.length ≤ n := by
          intro n declared
          cases free.symm.trans declared
        obtain ⟨w₂, delivered, put⟩ := deliver_open (b := b) (d := { d with permit := false })
          (l := { l' with writer := w₁ }) opened₁ room
        have opened₂ : w₂.rule.Open := put.rule ▸ opened₁
        have passed := flush_open (l := { l' with writer := w₂ }) opened₂
        obtain ⟨s', q, d', l₂, rounds, cut⟩ :=
          ih (d := { d with
            head := none
            permit := false
            chunks := d.chunks + 1
            written := d.written + b.length }) (w := w₂.note .flushed) rfl late' opened₂ rfl free
        exact ⟨s', q, d', l₂, .more (.deliver demanded empty delivered passed) rounds, cut⟩

/-- In front of a writer that never waits, a producer that stalls is cut off when the time since its
last chunk is over. The frames of its chunks are on the wire, no end is, and it is not asked again. -/
theorem run_stalls (opened : l.writer.rule.Open) (stalls : p.Stalls ms l.clock.now l chunks final)
    (late : final + ms ≤ l.clock.limit) :
    let d : Delivery := { framing := .chunked }
    ∃ d' l', d.run (.idle ms) p l = (.error (.cancelled true), d', l') ∧
      l'.clock.now = final + ms ∧
      l'.writer.output = l.writer.output ++ Framing.chunked.frames (filled chunks) ∧
      Event.answers (d.history (.idle ms) p l) =
        chunks.map .chunk ++ if 0 < ms then [.cancelled] else [] := by
  intro d
  have flushed := flush_open opened
  obtain ⟨s', q, d₁, l', rounds, demanded, moment, last⟩ :=
    rounds_of_stalls (d := d) (w := l.writer.note .flushed) stalls rfl late opened rfl rfl
  obtain ⟨looped, output, answers⟩ := cut_of_rounds rounds demanded rfl
  obtain ⟨ran, before, told⟩ := run_of_loop rfl flushed looped
  refine ⟨_, l', ran, moment, ?_, ?_⟩
  · rw [← before]
    exact output
  · rw [told, answers, last]

end Delivery

end HttpExchange
