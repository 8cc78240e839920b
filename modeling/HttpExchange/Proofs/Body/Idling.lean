import HttpExchange.Proofs.Body.Cancellation
import HttpExchange.Proofs.Body.Timing

/-!
Deliveries with an idle timeout. The time runs from one answer of the producer to the next, and so
what the writer takes of it in between is not the producer's any more. As long as each answer comes
before the time is over, the timeout makes no difference; where the time is over, the delivery is
cut off, and it does not matter who used it up.
-/

namespace HttpExchange

namespace Delivery

variable {s s' : Course} {p p' : Producer} {d d' : Delivery} {l l' : Link} {b : Bytes}
  {patience : Patience} {pulled chunks : List Bytes} {out : Outcome BodyError Nat} {pull : Pull} {ms : Nat}

namespace Course

/-- A producer that is waited for answers, and less than so long behind a moment. -/
def AnswersWithin (ms moment : Nat) (s : Course) : Prop :=
  ∀ pull p d l, s.demand .endless = (pull, p, d, l) →
    pull ≠ .cancelled ∧ pull ≠ .stuck ∧ l.clock.now < moment + ms

/-- Each time it is asked in a delivery that waits for ever, the producer answers, less than so long
behind a moment that depends on where the delivery is. -/
def Timely (ms : Nat) (since : Course → Nat) (s : Course) : Prop :=
  ∀ pulled s', Rounds .endless s pulled s' → s'.AnswersWithin ms (since s')

variable {since : Course → Nat}

theorem Timely.here (timely : s.Timely ms since) : s.AnswersWithin ms (since s) :=
  timely [] s (.none s)

theorem Timely.behind (timely : s.Timely ms since) (round : Round .endless s b s') :
    s'.Timely ms since := by
  intro pulled s'' rounds
  exact timely (b :: pulled) s'' (.more round rounds)

theorem Timely.of_next (here : s.AnswersWithin ms (since s))
    (later : ∀ s', s.next .endless = some s' → s'.Timely ms since) : s.Timely ms since := by
  intro pulled s' rounds
  cases rounds with
  | none => exact here
  | more first rest => exact later _ (next_of_round first) _ _ rest

end Course

theorem demand_idle (timely : s.AnswersWithin ms s.last)
    (asked : s.demand .endless = (pull, p, d, l)) : s.demand (.idle ms) = (pull, p, d, l) := by
  obtain ⟨own, came, early⟩ := timely pull p d l asked
  have still : s.delivery.permit = false := by
    have uncut := isCancelled_eq_false asked own
    rw [Course.isCancelled, Bool.or_eq_false_iff] at uncut
    exact uncut.1
  rcases demand_cases asked with ⟨cancelled, _, _⟩ | ⟨permit, rfl, answer⟩
  · exact absurd cancelled own
  · have inTime : s.producer.askWithin (some (s.last + ms)) s.link = (pull, p, permit, l) :=
      Producer.askBefore_of_ask answer own came early
    exact demand_of_askWithin still inTime

theorem round_idle (timely : s.AnswersWithin ms s.last) (round : Round .endless s b s') :
    Round (.idle ms) s b s' := by
  cases round with
  | skip asked => exact .skip (demand_idle timely asked)
  | deliver asked some wrote passed => exact .deliver (demand_idle timely asked) some wrote passed

theorem rounds_idle (timely : s.Timely ms Course.last) (rounds : Rounds .endless s pulled s') :
    Rounds (.idle ms) s pulled s' := by
  induction rounds with
  | none s => exact .none s
  | more first rest ih => exact .more (round_idle timely.here first) (ih (timely.behind first))

theorem halt_idle (timely : s.AnswersWithin ms s.last) (halt : Halt .endless s out d l) :
    Halt (.idle ms) s out d l := by
  cases halt with
  | failed asked => exact .failed (demand_idle timely asked)
  | cancelled asked => exact .cancelled (demand_idle timely asked)
  | stuck asked => exact .stuck (demand_idle timely asked)
  | ended asked finished => exact .ended (demand_idle timely asked) finished
  | refused asked some wrote => exact .refused (demand_idle timely asked) some wrote
  | caught asked some wrote => exact .caught (demand_idle timely asked) some wrote
  | unflushed asked some wrote passed => exact .unflushed (demand_idle timely asked) some wrote passed
  | unpassed asked some wrote passed => exact .unpassed (demand_idle timely asked) some wrote passed

theorem loop_idle (timely : s.Timely ms Course.last) : s.loop (.idle ms) = s.loop .endless := by
  rcases looped : s.loop .endless with ⟨out, d, l⟩
  obtain ⟨pulled, s', rounds, halt⟩ := rounds_of_loop looped
  have here : s'.AnswersWithin ms s'.last := timely pulled s' rounds
  rw [loop_of_rounds (rounds_idle timely rounds), loop_of_halt (halt_idle here halt)]

theorem turn_idle (timely : s.AnswersWithin ms s.last) : s.turn (.idle ms) = s.turn .endless := by
  rcases asked : s.demand .endless with ⟨pull, p, d, l⟩
  obtain ⟨own, _, _⟩ := timely pull p d l asked
  have same := demand_idle timely asked
  rw [Course.turn, Course.turn, isCancelled_eq_false asked own, isCancelled_eq_false same own, asked,
    same]

theorem later_idle (timely : s.Timely ms Course.last) : s.later (.idle ms) = s.later .endless := by
  rcases looped : s.loop .endless with ⟨out, d, l⟩
  obtain ⟨pulled, s', rounds, halt⟩ := rounds_of_loop looped
  clear looped
  induction rounds with
  | none s =>
      rw [later_of_halt halt, later_of_halt (halt_idle timely.here halt), turn_idle timely.here]
  | more first rest ih =>
      rw [later_of_round first, later_of_round (round_idle timely.here first),
        turn_idle timely.here, ih (timely.behind first) halt]

/-- In front of a writer that never waits, the producer is asked as soon as it has answered. -/
theorem last_of_round (opened : s.link.writer.rule.Open) (round : Round patience s b s') :
    s'.last = s'.link.clock.now ∧ s'.link.writer.rule.Open := by
  cases round with
  | skip asked => exact ⟨rfl, (demand_spec asked).2.2 ▸ opened⟩
  | @deliver p d d₁ l l₁ l₂ b asked some wrote passed =>
      have opened₁ : l₁.writer.rule.Open := (demand_spec asked).2.2 ▸ opened
      rcases deliver_fits_or d₁ b l₁ with ⟨_, _, _, _, beyond⟩ | ⟨_, fits⟩
      · cases wrote.symm.trans beyond
      · obtain ⟨w, taken, put⟩ := writeAll_open opened₁ (d₁.pending ++ d₁.framing.frame b)
        rw [wrote, taken] at fits
        cases fits
        have opened₂ : w.rule.Open := put.rule ▸ opened₁
        rw [flush_open opened₂] at passed
        cases passed
        exact ⟨rfl, opened₂⟩

theorem timely_of_open (opened : s.link.writer.rule.Open) (fresh : s.last = s.link.clock.now)
    (timely : s.Timely ms (·.link.clock.now)) : s.Timely ms Course.last := by
  intro pulled s' rounds
  induction rounds with
  | none s =>
      rw [fresh]
      exact timely.here
  | more first rest ih =>
      obtain ⟨last, opened'⟩ := last_of_round opened first
      exact ih opened' last (timely.behind first)

theorem isCancelled_of_late (late : s.last + ms ≤ s.link.clock.now) :
    s.isCancelled (.idle ms) = true := by
  have expired : decide (s.last + ms ≤ s.link.clock.now) = true := decide_eq_true late
  rw [Course.isCancelled, show Patience.deadline? s.last (.idle ms) = some (s.last + ms) from rfl,
    Option.any_some, expired, Bool.or_true]

/-- What a delivery behind its head comes to where a demand behind some rounds is cancelled. -/
theorem cut_of_rounds (rounds : Rounds patience s pulled s')
    (asked : s'.demand patience = (.cancelled, p, d, l)) (sent : s.delivery.head = none) :
    s.loop patience = (.error (.cancelled true), d, l) ∧
      l.writer.output = s.link.writer.output ++ s.delivery.framing.frames (filled pulled) ∧
      Event.answers (s.later patience) =
        pulled.map .chunk ++ Event.answers (s'.turn patience) := by
  obtain ⟨⟨permit, state⟩, output, _⟩ := demand_spec asked
  have committed : d.isCommitted = true := by
    rw [state, isCommitted, head_of_rounds rounds sent]
    rfl
  refine ⟨?_, ?_, ?_⟩
  · rw [loop_of_rounds rounds, loop_of_halt (.cancelled asked), committed]
  · exact output.trans (output_of_rounds rounds sent)
  · rw [answers_of_rounds rounds, later_of_halt (.cancelled asked)]

theorem pullScript_prompt {steps rest : List Yield} {permit : Bool}
    (prompt : ∀ step ∈ steps, step.isPrompt = true)
    (eq : Producer.pullScript false steps l = (pull, rest, permit, l')) :
    (pull ≠ .cancelled ∧ pull ≠ .stuck) ∧ (∀ step ∈ rest, step.isPrompt = true) ∧
      permit = false ∧ l'.clock = l.clock := by
  induction steps with
  | nil =>
      cases eq
      exact ⟨⟨nofun, nofun⟩, prompt, rfl, rfl⟩
  | cons step steps ih =>
      obtain ⟨here, later⟩ := List.forall_mem_cons.mp prompt
      cases step with
      | chunk b =>
          cases eq
          exact ⟨⟨nofun, nofun⟩, later, rfl, rfl⟩
      | giveWay => exact ih later eq
      | raise | panic | pause | «until» | silence | cancel => cases here

theorem demand_prompt {steps : List Yield} (prompt : ∀ step ∈ steps, step.isPrompt = true)
    (scripted : s.producer = .script steps) (still : s.delivery.permit = false)
    (asked : s.demand .endless = (pull, p, d, l)) :
    (pull ≠ .cancelled ∧ pull ≠ .stuck) ∧ l.clock = s.link.clock ∧ d.permit = false ∧
      ∃ rest, p = .script rest ∧ ∀ step ∈ rest, step.isPrompt = true := by
  rcases answer : s.producer.ask s.link with ⟨pull₁, p₁, permit, l₁⟩
  have demanded : s.demand .endless = (pull₁, p₁, { s.delivery with permit }, l₁) :=
    demand_of_askWithin still answer
  cases demanded.symm.trans asked
  rw [scripted] at answer
  obtain ⟨rest, rfl, pulled⟩ := Producer.ask_script answer
  obtain ⟨own, later, none, clock⟩ := pullScript_prompt prompt pulled
  exact ⟨own, clock, none, rest, rfl, later⟩

/-- A script that never waits answers at once, each time it is asked. -/
theorem timely_prompt {steps : List Yield} (prompt : ∀ step ∈ steps, step.isPrompt = true)
    (some : 0 < ms) (scripted : s.producer = .script steps) (still : s.delivery.permit = false) :
    s.Timely ms (·.link.clock.now) := by
  intro pulled s' rounds
  induction rounds generalizing steps with
  | none s =>
      intro pull p d l asked
      obtain ⟨own, clock, _, _⟩ := demand_prompt prompt scripted still asked
      refine ⟨own.1, own.2, ?_⟩
      rw [clock]
      exact Nat.lt_add_of_pos_right some
  | more first rest ih =>
      cases first with
      | skip asked =>
          obtain ⟨_, _, none, steps', scripted', prompt'⟩ := demand_prompt prompt scripted still asked
          exact ih prompt' scripted' none
      | deliver asked some wrote passed =>
          obtain ⟨_, _, none, steps', scripted', prompt'⟩ := demand_prompt prompt scripted still asked
          refine ih prompt' scripted' ?_
          rw [(deliver_ok wrote).1]
          exact none

theorem run_of_timely
    (timely : ∀ l₁, l.flush = (.ok (), l₁) →
      Course.Timely ms Course.last ⟨l.clock.now, d, p, l₁⟩) :
    d.run (.idle ms) p l = d.run .endless p l ∧
      d.history (.idle ms) p l = d.history .endless p l := by
  unfold run history
  cases stage : d.stage with
  | failed | finished => exact ⟨rfl, rfl⟩
  | ready =>
      rcases flushed : l.flush with ⟨_ | e | _, l₁⟩
      · have same : d.loop (.idle ms) l.clock.now p l₁ = d.loop .endless l.clock.now p l₁ :=
          loop_idle (timely l₁ flushed)
        simp only [start, flushed, same, later_idle (timely l₁ flushed), and_self]
      · simp only [start, flushed, and_self]
      · simp only [start, flushed, and_self]

/-- Where the time between two answers is over, a delivery behind its head is cut off behind the
chunks so far. -/
theorem run_of_late {l₁ : Link} (ready : d.stage = .ready) (sent : d.head = none)
    (flushed : l.flush = (.ok (), l₁)) (rounds : Rounds (.idle ms) ⟨l.clock.now, d, p, l₁⟩ pulled s')
    (late : s'.last + ms ≤ s'.link.clock.now) :
    ∃ d' l', d.run (.idle ms) p l = (.error (.cancelled true), d', l') ∧
      l'.writer.output = l.writer.output ++ d.framing.frames (filled pulled) ∧
      Event.answers (d.history (.idle ms) p l) = pulled.map .chunk := by
  have cancelled := isCancelled_of_late late
  obtain ⟨looped, output, answers⟩ := cut_of_rounds rounds (demand_of_isCancelled cancelled) sent
  obtain ⟨ran, before, told⟩ := run_of_loop ready flushed looped
  refine ⟨_, _, ran, ?_, ?_⟩
  · rw [← before]
    exact output
  · rw [told, answers, Course.turn, cancelled]
    exact List.append_nil _

/-- An idle timeout counts the time between two answers of the producer, the writer's share
included. If that is always less than the timeout, the timeout makes no difference: the outcome, all
that is written and all that happens are the same as without one. In front of a writer that never
waits it is enough that the producer always answers in time. But once the writer has used the time
up, the producer is not asked any more, however quick it is: the delivery is cut off behind the
chunks that it gave. -/
theorem run_idle (d : Delivery) (ms : Nat) (p : Producer) (l : Link) :
    ((∀ l₁, l.flush = (.ok (), l₁) → Course.Timely ms Course.last ⟨l.clock.now, d, p, l₁⟩) →
      d.run (.idle ms) p l = d.run .endless p l ∧
        d.history (.idle ms) p l = d.history .endless p l) ∧
    (l.writer.rule.Open → (∀ l₁, l.flush = (.ok (), l₁) →
        Course.Timely ms (·.link.clock.now) ⟨l.clock.now, d, p, l₁⟩) →
      d.run (.idle ms) p l = d.run .endless p l ∧
        d.history (.idle ms) p l = d.history .endless p l) ∧
    ∀ l₁ pulled s', d.stage = .ready → d.head = none → l.flush = (.ok (), l₁) →
      Rounds (.idle ms) ⟨l.clock.now, d, p, l₁⟩ pulled s' → s'.last + ms ≤ s'.link.clock.now →
      ∃ d' l', d.run (.idle ms) p l = (.error (.cancelled true), d', l') ∧
        l'.writer.output = l.writer.output ++ d.framing.frames (filled pulled) ∧
        Event.answers (d.history (.idle ms) p l) = pulled.map .chunk := by
  refine ⟨run_of_timely, ?_, ?_⟩
  · intro opened timely
    apply run_of_timely
    intro l₁ flushed
    have passed := flushed.symm.trans (flush_open opened)
    cases passed
    exact timely_of_open opened rfl (timely _ flushed)
  · intro l₁ pulled s' ready sent flushed rounds late
    exact run_of_late ready sent flushed rounds late

def sluggish (position ms : Nat) : Link where
  clock := { limit := 1000 }
  reader := { arrivals := [], capacity := 1 }
  writer := { rule := { stall := some (position, ms) } }

/-- A producer that answers at once, each time it is asked, is cut off all the same where the writer
takes longer than the timeout, although nothing that is written fails. -/
theorem idle_cuts_prompt :
    let d : Delivery := { framing := .chunked }
    let p : Producer := .script [.chunk [65], .chunk [66]]
    let l := sluggish 6 80
    l.writer.rule.Willing ∧
      (∀ l₁, l.flush = (.ok (), l₁) → Course.Timely 50 (·.link.clock.now) ⟨l.clock.now, d, p, l₁⟩) ∧
      (d.run .endless p l).1 = .ok 2 ∧ (d.run (.idle 50) p l).1 = .error (.cancelled true) ∧
      (d.run .endless p l).2.2.writer.output =
        (d.run (.idle 50) p l).2.2.writer.output ++ Chunk.terminator := by
  refine ⟨⟨nofun, rfl, rfl, rfl, nofun, nofun⟩, ?_, ?_, ?_, ?_⟩
  · intro l₁ _
    exact timely_prompt (by decide) (by decide) rfl rfl
  · decide +kernel
  · decide +kernel
  · decide +kernel

/-- Four milliseconds for a writer and three for the producer leave a timeout of ten as if it were
not there, and so does a writer that never waits. Eighty for the writer are more than a timeout of
fifty allows between two answers. -/
theorem run_idle_sluggish :
    let d : Delivery := { framing := .chunked }
    let slow : Producer := .script [.pause 3, .chunk [65]]
    let prompt : Producer := .script [.chunk [65], .chunk [66]]
    let quick : Link := { sluggish 0 0 with writer := {} }
    (d.run (.idle 10) slow (sluggish 0 4) = d.run .endless slow (sluggish 0 4) ∧
        d.history (.idle 10) slow (sluggish 0 4) = d.history .endless slow (sluggish 0 4)) ∧
      (d.run (.idle 50) prompt quick = d.run .endless prompt quick ∧
        d.history (.idle 50) prompt quick = d.history .endless prompt quick) ∧
      ∃ d' l', d.run (.idle 50) prompt (sluggish 6 80) = (.error (.cancelled true), d', l') ∧
        l'.writer.output = Framing.chunked.frames [[65], [66]] ∧
        Event.answers (d.history (.idle 50) prompt (sluggish 6 80)) =
          [.chunk [65], .chunk [66]] := by
  intro d slow prompt quick
  refine ⟨?_, ?_, ?_⟩
  · apply (run_idle d 10 slow (sluggish 0 4)).1
    intro l₁ flushed
    obtain rfl : (sluggish 0 4).flush.2 = l₁ := congrArg Prod.snd flushed
    let s₀ : Course := ⟨0, d, slow, (sluggish 0 4).flush.2⟩
    let s₁ : Course := (s₀.next .endless).getD s₀
    have first : s₀.AnswersWithin 10 s₀.last := by
      intro pull p d l asked
      cases asked
      exact ⟨nofun, nofun, by decide⟩
    have second : s₁.AnswersWithin 10 s₁.last := by
      intro pull p d l asked
      have ended : (s₁.demand .endless).1 = .ended := by decide +kernel
      have early : (s₁.demand .endless).2.2.2.clock.now < s₁.last + 10 := by decide +kernel
      rw [asked] at ended early
      cases ended
      exact ⟨nofun, nofun, early⟩
    have halted : (s₁.next .endless).isNone = true := by decide +kernel
    have timely : s₀.Timely 10 Course.last := by
      refine .of_next first fun s' following => ?_
      obtain rfl : s₁ = s' := congrArg (Option.getD · s₀) following
      refine .of_next second fun s'' more => ?_
      rw [more] at halted
      cases halted
    exact timely
  · apply (run_idle d 50 prompt quick).2.1 WriteRule.open_default
    intro l₁ _
    exact timely_prompt (by decide) (by decide) rfl rfl
  · let s₀ : Course := ⟨0, d, prompt, (sluggish 6 80).flush.2⟩
    let sent (s : Course) (b : Bytes) : Outcome BodyError Unit × Delivery × Link :=
      (s.demand (.idle 50)).2.2.1.deliver b (s.demand (.idle 50)).2.2.2
    let behind (s : Course) (b : Bytes) : Course :=
      ⟨(s.demand (.idle 50)).2.2.2.clock.now, (sent s b).2.1, (s.demand (.idle 50)).2.1,
        (sent s b).2.2.flush.2⟩
    have round : ∀ s b, (s.demand (.idle 50)).1 = .chunk b → b ≠ [] → (sent s b).1 = .ok () →
        (sent s b).2.2.flush.1 = .ok () → Round (.idle 50) s b (behind s b) := by
      intro s b asked some wrote passed
      exact .deliver (Prod.ext asked rfl) some (Prod.ext wrote rfl) (Prod.ext passed rfl)
    let s₁ : Course := behind s₀ [65]
    let s₂ : Course := behind s₁ [66]
    have first : Round (.idle 50) s₀ [65] s₁ :=
      round s₀ [65] rfl (by decide) (by decide +kernel) (by decide +kernel)
    have second : Round (.idle 50) s₁ [66] s₂ :=
      round s₁ [66] (by decide +kernel) (by decide) (by decide +kernel) (by decide +kernel)
    have late : s₂.last + 50 ≤ s₂.link.clock.now := by decide +kernel
    exact (run_idle d 50 prompt (sluggish 6 80)).2.2 _ [[65], [66]] s₂ rfl rfl rfl
      (.more first (.more second (.none s₂))) late

end Delivery

end HttpExchange
