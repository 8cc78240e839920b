import HttpExchange.Proofs.Body.InFlight
import HttpExchange.Proofs.Body.Reading
import HttpExchange.Proofs.Body.Settling

/-!
A producer whose answers do not depend on when it is asked. What it gives is delivered in whole
frames, however long it and the writer take: given enough time each chunk makes a round, unless the
delivery is cut off or the writer fails.
-/

namespace HttpExchange

namespace Producer

/-- Whenever it is asked, the producer answers so at some moment, and not before. -/
def Answers (p : Producer) (l : Link) (pull : Pull) (p' : Producer) (l' : Link) : Prop :=
  ∀ clock : Clock, ∃ (moment : Nat) (clock' : Clock), ∀ limit : Nat,
    (moment ≤ limit → p.ask { l with clock := clock.limited limit } =
      (pull, p', false, { l' with clock := clock'.limited limit })) ∧
    (limit < moment → (p.ask { l with clock := clock.limited limit }).1 = .stuck)

/-- Asked again and again, the producer answers with these chunks, and is then another one. -/
inductive Gives : Producer → Link → List Bytes → Producer → Link → Prop where
  | none (p : Producer) (l : Link) : Gives p l [] p l
  | chunk {p p' q : Producer} {l l' m : Link} {b : Bytes} {bs : List Bytes}
      (answers : p.Answers l (.chunk b) p' l') (rest : Gives p' l' bs q m) :
      Gives p l (b :: bs) q m

variable {p p' q : Producer} {l l' m : Link} {chunks : List Bytes} {pull : Pull}

theorem Answers.behind (answers : p.Answers l pull p' l') (clock : Clock) (w : Writer) :
    p.Answers { l with clock, writer := w } pull p' { l' with writer := p.note pull w } := by
  intro asking
  obtain ⟨moment, answered, answer⟩ := answers asking
  refine ⟨moment, answered, fun limit => ⟨?_, ?_⟩⟩
  · intro late
    exact (ask_writer w ((answer limit).1 late)).1
  · intro early
    rcases asked : p.ask { l with clock := asking.limited limit } with ⟨other, p₁, permit, l₁⟩
    have stuck := (answer limit).2 early
    rw [asked] at stuck
    exact (congrArg Prod.fst (ask_writer w asked).1).trans stuck

/-- Neither the clock nor the writer makes a difference to an answer. -/
theorem Answers.congr {m : Link} (answers : p.Answers l pull p' l') (still : l.Still m) :
    ∃ m', p.Answers m pull p' m' ∧ l'.Still m' := by
  obtain ⟨clock, _, w, _⟩ := m
  obtain ⟨rfl, rfl⟩ := still
  exact ⟨_, answers.behind clock w, ⟨rfl, rfl⟩⟩

theorem Gives.congr (gives : p.Gives l chunks q m) (still : l.Still l') :
    ∃ m', p.Gives l' chunks q m' ∧ m.Still m' := by
  induction gives generalizing l' with
  | none p l => exact ⟨l', .none p l', still⟩
  | chunk answers rest ih =>
      obtain ⟨l₁, answers₁, still₁⟩ := answers.congr still
      obtain ⟨m', gives, still'⟩ := ih still₁
      exact ⟨m', .chunk answers₁ gives, still'⟩

/-- An answer within a deadline is the producer's own, unless the deadline comes first. -/
theorem askWithin_of_answers (deadline : Option Nat) (answers : p.Answers l pull p' l')
    (came : pull ≠ .stuck) :
    ∃ enough : Nat,
      (deadline ≠ none ∧ ∀ limit, enough ≤ limit →
        (p.askWithin deadline (l.limited limit)).1 = .cancelled) ∨
      ∃ clock' : Clock, ∀ limit, enough ≤ limit → p.askWithin deadline (l.limited limit) =
        (pull, p', false, { l' with clock := clock'.limited limit }) := by
  obtain ⟨moment, clock', answer⟩ := answers l.clock
  cases deadline with
  | none => exact ⟨moment, .inr ⟨clock', fun limit late => (answer limit).1 late⟩⟩
  | some m =>
      by_cases past : m ≤ l.clock.now
      · refine ⟨0, .inl ⟨Option.some_ne_none m, fun limit _ => ?_⟩⟩
        rw [askWithin, askBefore, if_pos (show m ≤ (l.limited limit).clock.now from past)]
      · have open_ : ∀ limit, ¬ m ≤ (l.limited limit).clock.now := fun _ => past
        by_cases early : m < moment
        · refine ⟨m, .inl ⟨Option.some_ne_none m, fun limit late => ?_⟩⟩
          have short : min limit m < moment := by omega
          have stuck : (p.ask { l.limited limit with
              clock := (l.limited limit).clock.within m }).1 = .stuck :=
            (answer (min limit m)).2 short
          rw [askWithin, askBefore, if_neg (open_ limit)]
          rcases asked : p.ask { l.limited limit with
            clock := (l.limited limit).clock.within m } with ⟨other, p₁, permit, l₁⟩
          rw [asked] at stuck
          cases stuck
          exact congrArg Prod.fst (if_pos (show m ≤ (l.limited limit).clock.limit from late))
        · refine ⟨moment, .inr ⟨{ l.clock with now := clock'.now }, fun limit late => ?_⟩⟩
          have inTime : moment ≤ min limit m := by omega
          have asked : p.ask { l.limited limit with clock := (l.limited limit).clock.within m } =
              (pull, p', false, { l' with clock := clock'.limited (min limit m) }) :=
            (answer (min limit m)).1 inTime
          rw [askWithin, askBefore, if_neg (open_ limit), asked]
          cases pull with
          | stuck => exact absurd rfl came
          | chunk b | failed cause | ended | cancelled => rfl

end Producer

open Delivery (filled filled_append filled_cons_of_ne_nil)

namespace Framing

def sends (f : Framing) (chunks : List Bytes) : List Bytes := (filled chunks).map fun b => f.frame b

theorem flatten_sends (f : Framing) (chunks : List Bytes) :
    (f.sends chunks).flatten = f.frames (filled chunks) := rfl

theorem sends_cons (f : Framing) (b : Bytes) (chunks : List Bytes) :
    f.sends (b :: chunks) = f.sends [b] ++ f.sends chunks := by
  rw [sends, sends, sends, ← List.map_append, ← filled_append]
  rfl

theorem sends_singleton (f : Framing) {b : Bytes} (some : b ≠ []) : f.sends [b] = [f.frame b] := by
  rw [sends, filled_cons_of_ne_nil some]
  rfl

end Framing

namespace Delivery

variable {patience : Patience} {s s' : Course} {p p' q : Producer} {d d' : Delivery}
  {l l' m : Link} {pull : Pull} {chunks pulled : List Bytes}

def Event.answers (events : List Event) : List Pull :=
  events.filterMap fun e => match e with
    | .pull _ answer _ => some answer
    | _ => none

theorem Event.answers_append (first second : List Event) :
    answers (first ++ second) = answers first ++ answers second := List.filterMap_append

theorem Event.answers_pull (moment : Nat) (answer : Pull) (permit : Bool) (events : List Event) :
    answers (.pull moment answer permit :: events) = answer :: answers events := rfl

theorem Event.Quiet.answers {events : List Event} (quiet : Quiet events) : answers events = [] := by
  rw [Event.answers, List.filterMap_eq_nil_iff]
  intro e member
  cases e with
  | pull moment answer permit => cases quiet _ member
  | wrote b | unwritten | flush out => rfl

theorem answers_of_rounds (rounds : Rounds patience s pulled s') :
    Event.answers (s.later patience) =
      pulled.map .chunk ++ Event.answers (s'.later patience) := by
  induction rounds with
  | none s => rfl
  | more first rest ih =>
      rw [later_of_round first, Event.answers_append, ih, List.map_cons, List.cons_append]
      cases first with
      | skip asked =>
          rw [turn_chunk asked]
          rfl
      | deliver asked some wrote passed =>
          obtain ⟨fits, sent, _⟩ := sent_of_deliver wrote passed
          rw [turn_sending asked some fits, Event.answers_pull,
            (sends_of_send false sent).1.quiet.answers]
          rfl

theorem demand_of_answers (patience : Patience)
    (answers : s.producer.Answers s.link pull p' l') (came : pull ≠ .stuck)
    (still : s.delivery.permit = false) :
    ∃ enough : Nat,
      (patience ≠ .endless ∧ ∀ limit, enough ≤ limit →
        ((s.limited limit).demand patience).1 = .cancelled) ∨
      ∃ clock : Clock, ∀ limit, enough ≤ limit → (s.limited limit).demand patience =
        (pull, p', { s.delivery with permit := false },
          { l' with clock := clock.limited limit }) := by
  obtain ⟨enough, ⟨timed, cancelled⟩ | ⟨clock, answer⟩⟩ :=
    Producer.askWithin_of_answers (patience.deadline? s.last) answers came
  · refine ⟨enough, .inl ⟨fun endless => timed ?_, fun limit late => ?_⟩⟩
    · rw [endless]
      rfl
    · rcases asked : s.producer.askWithin (patience.deadline? s.last) (s.link.limited limit) with
        ⟨other, p₁, permit, l₁⟩
      have none := cancelled limit late
      rw [asked] at none
      exact (congrArg Prod.fst (demand_of_askWithin still asked)).trans none
  · exact ⟨enough, .inr ⟨clock, fun limit late => demand_of_askWithin still (answer limit late)⟩⟩

/-- A delivery that is cut off for want of an answer has its head on the wire. -/
theorem loop_of_cancelled (sent : s.delivery.head = none)
    (cancelled : (s.demand patience).1 = .cancelled) :
    ∃ d l, s.loop patience = (.error (.cancelled true), d, l) := by
  rcases asked : s.demand patience with ⟨pull, p, d, l⟩
  rw [asked] at cancelled
  cases cancelled
  obtain ⟨⟨permit, state⟩, _, _⟩ := demand_spec asked
  have committed : d.isCommitted = true := by
    rw [state, isCommitted, sent]
    rfl
  have looped := loop_of_halt (.cancelled asked)
  rw [committed] at looped
  exact ⟨d, l, looped⟩

/-- The delivery can take any number of chunks: its head is on the wire, no length is announced, no
cancellation is asked for, and no wait of the writer is without an end. -/
structure Course.Flows (s : Course) : Prop where
  patient : s.link.writer.rule.Patient
  still : s.delivery.permit = false
  free : s.delivery.framing.declared? = none
  sent : s.delivery.head = none

/-- The writer failed among these sends, and a beginning of them is on the wire. -/
structure Interrupted (w : Writer) (sends : List Bytes)
    (ran : Outcome BodyError Nat × Delivery × Link) : Prop where
  fails : w.FailsIn sends
  out : ∃ fault, ran.1 = .error (.wire (.io fault))
  output : ∃ part, part <+: sends.flatten ∧ ran.2.2.writer.output = w.output ++ part

namespace Interrupted

variable {w w' : Writer} {sends more : List Bytes}
  {ran : Outcome BodyError Nat × Delivery × Link}

theorem mono (interrupted : Interrupted w sends ran) (part : sends <+: more) :
    Interrupted w more ran := by
  obtain ⟨fails, out, wire, beginning, output⟩ := interrupted
  exact ⟨fails.mono part, out, wire, beginning.trans (Bytes.flatten_prefix part), output⟩

theorem behind (carried : w.Carried w' sends) (interrupted : Interrupted w' more ran) :
    Interrupted w (sends ++ more) ran := by
  obtain ⟨fails, out, part, beginning, output⟩ := interrupted
  refine ⟨carried.failsIn_iff.mpr fails, out, sends.flatten ++ part, ?_, ?_⟩
  · rw [List.flatten_append, List.prefix_append_right_inj]
    exact beginning
  · rw [output, carried.output, List.append_assoc]

theorem not_willing (interrupted : Interrupted w sends ran) : ¬ w.rule.Willing := by
  intro willing
  exact Writer.not_fails_of_willing willing _ _ interrupted.fails

end Interrupted

theorem interrupted_of_send {b : Bytes} {e : WireError} (sent : l.send b = (.error e, l'))
    (d : Delivery) : Interrupted l.writer [b] (.error (.wire e), d, l') := by
  obtain ⟨part, put, _, io⟩ := put_send sent
  obtain ⟨fault, rfl⟩ := io e rfl
  refine ⟨failsIn_of_send sent, ⟨fault, rfl⟩, part, ?_, put.output⟩
  rw [List.flatten_singleton]
  exact put.beginning

theorem head_of_rounds (rounds : Rounds patience s chunks s') (sent : s.delivery.head = none) :
    s'.delivery.head = none := by
  rw [(sent_of_rounds rounds).head, sent, ite_self]

/-- What a delivery has written behind its head by the time that some chunks are through. -/
theorem output_of_rounds (rounds : Rounds patience s chunks s') (sent : s.delivery.head = none) :
    s'.link.writer.output =
      s.link.writer.output ++ s.delivery.framing.frames (filled chunks) := by
  have written := (sent_of_rounds rounds).output
  rwa [pending_of_head_none (head_of_rounds rounds sent), pending_of_head_none sent,
    List.append_nil, List.nil_append] at written

theorem carried_of_demand (asked : s.demand patience = (pull, p, d, l)) :
    s.link.writer.Carried l.writer [] := by
  refine ⟨?_, ?_⟩
  · rw [demand_writer asked]
    unfold Producer.note
    split
    · exact Writer.passed_note _ nofun
    · exact Writer.passed_note _ nofun
    · exact .refl _
  · rw [(demand_spec asked).2.1, List.flatten_nil, List.append_nil]

theorem carried_of_round {b : Bytes} (round : Round patience s b s')
    (sent : s.delivery.head = none) :
    s.link.writer.Carried s'.link.writer (s.delivery.framing.sends [b]) := by
  cases round with
  | skip asked => exact carried_of_demand asked
  | @deliver p d d₁ l l₁ l₂ b asked some wrote passed =>
      obtain ⟨⟨permit, state⟩, _, _⟩ := demand_spec asked
      obtain ⟨_, sending, _⟩ := sent_of_deliver wrote passed
      have none : d₁.head = none := by
        rw [state]
        exact sent
      rw [pending_of_head_none none, List.nil_append, state] at sending
      rw [Framing.sends_singleton _ some]
      exact (carried_of_demand asked).trans (carried_of_send sending)

theorem carried_of_rounds (rounds : Rounds patience s chunks s') (sent : s.delivery.head = none) :
    s.link.writer.Carried s'.link.writer (s.delivery.framing.sends chunks) := by
  induction rounds with
  | none s => exact .refl _
  | @more s s₁ s' b bs first rest ih =>
      have later := ih (head_of_rounds (.more first (.none _)) sent)
      rw [(sent_of_round first).framing] at later
      rw [Framing.sends_cons]
      exact (carried_of_round first sent).trans later

def Course.sent (s : Course) (b : Bytes) (l : Link) : Course where
  last := s.link.clock.now
  delivery := { s.delivery with
    head := none
    chunks := s.delivery.chunks + 1
    written := s.delivery.written + b.length }
  producer := s.producer
  link := l

theorem round_of_sends (patience : Patience) {b : Bytes} {enough : Nat} (some : b ≠ [])
    (fits : s.delivery.overruns b = false)
    (sends : ∀ limit, enough ≤ limit →
      (s.link.limited limit).send (s.delivery.pending ++ s.delivery.framing.frame b) =
        (.ok (), l.limited limit)) :
    s.link.Still l ∧ l.writer.rule = s.link.writer.rule ∧
      ∀ limit, enough ≤ limit → ∀ before : Course,
        before.demand patience = (.chunk b, s.producer, s.delivery, s.link.limited limit) →
        Round patience before b ((s.sent b l).limited limit) := by
  obtain ⟨_, put, _⟩ := put_send (sends enough (Nat.le_refl _))
  refine ⟨⟨put.body, put.reader⟩, put.rule, fun limit late before asked => ?_⟩
  have round := round_of_sent asked some fits (sends limit late)
  exact round

/-- A chunk makes a round, or the writer fails, once there is enough time. -/
theorem round_of_chunk (patience : Patience) (b : Bytes) (flows : s.Flows) :
    ∃ enough : Nat,
      (∀ limit, enough ≤ limit → ∀ before : Course,
        before.demand patience = (.chunk b, s.producer, s.delivery, s.link.limited limit) →
        Interrupted s.link.writer (s.delivery.framing.sends [b]) (before.loop patience)) ∨
      ∃ s' : Course, s'.producer = s.producer ∧ s.link.Still s'.link ∧
        s'.delivery.framing = s.delivery.framing ∧ s'.Flows ∧
        ∀ limit, enough ≤ limit → ∀ before : Course,
          before.demand patience = (.chunk b, s.producer, s.delivery, s.link.limited limit) →
          Round patience before b (s'.limited limit) := by
  by_cases empty : b = []
  · subst empty
    refine ⟨0, .inr ⟨{ s with last := s.link.clock.now }, rfl, .refl _, rfl,
      ⟨flows.patient, flows.still, flows.free, flows.sent⟩, ?_⟩⟩
    intro limit _ before asked
    exact .skip asked
  · have fits : s.delivery.overruns b = false := by
      rw [overruns, flows.free]
      rfl
    obtain ⟨enough, out, l, came, sends⟩ :=
      send_patient flows.patient (s.delivery.pending ++ s.delivery.framing.frame b)
    cases out with
    | stuck => exact absurd rfl came
    | error e =>
        refine ⟨enough, .inl fun limit late before asked => ?_⟩
        obtain ⟨d, looped⟩ := loop_of_unsent asked empty fits (sends limit late)
        have interrupted := interrupted_of_send (sends limit late) d
        rw [pending_of_head_none flows.sent, List.nil_append] at interrupted
        rw [looped, Framing.sends_singleton _ empty]
        exact interrupted
    | ok =>
        obtain ⟨still, rule, round⟩ := round_of_sends patience empty fits sends
        exact ⟨enough, .inr ⟨s.sent b l, rfl, still, rfl,
          ⟨rule ▸ flows.patient, flows.still, flows.free, rfl⟩, round⟩⟩

/-- Unless it is cut off or the writer fails, a delivery takes a chunk that its producer answers with,
once there is enough time. -/
theorem round_of_answers (patience : Patience) {b : Bytes}
    (answers : s.producer.Answers s.link (.chunk b) p' l') (flows : s.Flows) :
    ∃ enough : Nat,
      (patience ≠ .endless ∧ ∀ limit, enough ≤ limit →
        ∃ d l, (s.limited limit).loop patience = (.error (.cancelled true), d, l)) ∨
      (∀ limit, enough ≤ limit → Interrupted s.link.writer (s.delivery.framing.sends [b])
        ((s.limited limit).loop patience)) ∨
      ∃ s' : Course, s'.producer = p' ∧ l'.Still s'.link ∧
        s'.delivery.framing = s.delivery.framing ∧ s'.Flows ∧
        ∀ limit, enough ≤ limit → Round patience (s.limited limit) b (s'.limited limit) := by
  obtain ⟨enough, ⟨timed, cancelled⟩ | ⟨clock, answer⟩⟩ :=
    demand_of_answers patience answers Pull.noConfusion flows.still
  · refine ⟨enough, .inl ⟨timed, fun limit late => ?_⟩⟩
    exact loop_of_cancelled flows.sent (cancelled limit late)
  let asked : Course := ⟨s.last, { s.delivery with permit := false }, p', { l' with clock }⟩
  have demanded := answer enough (Nat.le_refl _)
  have rule : asked.link.writer.rule = s.link.writer.rule := (demand_spec demanded).2.2
  have carried := carried_of_demand demanded
  obtain ⟨enough', fails | ⟨s', producer, still, framing, flows', round⟩⟩ :=
    round_of_chunk patience b (s := asked) ⟨rule ▸ flows.patient, rfl, flows.free, flows.sent⟩
  · refine ⟨max enough enough', .inr (.inl fun limit late => ?_)⟩
    exact (fails limit (by omega) _ (answer limit (by omega))).behind carried
  · refine ⟨max enough enough', .inr (.inr ⟨s', producer, ⟨still.body, still.reader⟩, framing,
      flows', fun limit late => ?_⟩)⟩
    exact round limit (by omega) _ (answer limit (by omega))

/-- Unless it is cut off or the writer fails, a delivery takes all chunks that its producer gives,
once there is enough time. -/
theorem rounds_of_gives (patience : Patience) (gives : p.Gives l chunks q m) (s : Course)
    (producer : s.producer = p) (still : l.Still s.link) (flows : s.Flows) :
    ∃ enough : Nat,
      (patience ≠ .endless ∧ ∀ limit, enough ≤ limit →
        ∃ d l, (s.limited limit).loop patience = (.error (.cancelled true), d, l)) ∨
      (∀ limit, enough ≤ limit → Interrupted s.link.writer (s.delivery.framing.sends chunks)
        ((s.limited limit).loop patience)) ∨
      ∃ s' : Course, s'.producer = q ∧ m.Still s'.link ∧ s'.Flows ∧
        ∀ limit, enough ≤ limit → Rounds patience (s.limited limit) chunks (s'.limited limit) := by
  induction gives generalizing s with
  | none => exact ⟨0, .inr (.inr ⟨s, producer, still, flows, fun _ _ => .none _⟩)⟩
  | @chunk p p' q l l' m b bs answers rest ih =>
      subst producer
      -- the rounds before have moved the clock and the writer, which the producer does not look at
      obtain ⟨l₁, answers₁, still₁⟩ := answers.congr still
      obtain ⟨enough, cut | fails | ⟨s₁, producer₁, still₂, framing, flows₁, round⟩⟩ :=
        round_of_answers patience answers₁ flows
      · exact ⟨enough, .inl cut⟩
      · refine ⟨enough, .inr (.inl fun limit late => (fails limit late).mono ?_)⟩
        rw [Framing.sends_cons _ b bs]
        exact List.prefix_append _ _
      have carried := carried_of_round (round enough (Nat.le_refl _)) flows.sent
      obtain ⟨enough', ⟨timed, cut⟩ | fails | ⟨s', producer', still', flows', rounds⟩⟩ :=
        ih s₁ producer₁ (still₁.trans still₂) flows₁
      · refine ⟨max enough enough', .inl ⟨timed, fun limit late => ?_⟩⟩
        rw [loop_of_round (round limit (by omega))]
        exact cut limit (by omega)
      · refine ⟨max enough enough', .inr (.inl fun limit late => ?_)⟩
        have later := fails limit (by omega)
        rw [framing] at later
        rw [loop_of_round (round limit (by omega)), Framing.sends_cons]
        exact later.behind carried
      · refine ⟨max enough enough', .inr (.inr ⟨s', producer', still', flows', ?_⟩)⟩
        intro limit late
        exact .more (round limit (by omega)) (rounds limit (by omega))

/-- Where the producer comes to its end, the end is announced or the writer fails, once there is
enough time. -/
theorem loop_of_ended (ends : s.producer.Answers s.link .ended q m) (flows : s.Flows) :
    ∃ enough : Nat,
      (∀ limit, enough ≤ limit →
        Interrupted s.link.writer [s.delivery.framing.terminator]
          ((s.limited limit).loop .endless)) ∨
      ∃ (d : Delivery) (l : Link), m.Still l ∧
        s.link.writer.Carried l.writer [s.delivery.framing.terminator] ∧
        ∀ limit, enough ≤ limit →
          (s.limited limit).loop .endless = (.ok s.delivery.chunks, d, l.limited limit) := by
  obtain ⟨enough, ⟨timed, _⟩ | ⟨clock, answer⟩⟩ :=
    demand_of_answers .endless ends Pull.noConfusion flows.still
  · exact absurd rfl timed
  let d : Delivery := { s.delivery with permit := false }
  let l : Link := { m with clock }
  have demanded := answer enough (Nat.le_refl _)
  have rule : l.writer.rule = s.link.writer.rule := (demand_spec demanded).2.2
  have carried := carried_of_demand demanded
  obtain ⟨enough', out, l', came, sends⟩ :=
    send_patient (l := l) (rule ▸ flows.patient) (d.pending ++ d.framing.terminator)
  -- the head is on the wire already, so that only the end is left to be sent
  have bare : d.pending ++ d.framing.terminator = s.delivery.framing.terminator := by
    rw [pending_of_head_none (show d.head = none from flows.sent), List.nil_append]
  have looped : ∀ limit, max enough enough' ≤ limit → (s.limited limit).loop .endless =
      ((out.mapError .wire).map fun _ => s.delivery.chunks, { d with head := none },
        l'.limited limit) := by
    intro limit late
    rcases finish_reaches_or d (l.limited limit) with
      ⟨_, n, declared, _⟩ | ⟨_, out', l₂, sent, same⟩
    · cases flows.free.symm.trans declared
    · cases (sends limit (by omega)).symm.trans sent
      exact loop_of_halt (.ended (answer limit (by omega)) same)
  rw [bare] at sends
  refine ⟨max enough enough', ?_⟩
  cases out with
  | stuck => exact absurd rfl came
  | error e =>
      refine .inl fun limit late => ?_
      rw [looped limit late]
      exact (interrupted_of_send (sends limit (by omega)) _).behind carried
  | ok =>
      have sent := sends enough' (Nat.le_refl _)
      obtain ⟨_, put, _⟩ := put_send sent
      have ended := carried_of_send sent
      exact .inr ⟨_, l', ⟨put.body, put.reader⟩, carried.trans ended, looped⟩

theorem flush_of_patient (patient : l.writer.rule.Patient) :
    ∃ enough : Nat,
      (∀ limit, enough ≤ limit → ∀ (d : Delivery) (patience : Patience) (p : Producer),
        d.stage = .ready → Interrupted l.writer [[]] (d.run patience p (l.limited limit))) ∨
      ∃ l', l.Still l' ∧ l'.writer.rule.Patient ∧ l.writer.Carried l'.writer [[]] ∧
        ∀ limit, enough ≤ limit → (l.limited limit).flush = (.ok (), l'.limited limit) := by
  obtain ⟨enough, out, l', came, flushed⟩ := flush_patient patient
  have first := flushed enough (Nat.le_refl _)
  obtain ⟨put, io⟩ := put_flush first
  refine ⟨enough, ?_⟩
  cases out with
  | stuck => exact absurd rfl came
  | ok =>
      have rule : l'.writer.rule = l.writer.rule := put.rule
      have carried := carried_of_flush first
      exact .inr ⟨l', ⟨put.body, put.reader⟩, rule ▸ patient, carried, flushed⟩
  | error e =>
      refine .inl fun limit late d patience p ready => ?_
      obtain ⟨fault, rfl⟩ := io e rfl
      have started : d.start patience p (l.limited limit) =
          (.error (.wire (.io fault)), d, l'.limited limit) := by
        rw [start, flushed limit late]
      have fails := failsIn_of_flush first
      rw [run, ready, started]
      exact ⟨fails, ⟨fault, rfl⟩, [], List.nil_prefix, put.output⟩

theorem run_of_loop {d d' : Delivery} {out : Outcome BodyError Nat} {l₁ : Link}
    (ready : d.stage = .ready) (flushed : l.flush = (.ok (), l₁))
    (looped : Course.loop patience ⟨l.clock.now, d, p, l₁⟩ = (out, d', l')) :
    d.run patience p l = (out, d'.settle out, l') ∧ l₁.writer.output = l.writer.output ∧
      Event.answers (d.history patience p l) =
        Event.answers (Course.later patience ⟨l.clock.now, d, p, l₁⟩) := by
  have started : d.start patience p l = (out, d', l') := by
    rw [start, flushed]
    exact looped
  have output := (put_flush flushed).1.output
  rw [List.append_nil] at output
  refine ⟨?_, output, ?_⟩
  · rw [run, ready, started]
  · rw [history, ready, flushed]
    rfl

/-- Where a delivery in chunks stands when these chunks are through: its run goes on as this course
does. -/
structure Course.Reached (s : Course) (patience : Patience) (p : Producer) (l : Link)
    (chunks : List Bytes) (enough : Nat) : Prop where
  flows : s.Flows
  framing : s.delivery.framing = .chunked
  count : s.delivery.chunks = (filled chunks).length
  carried : l.writer.Carried s.link.writer ([] :: Framing.chunked.sends chunks)
  runs : ∀ limit, enough ≤ limit → ∀ out d l', (s.limited limit).loop patience = (out, d, l') →
    ({ framing := .chunked } : Delivery).run patience p (l.limited limit) = (out, d.settle out, l')
  answers : ∀ limit, enough ≤ limit →
    Event.answers (({ framing := .chunked } : Delivery).history patience p (l.limited limit)) =
      chunks.map .chunk ++ Event.answers ((s.limited limit).later patience)

theorem Course.Reached.interrupted {enough limit : Nat} {sends : List Bytes}
    (reached : s.Reached patience p l chunks enough) (late : enough ≤ limit)
    (interrupted : Interrupted s.link.writer sends ((s.limited limit).loop patience)) :
    Interrupted l.writer ([] :: (Framing.chunked.sends chunks ++ sends))
      (({ framing := .chunked } : Delivery).run patience p (l.limited limit)) := by
  rcases looped : (s.limited limit).loop patience with ⟨out, d, l'⟩
  rw [looped] at interrupted
  obtain ⟨fails, out, output⟩ := interrupted.behind reached.carried
  rw [reached.runs limit late _ d l' looped]
  exact ⟨fails, out, output⟩

/-- Unless it is cut off or the writer fails, a delivery in chunks comes past those that its producer
gives, once there is enough time. -/
theorem reached_of_gives (patience : Patience) (patient : l.writer.rule.Patient)
    (gives : p.Gives l chunks q m) :
    let d : Delivery := { framing := .chunked }
    ∃ enough : Nat,
      (patience ≠ .endless ∧ ∀ limit, enough ≤ limit →
        ∃ d' l', d.run patience p (l.limited limit) = (.error (.cancelled true), d', l')) ∨
      (∀ limit, enough ≤ limit → Interrupted l.writer ([] :: Framing.chunked.sends chunks)
        (d.run patience p (l.limited limit))) ∨
      ∃ s : Course, s.producer = q ∧ m.Still s.link ∧ s.Reached patience p l chunks enough := by
  intro d
  obtain ⟨enough₁, interrupted | ⟨l₁, still, patient₁, carried, passed⟩⟩ := flush_of_patient patient
  · refine ⟨enough₁, .inr (.inl fun limit late => ?_)⟩
    exact (interrupted limit late d patience p rfl).mono (List.prefix_append _ _)
  let s : Course := ⟨l.clock.now, d, p, l₁⟩
  have runs : ∀ limit, enough₁ ≤ limit → ∀ out d' l', (s.limited limit).loop patience = (out, d', l') →
      d.run patience p (l.limited limit) = (out, d'.settle out, l') :=
    fun limit late out d' l' looped => (run_of_loop rfl (passed limit late) looped).1
  obtain ⟨enough₂, ⟨timed, cut⟩ | interrupted | ⟨s', producer, still₁, flows, rounds⟩⟩ :=
    rounds_of_gives patience gives s rfl still ⟨patient₁, rfl, rfl, rfl⟩
  · refine ⟨max enough₁ enough₂, .inl ⟨timed, fun limit late => ?_⟩⟩
    obtain ⟨d', l', looped⟩ := cut limit (by omega)
    exact ⟨_, l', runs limit (by omega) _ d' l' looped⟩
  · refine ⟨max enough₁ enough₂, .inr (.inl fun limit late => ?_)⟩
    obtain ⟨fails, out, output⟩ := (interrupted limit (by omega)).behind carried
    rw [runs limit (by omega) _ _ _ rfl]
    exact ⟨fails, out, output⟩
  · have before := sent_of_rounds (rounds enough₂ (Nat.le_refl _))
    have carried₁ := carried_of_rounds (rounds enough₂ (Nat.le_refl _)) rfl
    refine ⟨max enough₁ enough₂, .inr (.inr ⟨s', producer, still₁, flows, before.framing,
      before.chunks.trans (Nat.zero_add _), carried.trans carried₁, ?_, ?_⟩)⟩
    · intro limit late out d' l' looped
      apply runs limit (by omega)
      rw [loop_of_rounds (rounds limit (by omega)), looped]
    · intro limit late
      obtain ⟨_, _, told⟩ := run_of_loop (d := d) (l := l.limited limit) rfl
        (passed limit (by omega)) rfl
      exact told.trans (answers_of_rounds (rounds limit (by omega)))

/-- A producer that comes to its end has all its chunks delivered in order, and the end behind them,
unless the writer fails, once there is enough time. -/
theorem run_of_gives {q' : Producer} {m' : Link} (patient : l.writer.rule.Patient)
    (gives : p.Gives l chunks q m) (ends : q.Answers m .ended q' m') :
    let d : Delivery := { framing := .chunked }
    let sends : List Bytes := [] :: (Framing.chunked.sends chunks ++ [Framing.chunked.terminator])
    ∃ enough : Nat,
      (∀ limit, enough ≤ limit →
        Interrupted l.writer sends (d.run .endless p (l.limited limit))) ∨
      ∃ (d' : Delivery) (l' : Link), m'.Still l' ∧ l.writer.Carried l'.writer sends ∧
        ∀ limit, enough ≤ limit → d.run .endless p (l.limited limit) =
          (.ok (filled chunks).length, d', l'.limited limit) := by
  intro d sends
  obtain ⟨enough, ⟨timed, _⟩ | interrupted | ⟨s, rfl, still, reached⟩⟩ :=
    reached_of_gives .endless patient gives
  · exact absurd rfl timed
  · refine ⟨enough, .inl fun limit late => (interrupted limit late).mono ?_⟩
    exact List.prefix_append _ _
  obtain ⟨m₁, ends₁, still₁⟩ := ends.congr still
  obtain ⟨enough', interrupted | ⟨d', l', still₂, carried, ended⟩⟩ :=
    loop_of_ended ends₁ reached.flows
  · rw [reached.framing] at interrupted
    refine ⟨max enough enough', .inl fun limit late => ?_⟩
    exact reached.interrupted (by omega) (interrupted limit (by omega))
  · rw [reached.framing] at carried
    rw [reached.count] at ended
    refine ⟨max enough enough', .inr ⟨d'.settle (.ok (filled chunks).length), l',
      still₁.trans still₂, reached.carried.trans carried, fun limit late => ?_⟩⟩
    exact reached.runs limit (by omega) _ d' _ (ended limit (by omega))

end Delivery

end HttpExchange
