import HttpExchange.Proofs.Body.Rounds

/-!
What rounds leave on the wire. Each chunk with bytes puts its frame there, the first one behind the
head that was held back, and the delivery counts it.
-/

namespace HttpExchange

namespace Link

theorem output_shutdown (l : Link) : l.shutdown.writer.output = l.writer.output := by
  have closed := (Writer.wrote_shutdown (w := l.writer) rfl).output
  rwa [List.append_nil] at closed

theorem events_shutdown (l : Link) : l.shutdown.writer.events = l.writer.events ++ [.shut] :=
  List.reverse_cons

theorem closesLast_shutdown (l : Link) : l.writer.ClosesLast l.shutdown.writer :=
  ⟨[], [.shut], events_shutdown l, List.not_mem_nil, .inr rfl⟩

end Link

namespace Delivery

variable {patience : Patience} {s s' s'' : Course} {p p' : Producer} {d d' : Delivery}
  {l l' : Link} {b : Bytes} {bs pulled sent more : List Bytes} {pull : Pull}

theorem demand_cases (eq : s.demand patience = (pull, p, d, l)) :
    (pull = .cancelled ∧ d = { s.delivery with permit := false } ∧ l = s.link) ∨
      ∃ permit, d = { s.delivery with permit } ∧
        s.producer.askWithin (patience.deadline? s.last) s.link = (pull, p, permit, l) := by
  unfold Course.demand Delivery.demand at eq
  split at eq
  · cases eq
    exact .inl ⟨rfl, rfl, rfl⟩
  · cases deadline : patience.deadline? s.last with
    | none =>
        rcases asked : s.producer.ask s.link with ⟨pull₁, p₁, permit₁, l₁⟩
        simp only [deadline, asked] at eq
        cases eq
        exact .inr ⟨permit₁, rfl, asked⟩
    | some moment =>
        rcases asked : s.producer.askBefore moment s.link with ⟨pull₁, p₁, permit₁, l₁⟩
        simp only [deadline, asked] at eq
        cases eq
        exact .inr ⟨permit₁, rfl, asked⟩

theorem demand_spec (eq : s.demand patience = (pull, p, d, l)) :
    (∃ permit, d = { s.delivery with permit }) ∧
      l.writer.output = s.link.writer.output ∧ l.writer.rule = s.link.writer.rule := by
  rcases demand_cases eq with ⟨_, rfl, rfl⟩ | ⟨permit, rfl, asked⟩
  · exact ⟨⟨false, rfl⟩, rfl, rfl⟩
  · obtain ⟨w', framed, same⟩ := Producer.askWithin_writer s.link.writer asked
    have writer : l.writer = w' := congrArg (fun x => x.2.2.2.writer) (asked.symm.trans framed)
    exact ⟨⟨permit, rfl⟩, writer ▸ same⟩

theorem ask_of_demand (eq : s.demand patience = (pull, p, d, l)) (own : pull ≠ .cancelled)
    (came : pull ≠ .stuck) :
    ∃ clock clock' permit l₁, s.producer.ask { s.link with clock } = (pull, p, permit, l₁) ∧
      l = { l₁ with clock := clock' } := by
  rcases demand_cases eq with ⟨cancelled, _, _⟩ | ⟨permit, _, asked⟩
  · exact absurd cancelled own
  · obtain ⟨clock, clock', l₁, answer, same⟩ := Producer.ask_of_askWithin asked own came
    exact ⟨clock, clock', permit, l₁, answer, same⟩

theorem supplies_of_demand (eq : s.demand patience = (.chunk b, p, d, l)) (clock : Clock)
    (writer : Writer) (rest : p.Supplies { l with clock, writer } bs) :
    s.producer.Supplies s.link (b :: bs) := by
  obtain ⟨asking, answered, permit, l₁, answer, rfl⟩ := ask_of_demand eq nofun nofun
  have later : p.Supplies { l₁ with clock := answered } bs := rest.behind
  exact .chunk asking s.link.writer answer later.behind

theorem completes_of_demand (eq : s.demand patience = (.chunk b, p, d, l)) (clock : Clock)
    (writer : Writer) (rest : p.Completes { l with clock, writer } bs) :
    s.producer.Completes s.link (b :: bs) := by
  obtain ⟨asking, answered, permit, l₁, answer, rfl⟩ := ask_of_demand eq nofun nofun
  have later : p.Completes { l₁ with clock := answered } bs := rest.behind
  exact .chunk asking s.link.writer answer later.behind

theorem completes_nil_of_demand (eq : s.demand patience = (.ended, p, d, l)) :
    s.producer.Completes s.link [] := by
  obtain ⟨asking, answered, permit, l₁, answer, rfl⟩ := ask_of_demand eq nofun nofun
  exact .ended asking s.link.writer answer

structure Put (l : Link) (b : Bytes) (part : Bytes) (l' : Link) : Prop where
  beginning : part <+: b
  output : l'.writer.output = l.writer.output ++ part
  rule : l'.writer.rule = l.writer.rule
  reader : l'.reader = l.reader
  body : l'.body = l.body

theorem Put.link {part : Bytes} (put : Put l b part l') :
    l' = { l with clock := l'.clock, writer := l'.writer } := by
  obtain ⟨clock, reader, writer, body⟩ := l'
  obtain ⟨_, _, _, rfl, rfl⟩ := put
  rfl

theorem put_writeAll {out : Outcome WireError Unit} (eq : l.writeAll b = (out, l')) :
    ∃ part, Put l b part l' ∧ (out = .ok () → part = b) ∧ ∀ e, out = .error e → ∃ f, e = .io f := by
  rcases wrote : l.writer.writeAll b l.clock with ⟨out₁, writer, clock⟩
  obtain ⟨part, beginning, put, whole⟩ := Writer.wrote_writeAll wrote
  rw [Link.writeAll, wrote] at eq
  cases eq
  refine ⟨part, ⟨beginning, put.output, put.rule, rfl, rfl⟩, ?_, ?_⟩
  · intro ended
    cases out₁ with
    | ok _ => exact whole rfl
    | error e => cases ended
    | stuck => cases ended
  · intro e failed
    cases out₁ with
    | ok _ => cases failed
    | stuck => cases failed
    | error fault =>
        cases failed
        exact ⟨fault, rfl⟩

theorem put_flush {out : Outcome WireError Unit} (eq : l.flush = (out, l')) :
    Put l [] [] l' ∧ ∀ e, out = .error e → ∃ f, e = .io f := by
  rcases wrote : l.writer.flush l.clock with ⟨out₁, writer, clock⟩
  have put := Writer.wrote_flush wrote
  rw [Link.flush, wrote] at eq
  cases eq
  refine ⟨⟨List.prefix_refl [], put.output, put.rule, rfl, rfl⟩, ?_⟩
  intro e failed
  cases out₁ with
  | ok _ => cases failed
  | error fault =>
      cases failed
      exact ⟨fault, rfl⟩
  | stuck => cases failed

theorem put_send {out : Outcome WireError Unit} (eq : l.send b = (out, l')) :
    ∃ part, Put l b part l' ∧ (out = .ok () → part = b) ∧ ∀ e, out = .error e → ∃ f, e = .io f := by
  rcases wrote : Wire.writeHead b l.writer l.clock with ⟨out₁, writer, clock⟩
  obtain ⟨⟨part, beginning, put, whole⟩, io⟩ := Writer.wrote_writeHead wrote
  rw [Link.send, wrote] at eq
  cases eq
  exact ⟨part, ⟨beginning, put.output, put.rule, rfl, rfl⟩, whole, io⟩

/-- The bytes that a delivery still has to put in front of what it writes next. -/
def pending (d : Delivery) : Bytes := d.head.getD []

theorem deliver_ok (eq : d.deliver b l = (.ok (), d', l')) :
    d' = { d with head := none, chunks := d.chunks + 1, written := d.written + b.length } ∧
      Put l (d.pending ++ d.framing.frame b) (d.pending ++ d.framing.frame b) l' := by
  unfold deliver at eq
  split at eq
  · cases eq
  · rcases wrote : l.writeAll (d.head.getD [] ++ d.framing.frame b) with ⟨out, l₁⟩
    obtain ⟨part, put, whole, _⟩ := put_writeAll wrote
    rw [wrote] at eq
    cases out with
    | ok _ =>
        cases eq
        cases whole rfl
        exact ⟨rfl, put⟩
    | error e => cases eq
    | stuck => cases eq

/-- A chunk that is not delivered goes beyond the announced length, and then nothing is written; or
the wire took only a part of it. -/
theorem deliver_error {e : BodyError} (eq : d.deliver b l = (.error e, d', l')) :
    (d' = d ∧ l' = l ∧ ∃ cause, e = d.failure cause) ∨
      (d' = { d with head := none } ∧ (∃ fault, e = .wire (.io fault)) ∧
        ∃ part, Put l (d.pending ++ d.framing.frame b) part l') := by
  unfold deliver at eq
  split at eq
  · cases eq
    exact .inl ⟨rfl, rfl, _, rfl⟩
  · rcases wrote : l.writeAll (d.head.getD [] ++ d.framing.frame b) with ⟨out, l₁⟩
    obtain ⟨part, put, _, io⟩ := put_writeAll wrote
    rw [wrote] at eq
    cases out with
    | ok _ => cases eq
    | error e =>
        cases eq
        obtain ⟨fault, rfl⟩ := io e rfl
        exact .inr ⟨rfl, ⟨fault, rfl⟩, part, put⟩
    | stuck => cases eq

theorem deliver_stuck (eq : d.deliver b l = (.stuck, d', l')) :
    d' = { d with head := none } ∧ ∃ part, Put l (d.pending ++ d.framing.frame b) part l' := by
  unfold deliver at eq
  split at eq
  · cases eq
  · rcases wrote : l.writeAll (d.head.getD [] ++ d.framing.frame b) with ⟨out, l₁⟩
    obtain ⟨part, put, _, _⟩ := put_writeAll wrote
    rw [wrote] at eq
    cases out with
    | ok _ => cases eq
    | error e => cases eq
    | stuck =>
        cases eq
        exact ⟨rfl, part, put⟩

/-- The end is written, or refused because bytes are missing, or the wire took only a part of it. -/
theorem finish_cases {out : Outcome BodyError Nat} (eq : d.finish l = (out, d', l')) :
    (d' = d ∧ l' = l ∧ ∃ cause, out = .error (d.failure cause)) ∨
      (d' = { d with head := none } ∧
        ∃ part, Put l (d.pending ++ d.framing.terminator) part l' ∧
          ((out = .ok d.chunks ∧ part = d.pending ++ d.framing.terminator) ∨
            (∃ fault, out = .error (.wire (.io fault))) ∨ out = .stuck)) := by
  unfold finish at eq
  split at eq
  · cases eq
    exact .inl ⟨rfl, rfl, _, rfl⟩
  · rcases sent : l.send (d.head.getD [] ++ d.framing.terminator) with ⟨out₁, l₁⟩
    obtain ⟨part, put, whole, io⟩ := put_send sent
    rw [sent] at eq
    cases eq
    refine .inr ⟨rfl, part, put, ?_⟩
    cases out₁ with
    | ok _ => exact .inl ⟨rfl, whole rfl⟩
    | error e =>
        obtain ⟨fault, rfl⟩ := io e rfl
        exact .inr (.inl ⟨fault, rfl⟩)
    | stuck => exact .inr (.inr rfl)

/-- What was done between two points of a delivery: these chunks were sent, and the head with
them. -/
structure Sent (s : Course) (sent : List Bytes) (s' : Course) : Prop where
  framing : s'.delivery.framing = s.delivery.framing
  stage : s'.delivery.stage = s.delivery.stage
  chunks : s'.delivery.chunks = s.delivery.chunks + sent.length
  written : s'.delivery.written = s.delivery.written + sent.flatten.length
  head : s'.delivery.head = if sent = [] then s.delivery.head else none
  output : s'.link.writer.output ++ s'.delivery.pending =
    s.link.writer.output ++ (s.delivery.pending ++ s.delivery.framing.frames sent)
  rule : s'.link.writer.rule = s.link.writer.rule

theorem Sent.refl (s : Course) : Sent s [] s :=
  ⟨rfl, rfl, rfl, rfl, rfl, by rw [Framing.frames, List.flatMap_nil, List.append_nil], rfl⟩

theorem Sent.trans (one : Sent s sent s') (two : Sent s' more s'') : Sent s (sent ++ more) s'' := by
  refine ⟨two.framing.trans one.framing, two.stage.trans one.stage, ?_, ?_, ?_, ?_,
    two.rule.trans one.rule⟩
  · rw [two.chunks, one.chunks, List.length_append, Nat.add_assoc]
  · rw [two.written, one.written, List.flatten_append, List.length_append, Nat.add_assoc]
  · rw [two.head, one.head]
    cases more with
    | nil => rw [if_pos rfl, List.append_nil]
    | cons b more =>
        rw [if_neg (List.cons_ne_nil b more),
          if_neg (List.append_ne_nil_of_right_ne_nil sent (List.cons_ne_nil b more))]
  · rw [two.output, one.framing, ← List.append_assoc, one.output, Framing.frames_append]
    simp only [List.append_assoc]

def filled (chunks : List Bytes) : List Bytes := chunks.filter fun b => !b.isEmpty

theorem filled_cons_of_ne_nil (some : b ≠ []) : filled (b :: bs) = b :: filled bs := by
  rw [filled, List.filter_cons_of_pos, filled]
  rwa [Bool.not_eq_true', List.isEmpty_eq_false_iff]

theorem filled_append (first second : List Bytes) :
    filled (first ++ second) = filled first ++ filled second := List.filter_append _ _

theorem mem_filled {chunks : List Bytes} {b : Bytes} (member : b ∈ filled chunks) : b ≠ [] := by
  have some := (List.mem_filter.mp member).2
  rwa [Bool.not_eq_true', List.isEmpty_eq_false_iff] at some

theorem flatten_filled (chunks : List Bytes) : (filled chunks).flatten = chunks.flatten := by
  induction chunks with
  | nil => rfl
  | cons b chunks ih =>
      by_cases none : b = []
      · subst none
        exact ih
      · rw [filled_cons_of_ne_nil none, List.flatten_cons, List.flatten_cons, ih]

theorem sent_of_round (round : Round patience s b s') : Sent s (filled [b]) s' := by
  cases round with
  | skip asked =>
      obtain ⟨⟨permit, rfl⟩, output, rule⟩ := demand_spec asked
      refine ⟨rfl, rfl, rfl, rfl, rfl, ?_, rule⟩
      rw [output]
      exact congrArg (_ ++ ·) (List.append_nil _).symm
  | @deliver p d d₁ l l₁ l₂ _ asked some wrote passed =>
      obtain ⟨⟨permit, rfl⟩, output, rule⟩ := demand_spec asked
      obtain ⟨rfl, put⟩ := deliver_ok wrote
      have flushed := (put_flush passed).1
      rw [filled_cons_of_ne_nil some]
      refine ⟨rfl, rfl, rfl, ?_, rfl, ?_, flushed.rule.trans (put.rule.trans rule)⟩
      · exact congrArg (_ + List.length ·) (List.append_nil b).symm
      · have bytes : l.writer.output = s.link.writer.output ++
            (s.delivery.pending ++ s.delivery.framing.frame b) := by
          rw [flushed.output, put.output, output, List.append_nil]
          rfl
        rw [bytes, filled, List.filter_nil, Framing.frames, List.flatMap_singleton]
        exact List.append_nil _

theorem sent_of_rounds (rounds : Rounds patience s pulled s') : Sent s (filled pulled) s' := by
  induction rounds with
  | none s => exact .refl s
  | @more _ _ _ b bs first rest ih =>
      have both := (sent_of_round first).trans ih
      rwa [← filled_append] at both

theorem supplies_of_round (round : Round patience s b s')
    (rest : s'.producer.Supplies s'.link bs) : s.producer.Supplies s.link (b :: bs) := by
  cases round with
  | skip asked => exact supplies_of_demand asked _ _ rest
  | @deliver p d d₁ l l₁ l₂ _ asked some wrote passed =>
      have same : l = { l₁ with clock := l.clock, writer := l.writer } :=
        (put_flush passed).1.link.trans (by rw [(deliver_ok wrote).2.link])
      rw [same] at rest
      exact supplies_of_demand asked _ _ rest

theorem completes_of_round (round : Round patience s b s')
    (rest : s'.producer.Completes s'.link bs) : s.producer.Completes s.link (b :: bs) := by
  cases round with
  | skip asked => exact completes_of_demand asked _ _ rest
  | @deliver p d d₁ l l₁ l₂ _ asked some wrote passed =>
      have same : l = { l₁ with clock := l.clock, writer := l.writer } :=
        (put_flush passed).1.link.trans (by rw [(deliver_ok wrote).2.link])
      rw [same] at rest
      exact completes_of_demand asked _ _ rest

theorem supplies_of_rounds (rounds : Rounds patience s pulled s')
    (rest : s'.producer.Supplies s'.link bs) : s.producer.Supplies s.link (pulled ++ bs) := by
  induction rounds with
  | none s => exact rest
  | more first _ ih => exact supplies_of_round first (ih rest)

theorem completes_of_rounds (rounds : Rounds patience s pulled s')
    (rest : s'.producer.Completes s'.link bs) : s.producer.Completes s.link (pulled ++ bs) := by
  induction rounds with
  | none s => exact rest
  | more first _ ih => exact completes_of_round first (ih rest)

end Delivery

end HttpExchange
