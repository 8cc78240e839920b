import HttpExchange.Proofs.Body.Progress

/-!
What a delivery comes to, and what that tells about the wire. Only an end in order announces one;
a failure that is not the transport's leaves a whole number of frames there, or nothing at all if
the head was still held back.
-/

namespace HttpExchange

namespace Delivery

variable {patience : Patience} {s s' : Course} {p : Producer} {d d' : Delivery} {l l' : Link}
  {b : Bytes} {pulled extra : List Bytes} {out : Outcome BodyError Nat}

/-- What the wire may show of the chunks of a producer: a beginning of their frames, and of the end
only if the producer has come to its own. -/
structure Shows (s : Course) (pulled : List Bytes) (wire : Bytes) : Prop where
  intro ::
  supplies : s.producer.Supplies s.link pulled
  beginning :
    wire <+: s.delivery.pending ++ s.delivery.framing.frames (filled pulled) ∨
      s.producer.Completes s.link pulled ∧
        wire <+: s.delivery.pending ++ s.delivery.framing.transfer (filled pulled)

theorem Shows.behind {last last' : Nat} {clock : Clock} {writer : Writer} {wire : Bytes}
    (shows : Shows ⟨last, d, p, { l with clock, writer }⟩ pulled wire) :
    Shows ⟨last', d, p, l⟩ pulled wire :=
  ⟨shows.supplies.behind, shows.beginning.imp id fun ⟨completes, part⟩ => ⟨completes.behind, part⟩⟩

inductive Verdict (s : Course) : Outcome BodyError Nat → Delivery → Link → Prop where
  /-- The producer ended, and so did the body. -/
  | finished {d : Delivery} {l : Link} {count : Nat} (pulled : List Bytes)
      (completes : s.producer.Completes s.link pulled) (head : d.head = none)
      (chunks : d.chunks = count) (sum : count = s.delivery.chunks + (filled pulled).length)
      (output : l.writer.output = s.link.writer.output ++
        (s.delivery.pending ++ s.delivery.framing.transfer (filled pulled))) :
      Verdict s (.ok count) d l
  /-- The producer failed or was cancelled behind the chunks that were sent. -/
  | left {d : Delivery} {l : Link} {e : BodyError} (pulled extra : List Bytes)
      (supplies : s.producer.Supplies s.link (pulled ++ extra))
      (cause : (∃ cause, e = d.failure cause) ∨ e = .cancelled d.isCommitted)
      (chunks : d.chunks = s.delivery.chunks + (filled pulled).length)
      (head : d.head = if filled pulled = [] then s.delivery.head else none)
      (output : l.writer.output ++ d.pending = s.link.writer.output ++
        (s.delivery.pending ++ s.delivery.framing.frames (filled pulled))) :
      Verdict s (.error e) d l
  /-- The transport failed, or there was no end to the waiting. -/
  | broken {out : Outcome BodyError Nat} {d : Delivery} {l : Link} (pulled : List Bytes)
      (wire : Bytes) (shows : Shows s pulled wire)
      (output : l.writer.output = s.link.writer.output ++ wire)
      (cause : out = .stuck ∨ ∃ fault, out = .error (.wire (.io fault))) : Verdict s out d l

theorem pending_of_head_none (committed : d.head = none) : d.pending = [] := by
  rw [pending, committed]
  rfl

theorem pending_of_head_eq (same : d.head = d'.head) : d.pending = d'.pending :=
  congrArg (fun head => head.getD []) same

/-- Either nothing was sent and the head is where it was, or it is on the wire. -/
theorem Sent.cases {sent : List Bytes} (before : Sent s sent s') :
    (sent = [] ∧ s'.delivery.pending = s.delivery.pending ∧
        s'.link.writer.output = s.link.writer.output) ∨
      (s'.delivery.pending = [] ∧ s'.link.writer.output = s.link.writer.output ++
        (s.delivery.pending ++ s.delivery.framing.frames sent)) := by
  have output := before.output
  by_cases none : sent = []
  · subst none
    have same : s'.delivery.pending = s.delivery.pending :=
      pending_of_head_eq (before.head.trans (if_pos rfl))
    rw [same, Framing.frames, List.flatMap_nil, List.append_nil] at output
    exact .inl ⟨rfl, same, List.append_cancel_right output⟩
  · have committed : s'.delivery.pending = [] :=
      pending_of_head_none (before.head.trans (if_neg none))
    rw [committed, List.append_nil] at output
    exact .inr ⟨committed, output⟩

theorem wire_of_part {sent : List Bytes} (before : Sent s sent s') {next part : Bytes}
    (beginning : part <+: s'.delivery.pending ++ next) :
    ∃ wire, s'.link.writer.output ++ part = s.link.writer.output ++ wire ∧
      wire <+: s.delivery.pending ++ (s.delivery.framing.frames sent ++ next) ∧
      (part = s'.delivery.pending ++ next →
        wire = s.delivery.pending ++ (s.delivery.framing.frames sent ++ next)) := by
  rcases before.cases with ⟨rfl, same, output⟩ | ⟨committed, output⟩
  · rw [same] at beginning ⊢
    refine ⟨part, congrArg (· ++ part) output, ?_, ?_⟩
    · exact beginning
    · exact id
  · rw [committed] at beginning ⊢
    refine ⟨s.delivery.pending ++ (s.delivery.framing.frames sent ++ part), ?_, ?_, ?_⟩
    · rw [output, List.append_assoc, List.append_assoc]
    · rw [List.prefix_append_right_inj, List.prefix_append_right_inj]
      exact beginning
    · intro whole
      rw [whole, List.nil_append]

theorem filled_singleton (some : b ≠ []) : filled [b] = [b] := filled_cons_of_ne_nil some

theorem shows_part (rounds : Rounds patience s pulled s') (some : b ≠ [])
    (asked : s'.demand patience = (.chunk b, p, d, l)) {part : Bytes}
    (put : Put l (d.pending ++ d.framing.frame b) part l') :
    ∃ wire, Shows s (pulled ++ [b]) wire ∧
      l'.writer.output = s.link.writer.output ++ wire := by
  have before := sent_of_rounds rounds
  obtain ⟨⟨permit, rfl⟩, output, _⟩ := demand_spec asked
  obtain ⟨wire, whole, beginning, _⟩ := wire_of_part before put.beginning
  have next : s'.delivery.framing.frame b = s.delivery.framing.frame b := by rw [before.framing]
  refine ⟨wire, ⟨?_, .inl ?_⟩, ?_⟩
  · exact supplies_of_rounds rounds (supplies_of_demand asked l.clock l.writer (.none p l))
  · rw [filled_append, filled_singleton some, Framing.frames_concat, ← next]
    exact beginning
  · rw [put.output, output, whole]

theorem left_of_rounds (rounds : Rounds patience s pulled s') {e : BodyError}
    (supplies : s'.producer.Supplies s'.link extra) (permit : Bool)
    (state : d = { s'.delivery with permit }) (output : l.writer.output = s'.link.writer.output)
    (cause : (∃ cause, e = d.failure cause) ∨ e = .cancelled d.isCommitted) :
    Verdict s (.error e) d l := by
  have before := sent_of_rounds rounds
  subst state
  refine .left pulled extra (supplies_of_rounds rounds supplies) cause before.chunks before.head ?_
  rw [output]
  exact before.output

theorem shows_quiet (rounds : Rounds patience s pulled s')
    (output : l.writer.output = s'.link.writer.output) :
    ∃ wire, Shows s pulled wire ∧ l.writer.output = s.link.writer.output ++ wire := by
  have none : [] <+: s'.delivery.pending ++ [] := List.nil_prefix
  obtain ⟨wire, whole, beginning, _⟩ := wire_of_part (sent_of_rounds rounds) none
  have supplies := supplies_of_rounds rounds (.none _ _)
  rw [List.append_nil] at supplies beginning whole
  exact ⟨wire, ⟨supplies, .inl beginning⟩, output.trans whole⟩

theorem output_of_end (rounds : Rounds patience s pulled s')
    (asked : s'.demand patience = (.ended, p, d', l')) {count : Nat}
    (finished : d'.finish l' = (.ok count, d, l)) :
    d.head = none ∧ d.chunks = count ∧ count = s.delivery.chunks + (filled pulled).length ∧
      l.writer.output = s.link.writer.output ++
        (s.delivery.pending ++ s.delivery.framing.transfer (filled pulled)) := by
  have before := sent_of_rounds rounds
  obtain ⟨⟨permit, rfl⟩, output, _⟩ := demand_spec asked
  rcases finish_cases finished with ⟨_, _, cause, failed⟩ | ⟨rfl, part, put, ends⟩
  · cases failed
  · rcases ends with ⟨same, all⟩ | ⟨fault, failed⟩ | waits
    · cases same
      obtain ⟨wire, joint, _, whole⟩ := wire_of_part before put.beginning
      refine ⟨rfl, rfl, before.chunks, ?_⟩
      rw [put.output, output, joint, whole all]
      exact congrArg (fun f : Framing => s.link.writer.output ++ (s.delivery.pending ++
        (s.delivery.framing.frames (filled pulled) ++ f.terminator))) before.framing
    · cases failed
    · cases waits

theorem verdict_of_end (rounds : Rounds patience s pulled s')
    (asked : s'.demand patience = (.ended, p, d', l')) (finished : d'.finish l' = (out, d, l)) :
    Verdict s out d l := by
  have before := sent_of_rounds rounds
  have completes := completes_of_rounds rounds (completes_nil_of_demand asked)
  rw [List.append_nil] at completes
  obtain ⟨⟨permit, state⟩, output, _⟩ := demand_spec asked
  rcases finish_cases finished with ⟨rfl, rfl, cause, rfl⟩ | ⟨_, part, put, ends⟩
  · exact left_of_rounds rounds (.none _ _) permit state output (.inl ⟨cause, rfl⟩)
  · rcases ends with ⟨rfl, _⟩ | broken
    · obtain ⟨head, chunks, sum, output⟩ := output_of_end rounds asked finished
      exact .finished pulled completes head chunks sum output
    · subst state
      obtain ⟨wire, joint, beginning, _⟩ := wire_of_part before put.beginning
      have ending : s'.delivery.framing.terminator = s.delivery.framing.terminator := by
        rw [before.framing]
      rw [show s'.delivery.framing.terminator = _ from ending] at beginning
      have shows : Shows s pulled wire := ⟨completes.supplies, .inr ⟨completes, beginning⟩⟩
      exact .broken pulled wire shows (by rw [put.output, output, joint]) broken.symm

theorem verdict_of_halt (rounds : Rounds patience s pulled s') (halt : Halt patience s' out d l) :
    Verdict s out d l := by
  cases halt with
  | failed asked =>
      obtain ⟨⟨permit, state⟩, output, _⟩ := demand_spec asked
      exact left_of_rounds rounds (.none _ _) permit state output (.inl ⟨_, rfl⟩)
  | cancelled asked =>
      obtain ⟨⟨permit, state⟩, output, _⟩ := demand_spec asked
      exact left_of_rounds rounds (.none _ _) permit state output (.inr rfl)
  | stuck asked =>
      obtain ⟨wire, shows, output⟩ := shows_quiet rounds (demand_spec asked).2.1
      exact .broken _ wire shows output (.inl rfl)
  | ended asked finished => exact verdict_of_end rounds asked finished
  | @refused p d d₁ l l₁ b e asked some wrote =>
      rcases deliver_error wrote with ⟨rfl, rfl, cause, rfl⟩ | ⟨_, ⟨fault, rfl⟩, part, put⟩
      · obtain ⟨⟨permit, state⟩, output, _⟩ := demand_spec asked
        have one := supplies_of_demand asked l.clock l.writer (.none p l)
        exact left_of_rounds rounds one permit state output (.inl ⟨cause, rfl⟩)
      · obtain ⟨wire, shows, output⟩ := shows_part rounds some asked put
        exact .broken _ wire shows output (.inr ⟨fault, rfl⟩)
  | caught asked some wrote =>
      obtain ⟨_, part, put⟩ := deliver_stuck wrote
      obtain ⟨wire, shows, output⟩ := shows_part rounds some asked put
      exact .broken _ wire shows output (.inl rfl)
  | unflushed asked some wrote passed =>
      obtain ⟨_, put⟩ := deliver_ok wrote
      obtain ⟨flushed, io⟩ := put_flush passed
      obtain ⟨fault, rfl⟩ := io _ rfl
      obtain ⟨wire, shows, output⟩ := shows_part rounds some asked put
      refine .broken _ wire shows ?_ (.inr ⟨fault, rfl⟩)
      rw [flushed.output, List.append_nil, output]
  | unpassed asked some wrote passed =>
      obtain ⟨_, put⟩ := deliver_ok wrote
      obtain ⟨wire, shows, output⟩ := shows_part rounds some asked put
      refine .broken _ wire shows ?_ (.inl rfl)
      rw [(put_flush passed).1.output, List.append_nil, output]

theorem Verdict.behind {s₁ : Course} (verdict : Verdict s₁ out d l)
    (delivery : s₁.delivery = s.delivery) (producer : s₁.producer = s.producer) {clock : Clock}
    {writer : Writer} (link : s₁.link = { s.link with clock, writer })
    (output : writer.output = s.link.writer.output) : Verdict s out d l := by
  obtain ⟨last, d₁, p₁, l₁⟩ := s₁
  cases delivery
  cases producer
  cases link
  cases verdict with
  | finished pulled completes head chunks sum written =>
      exact .finished pulled completes.behind head chunks sum (written.trans (by rw [output]))
  | left pulled extra supplies cause chunks head written =>
      exact .left pulled extra supplies.behind cause chunks head (written.trans (by rw [output]))
  | broken pulled wire shows written cause =>
      exact .broken pulled wire shows.behind (written.trans (by rw [output])) cause

theorem verdict_of_start (eq : d.start patience p l = (out, d', l')) :
    Verdict ⟨l.clock.now, d, p, l⟩ out d' l' := by
  unfold start at eq
  split at eq
  · next l₁ passed =>
      have flushed := (put_flush passed).1
      obtain ⟨pulled, s', rounds, halt⟩ :=
        rounds_of_loop (show Course.loop patience ⟨l.clock.now, d, p, l₁⟩ = _ from eq)
      have output := flushed.output
      rw [List.append_nil] at output
      exact (verdict_of_halt rounds halt).behind rfl rfl flushed.link output
  · next e l₁ passed =>
      obtain ⟨flushed, io⟩ := put_flush passed
      obtain ⟨fault, rfl⟩ := io _ rfl
      cases eq
      exact .broken [] [] ⟨.none p l, .inl List.nil_prefix⟩ flushed.output (.inr ⟨fault, rfl⟩)
  · next l₁ passed =>
      have flushed := (put_flush passed).1
      cases eq
      exact .broken [] [] ⟨.none p l, .inl List.nil_prefix⟩ flushed.output (.inl rfl)

theorem Verdict.shows (verdict : Verdict s out d l) (bare : s.delivery.head = none) :
    ∃ pulled wire, Shows s pulled wire ∧ l.writer.output = s.link.writer.output ++ wire := by
  cases verdict with
  | finished pulled completes _ _ _ output =>
      exact ⟨pulled, _, ⟨completes.supplies, .inr ⟨completes, List.prefix_refl _⟩⟩, output⟩
  | left pulled extra supplies _ _ head output =>
      have gone : d.pending = [] := by
        apply pending_of_head_none
        rw [head, bare]
        split <;> rfl
      rw [gone, List.append_nil] at output
      refine ⟨pulled ++ extra, _, ⟨supplies, .inl ?_⟩, output⟩
      rw [filled_append, Framing.frames_append, ← List.append_assoc]
      exact List.prefix_append _ _
  | broken pulled wire shows output _ => exact ⟨pulled, wire, shows, output⟩

/-- Behind a head that was written before, the wire shows what the producer gave. -/
theorem shows_of_run {f : Framing}
    (eq : ({ framing := f } : Delivery).run patience p l = (out, d', l')) :
    ∃ pulled wire, Shows ⟨l.clock.now, { framing := f }, p, l⟩ pulled wire ∧
      l'.writer.output = l.writer.output ++ wire := by
  rcases started : ({ framing := f } : Delivery).start patience p l with ⟨out₁, d₁, l₁⟩
  rw [Delivery.run, started] at eq
  cases eq
  exact (verdict_of_start started).shows rfl

end Delivery

/-- The chunks whose frames are whole on the wire, behind the bytes before them. -/
def Framing.accepted (f : Framing) (before : Bytes) : List Bytes → Bytes → List Bytes
  | [], _ => []
  | b :: rest, wire =>
    if (before ++ f.frame b).isPrefixOf wire then b :: f.accepted (before ++ f.frame b) rest wire
    else []

/-- Where the frames of some chunks are followed by less than the next one, these were accepted. -/
theorem Framing.accepted_eq {f : Framing} {before rest : Bytes} {sent more : List Bytes}
    (stops : ∀ b, more.head? = some b → ¬ f.frame b <+: rest) :
    f.accepted before (sent ++ more) (before ++ (f.frames sent ++ rest)) = sent := by
  induction sent generalizing before with
  | nil =>
      cases more with
      | nil => rfl
      | cons b more =>
          have short : ¬ (before ++ f.frame b).isPrefixOf (before ++ ([] ++ rest)) = true := by
            rw [List.isPrefixOf_iff_prefix, List.nil_append, List.prefix_append_right_inj]
            exact stops b rfl
          rw [List.nil_append, accepted]
          exact if_neg short
  | cons b sent ih =>
      have wire : before ++ (f.frames (b :: sent) ++ rest) =
          (before ++ f.frame b) ++ (f.frames sent ++ rest) := by
        rw [frames, List.flatMap_cons, ← frames]
        simp only [List.append_assoc]
      have here : (before ++ f.frame b).isPrefixOf
          ((before ++ f.frame b) ++ (f.frames sent ++ rest)) = true :=
        List.isPrefixOf_iff_prefix.mpr (List.prefix_append _ _)
      rw [wire, List.cons_append, accepted, if_pos here, ih]

namespace Delivery

variable {patience : Patience} {p : Producer} {d : Delivery} {l l' : Link}
  {pulled extra : List Bytes} {out : Outcome BodyError Nat}

/-- What the outcome of a first run tells: which chunks of those that were pulled are on the wire,
and that nothing else is. -/
structure Tells (f : Framing) (head : Bytes) (p : Producer) (l : Link)
    (out : Outcome BodyError Nat) (d : Delivery) (l' : Link) (pulled : List Bytes) (wire : Bytes) :
    Prop where
  supplies : p.Supplies l pulled
  output : l'.writer.output = l.writer.output ++ wire
  whole : ∀ count, out = .ok count →
    p.Completes l pulled ∧ f.accepted head (filled pulled) wire = filled pulled ∧
      count = (f.accepted head (filled pulled) wire).length ∧ d.chunks = count ∧
      wire = head ++ f.frames (f.accepted head (filled pulled) wire) ++ f.terminator
  untouched : ∀ e, out = .error e → (∃ cause, e = .preCommit cause) ∨ e = .cancelled false →
    wire = [] ∧ d.isCommitted = false
  leftOpen : ∀ e, out = .error e → e.isPostCommit = true →
    d.isCommitted = true ∧ d.chunks = (f.accepted head (filled pulled) wire).length ∧
      wire = head ++ f.frames (f.accepted head (filled pulled) wire) ∧
      ∀ count cause, e = .postCommit count cause → count = d.chunks
  broken : ∀ e, out = .error (.wire e) →
    (∃ fault, e = .io fault) ∧ wire <+: head ++ f.frames (filled pulled) ++ f.terminator
  kinds : ∀ e, out = .error e → (∃ cause, e = .preCommit cause) ∨ e.isPostCommit = true ∨
    e = .cancelled false ∨ ∃ fault, e = .wire (.io fault)
  refuses : (∀ count, out ≠ .ok count) →
    d.stage = .failed ∧ ∀ patience p l, d.run patience p l = (.error .alreadyConsumed, d, l)

/-- A delivery that did not come to its end takes no body any more. -/
theorem refuses_settle (d : Delivery) (failing : ∀ count, out ≠ .ok count) :
    (d.settle out).stage = .failed ∧
      ∀ patience p l, (d.settle out).run patience p l =
        (.error .alreadyConsumed, d.settle out, l) := by
  cases out with
  | ok count => exact absurd rfl (failing count)
  | error e => exact ⟨rfl, fun _ _ _ => rfl⟩
  | stuck => exact ⟨rfl, fun _ _ _ => rfl⟩

theorem accepted_frames (f : Framing) (head : Bytes) (pulled extra : List Bytes) :
    f.accepted head (filled (pulled ++ extra)) (head ++ f.frames (filled pulled)) =
      filled pulled := by
  have stops : ∀ b, (filled extra).head? = some b → ¬ f.frame b <+: [] := by
    intro b first inside
    have some := mem_filled (List.mem_of_head? first)
    exact f.frame_ne_nil some (List.prefix_nil.mp inside)
  have eq : f.accepted head (filled pulled ++ filled extra)
      (head ++ (f.frames (filled pulled) ++ [])) = filled pulled := Framing.accepted_eq stops
  rw [List.append_nil, ← filled_append] at eq
  exact eq

variable {framing : Framing} {head : Option Bytes}

theorem tells_finished {count : Nat} (completes : p.Completes l pulled)
    (chunks : d.chunks = count) (sum : count = (filled pulled).length)
    (output : l'.writer.output =
      l.writer.output ++ (head.getD [] ++ framing.transfer (filled pulled))) :
    Tells framing (head.getD []) p l (.ok count) (d.settle (.ok count)) l' pulled
      (head.getD [] ++ framing.transfer (filled pulled)) := by
  have all : framing.accepted (head.getD []) (filled pulled)
      (head.getD [] ++ framing.transfer (filled pulled)) = filled pulled := by
    have eq : framing.accepted (head.getD []) (filled pulled ++ [])
        (head.getD [] ++ (framing.frames (filled pulled) ++ framing.terminator)) = filled pulled :=
      Framing.accepted_eq nofun
    rwa [List.append_nil] at eq
  refine ⟨completes.supplies, output, ?_, nofun, nofun, nofun, nofun, ?_⟩
  · intro k same
    cases same
    rw [all]
    exact ⟨completes, rfl, sum, chunks, (List.append_assoc _ _ _).symm⟩
  · intro failing
    exact absurd rfl (failing count)

theorem error_committed {e : BodyError} (committed : d.isCommitted = true)
    (cause : (∃ cause, e = d.failure cause) ∨ e = .cancelled d.isCommitted) :
    (∃ cause, e = .postCommit d.chunks cause) ∨ e = .cancelled true := by
  rcases cause with ⟨cause, rfl⟩ | rfl
  · exact .inl ⟨cause, by rw [failure, if_pos committed]⟩
  · exact .inr (by rw [committed])

theorem error_held {e : BodyError} (held : d.isCommitted = false)
    (cause : (∃ cause, e = d.failure cause) ∨ e = .cancelled d.isCommitted) :
    (∃ cause, e = .preCommit cause) ∨ e = .cancelled false := by
  rcases cause with ⟨cause, rfl⟩ | rfl
  · exact .inl ⟨cause, by rw [failure, held, if_neg Bool.false_ne_true]⟩
  · exact .inr (by rw [held])

/-- A failure behind the head leaves whole frames on the wire. -/
theorem tells_open {e : BodyError} (supplies : p.Supplies l (pulled ++ extra))
    (committed : d.isCommitted = true)
    (error : (∃ cause, e = .postCommit d.chunks cause) ∨ e = .cancelled true)
    (chunks : d.chunks = (filled pulled).length)
    (output : l'.writer.output =
      l.writer.output ++ (head.getD [] ++ framing.frames (filled pulled))) :
    Tells framing (head.getD []) p l (.error e) (d.settle (.error e)) l' (pulled ++ extra)
      (head.getD [] ++ framing.frames (filled pulled)) := by
  refine ⟨supplies, output, nofun, ?_, ?_, ?_, ?_, fun failing => refuses_settle d failing⟩
  · intro x same held
    cases same
    rcases error with ⟨_, rfl⟩ | rfl
    · rcases held with ⟨_, other⟩ | other <;> cases other
    · rcases held with ⟨_, other⟩ | other <;> cases other
  · intro x same _
    cases same
    rw [accepted_frames]
    refine ⟨committed, chunks, rfl, ?_⟩
    intro count cause same
    rcases error with ⟨_, rfl⟩ | rfl
    · cases same
      rfl
    · cases same
  · intro x same
    cases same
    rcases error with ⟨_, other⟩ | other <;> cases other
  · intro x same
    cases same
    rcases error with ⟨_, rfl⟩ | rfl
    · exact .inr (.inl rfl)
    · exact .inr (.inl rfl)

/-- A failure before the head leaves nothing on the wire. -/
theorem tells_untouched {e : BodyError} {before : Bytes} (supplies : p.Supplies l pulled)
    (held : d.isCommitted = false)
    (error : (∃ cause, e = .preCommit cause) ∨ e = .cancelled false)
    (output : l'.writer.output = l.writer.output) :
    Tells framing before p l (.error e) (d.settle (.error e)) l' pulled [] := by
  have quiet : l'.writer.output = l.writer.output ++ [] := by rw [List.append_nil, output]
  refine ⟨supplies, quiet, nofun, ?_, ?_, ?_, ?_, fun failing => refuses_settle d failing⟩
  · intro x same _
    cases same
    exact ⟨rfl, held⟩
  · intro x same open_
    cases same
    rcases error with ⟨_, rfl⟩ | rfl <;> cases open_
  · intro x same
    cases same
    rcases error with ⟨_, other⟩ | other <;> cases other
  · intro x same
    cases same
    rcases error with ⟨_, rfl⟩ | rfl
    · exact .inl ⟨_, rfl⟩
    · exact .inr (.inr (.inl rfl))

theorem tells_left {e : BodyError} (supplies : p.Supplies l (pulled ++ extra))
    (cause : (∃ cause, e = d.failure cause) ∨ e = .cancelled d.isCommitted)
    (chunks : d.chunks = (filled pulled).length)
    (kept : d.head = if filled pulled = [] then head else none)
    (output : l'.writer.output ++ d.pending =
      l.writer.output ++ (head.getD [] ++ framing.frames (filled pulled))) :
    ∃ wire, Tells framing (head.getD []) p l (.error e) (d.settle (.error e)) l' (pulled ++ extra)
      wire := by
  cases committed : d.isCommitted with
  | true =>
      have gone : d.head = none := Option.isNone_iff_eq_none.mp committed
      rw [pending_of_head_none gone, List.append_nil] at output
      exact ⟨_, tells_open supplies committed (error_committed committed cause) chunks output⟩
  | false =>
      -- the head can only be held back where no chunk has bytes
      have there : d.head ≠ none := by
        intro gone
        rw [isCommitted, gone] at committed
        cases committed
      have unsent : filled pulled = [] := by
        apply Decidable.byContradiction
        intro some
        exact there (kept.trans (if_neg some))
      have same : d.pending = head.getD [] := by
        rw [pending, kept, if_pos unsent]
      rw [unsent, same, Framing.frames, List.flatMap_nil, List.append_nil] at output
      have quiet := List.append_cancel_right output
      exact ⟨[], tells_untouched supplies committed (error_held committed cause) quiet⟩

theorem tells_broken {wire : Bytes} {last : Nat} {permit : Bool}
    (shows : Shows ⟨last, { framing, head, permit }, p, l⟩ pulled wire)
    (output : l'.writer.output = l.writer.output ++ wire)
    (cause : out = .stuck ∨ ∃ fault, out = .error (.wire (.io fault))) :
    Tells framing (head.getD []) p l out (d.settle out) l' pulled wire := by
  have failing : ∀ count, out ≠ .ok count := by
    rintro count rfl
    rcases cause with other | ⟨_, other⟩ <;> cases other
  have beginning : wire <+: head.getD [] ++ framing.frames (filled pulled) ++ framing.terminator := by
    rcases shows.beginning with part | ⟨_, part⟩
    · exact part.trans (List.prefix_append _ _)
    · rw [List.append_assoc]
      exact part
  have io : ∀ e, out = .error e → ∃ fault, e = .wire (.io fault) := by
    rintro e rfl
    rcases cause with other | ⟨fault, other⟩
    · cases other
    · cases other
      exact ⟨fault, rfl⟩
  refine ⟨shows.supplies, output, fun count ended => absurd ended (failing count), ?_, ?_, ?_, ?_,
    fun _ => refuses_settle d failing⟩
  · intro e failed held
    obtain ⟨fault, rfl⟩ := io e failed
    rcases held with ⟨_, other⟩ | other <;> cases other
  · intro e failed open_
    obtain ⟨fault, rfl⟩ := io e failed
    cases open_
  · intro e failed
    obtain ⟨fault, same⟩ := io _ failed
    cases same
    exact ⟨⟨fault, rfl⟩, beginning⟩
  · intro e failed
    exact .inr (.inr (.inr (io e failed)))

/-- The outcome of a first run tells what is on the wire: after an end in order the head, the
frames of all chunks and the end; after a failure before the head nothing; after one behind it the
head and a whole number of frames; after a failure of the transport a beginning of all that. -/
theorem run_tells (framing : Framing) (head : Option Bytes) (permit : Bool) (patience : Patience)
    (p : Producer) (l : Link) :
    ∃ out d l' pulled wire, ({ framing, head, permit } : Delivery).run patience p l = (out, d, l') ∧
      Tells framing (head.getD []) p l out d l' pulled wire := by
  rcases started : ({ framing, head, permit } : Delivery).start patience p l with ⟨out, d, l'⟩
  have run : ({ framing, head, permit } : Delivery).run patience p l = (out, d.settle out, l') := by
    rw [Delivery.run, started]
  have verdict := verdict_of_start started
  cases verdict with
  | finished pulled completes _ chunks sum output =>
      rw [Nat.zero_add] at sum
      exact ⟨_, _, _, _, _, run, tells_finished completes chunks sum output⟩
  | left pulled extra supplies cause chunks kept output =>
      rw [Nat.zero_add] at chunks
      obtain ⟨wire, tells⟩ := tells_left supplies cause chunks kept output
      exact ⟨_, _, _, _, wire, run, tells⟩
  | broken pulled wire shows output cause =>
      exact ⟨_, _, _, _, wire, run, tells_broken shows output cause⟩

end Delivery

end HttpExchange
