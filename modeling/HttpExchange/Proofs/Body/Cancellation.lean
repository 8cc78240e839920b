import HttpExchange.Proofs.Body.Elapsing
import HttpExchange.Proofs.Body.Order
import HttpExchange.Proofs.Body.Settling

/-!
Cancellation. A delivery looks for one when it is about to ask its producer, and while it waits for
the answer; nowhere else. So a cancellation is met at the next demand, behind a whole number of
frames, unless the demand that is already made is the last one.
-/

namespace HttpExchange

namespace Delivery

variable {patience : Patience} {s s' : Course} {p : Producer} {d d' d₁ : Delivery} {l l' : Link}
  {b : Bytes} {out : Outcome BodyError Nat} {pull : Pull} {events before after : List Event}
  {moment : Nat} {answer : Pull} {permit : Bool}

/-- What holds of a delivery from a demand on, if it holds of the one behind the next round. -/
theorem course_induction (patience : Patience) {motive : Course → Prop}
    (halt : ∀ s out d l, Halt patience s out d l → motive s)
    (round : ∀ s b s', Round patience s b s' → motive s' → motive s) (s : Course) : motive s := by
  rcases looped : s.loop patience with ⟨out, d, l⟩
  obtain ⟨pulled, s', rounds, halts⟩ := rounds_of_loop looped
  clear looped
  induction rounds with
  | none s => exact halt s _ _ _ halts
  | more first rest ih => exact round _ _ _ first (ih halts)

theorem halt_of_isCancelled (cancelled : s.isCancelled patience = true) :
    Halt patience s (.error (.cancelled s.delivery.isCommitted))
      { s.delivery with permit := false } s.link := .cancelled (demand_of_isCancelled cancelled)

theorem loop_of_isCancelled (cancelled : s.isCancelled patience = true) :
    s.loop patience = (.error (.cancelled s.delivery.isCommitted),
      { s.delivery with permit := false }, s.link) := loop_of_halt (halt_of_isCancelled cancelled)

theorem later_of_isCancelled (cancelled : s.isCancelled patience = true) :
    s.later patience = [] := by
  rw [later_of_halt (halt_of_isCancelled cancelled), Course.turn, cancelled]
  rfl

theorem isCancelled_of_permit (asked : s.delivery.permit = true) :
    s.isCancelled patience = true := by
  rw [Course.isCancelled, asked]
  rfl

/-- Between two demands nothing looks for a cancellation: whether it is asked for before a chunk is
written, meanwhile or behind it makes no difference. -/
theorem deliver_cancel (d : Delivery) (b : Bytes) (l : Link) :
    d.cancel.deliver b l = ((d.deliver b l).1, (d.deliver b l).2.1.cancel, (d.deliver b l).2.2) := by
  rcases limit : d.framing.declared?.filter fun n => decide (n < d.written + b.length) with _ | n
  · have same : d.cancel.framing.declared?.filter
        (fun n => decide (n < d.cancel.written + b.length)) = none := limit
    unfold deliver
    rw [same, limit]
    simp only [cancel]
    split <;> rfl
  · have same : d.cancel.framing.declared?.filter
        (fun n => decide (n < d.cancel.written + b.length)) = some n := limit
    unfold deliver
    rw [same, limit]
    rfl

theorem finish_cancel (d : Delivery) (l : Link) :
    d.cancel.finish l = ((d.finish l).1, (d.finish l).2.1.cancel, (d.finish l).2.2) := by
  rcases limit : d.framing.declared?.filter fun n => decide (d.written ≠ n) with _ | n
  · have same : d.cancel.framing.declared?.filter (fun n => decide (d.cancel.written ≠ n)) =
        none := limit
    unfold finish
    rw [same, limit]
    rfl
  · have same : d.cancel.framing.declared?.filter (fun n => decide (d.cancel.written ≠ n)) =
        some n := limit
    unfold finish
    rw [same, limit]
    rfl

theorem turn_demand (s : Course) : s.turn patience = [] ∨ s.isCancelled patience = false ∧
    ∃ answer permit sent,
      s.turn patience = .pull s.link.clock.now answer permit :: sent ∧ Event.Quiet sent := by
  have sending : ∀ (l : Link) (b : Bytes), Event.Quiet (l.sending b) := by
    intro l b
    exact (sends_of_send false rfl).1.quiet
  unfold Course.turn
  cases cancelled : s.isCancelled patience with
  | true => exact .inl rfl
  | false =>
      refine .inr ⟨rfl, ?_⟩
      rcases asked : s.demand patience with ⟨answer, p, d, l⟩
      cases answer with
      | chunk b =>
          refine ⟨_, _, _, rfl, ?_⟩
          split
          · exact nofun
          · exact sending _ _
      | ended =>
          refine ⟨_, _, _, rfl, ?_⟩
          split
          · exact nofun
          · exact sending _ _
      | failed cause | cancelled | stuck => exact ⟨_, _, _, rfl, nofun⟩

theorem turn_early {cancelAt : Nat} (member : .pull moment answer permit ∈ s.turn (.until cancelAt)) :
    moment < cancelAt := by
  rcases turn_demand s with none | ⟨open_, _, _, sent, same, quiet⟩
  · rw [none] at member
    cases member
  · rw [same] at member
    rcases List.mem_cons.mp member with here | behind
    · cases here
      exact now_lt_of_not_isCancelled open_
    · cases quiet _ behind

/-- The producer is asked only before the moment of the cancellation. -/
theorem later_early {cancelAt : Nat} (s : Course) :
    ∀ moment answer permit, .pull moment answer permit ∈ s.later (.until cancelAt) →
      moment < cancelAt := by
  induction s using course_induction (.until cancelAt) with
  | halt s out d l halt =>
      intro moment answer permit member
      rw [later_of_halt halt] at member
      exact turn_early member
  | round s b s' round ih =>
      intro moment answer permit member
      rw [later_of_round round] at member
      rcases List.mem_append.mp member with here | behind
      · exact turn_early here
      · exact ih _ _ _ behind

/-- Behind an answer in which the producer asked for its own cancellation it is asked no more. -/
theorem later_own (s : Course) : ∀ before moment answer after,
    s.later patience = before ++ .pull moment answer true :: after → Event.Quiet after := by
  induction s using course_induction patience with
  | halt s out d l halt =>
      intro before moment answer after split
      rw [later_of_halt halt] at split
      rcases (last_of_halt halt).demand with none | ⟨_, _, _, sent, same, quiet⟩
      · rw [none] at split
        cases List.append_eq_nil_iff.mp split.symm |>.2
      · rw [same] at split
        obtain ⟨_, _, rfl⟩ := Event.split_front quiet rfl split
        exact quiet
  | round s b s' round ih =>
      intro before moment answer after split
      rw [later_of_round round] at split
      have turn := turn_of_round round
      obtain ⟨m, x, granted, sent, same, quiet, met⟩ : ∃ m x granted sent,
          s.turn patience = .pull m (.chunk x) granted :: sent ∧ Event.Quiet sent ∧
            s'.delivery.permit = granted := by
        generalize s.turn patience = events, s'.delivery = d' at turn
        cases turn with
        | skip m granted => exact ⟨m, _, granted, [], rfl, nofun, rfl⟩
        | deliver m granted _ sends => exact ⟨m, _, granted, _, rfl, sends.quiet, rfl⟩
      rw [same] at split
      cases before with
      | nil =>
          rw [List.nil_append, List.cons_append, List.cons.injEq] at split
          obtain ⟨first, rfl⟩ := split
          cases first
          rw [later_of_isCancelled (isCancelled_of_permit met), List.append_nil]
          exact quiet
      | cons first before =>
          rw [List.cons_append, List.cons_append, List.cons.injEq] at split
          obtain ⟨between, _, behind⟩ := Event.split_behind quiet rfl split.2
          exact ih _ _ _ _ behind

/-- A demand that is still open when the cancellation comes is over at that moment, whatever the
producer would have done later. -/
theorem demand_timely (s : Course) (cancelAt : Nat) :
    ∃ (pull : Pull) (p : Producer) (d : Delivery) (l : Link), pull ≠ .stuck ∧
      l.clock.now ≤ max s.link.clock.now cancelAt ∧ ∀ limit, cancelAt ≤ limit →
        (s.limited limit).demand (.until cancelAt) = (pull, p, d, l.limited limit) := by
  obtain ⟨pull, p, d, l, came, asked⟩ := demand_limited s cancelAt
  have within : (l.limited cancelAt).clock.now ≤
      max (s.limited cancelAt).link.clock.now cancelAt :=
    demand_within (asked cancelAt (Nat.le_refl _))
  exact ⟨pull, p, d, l, came, within, asked⟩

/-- Why a demand was the last one although no cancellation met it: the producer failed, or the
length that is announced was exceeded or not reached. -/
inductive Fault (d : Delivery) : Pull → Mishap → Prop where
  | failed (cause : Mishap) : Fault d (.failed cause) cause
  | overrun {b : Bytes} {n : Nat} (declared : d.framing.declared? = some n)
      (more : n < d.written + b.length) : Fault d (.chunk b) (.tooLong n)
  | short {n : Nat} (declared : d.framing.declared? = some n) (other : d.written ≠ n) :
      Fault d .ended (.tooShort d.written n)

/-- How a delivery ends whose writer takes everything: only whole frames are on the wire, and the
end behind them only where the producer came to its own. -/
inductive Ended (d : Delivery) : List Event → Outcome BodyError Nat → Delivery → Prop where
  | cancelled {events : List Event} {d' : Delivery} (whole : Whole d events d')
      (answers : ∀ moment answer permit, .pull moment answer permit ∈ events →
        (∃ b, answer = .chunk b) ∨ answer = .cancelled) :
      Ended d events (.error (.cancelled d'.isCommitted)) d'
  | failed {before : List Event} {d' : Delivery} (whole : Whole d before d') (moment : Nat)
      {answer : Pull} {cause : Mishap} (fault : Fault d' answer cause) (permit : Bool) :
      Ended d (before ++ [.pull moment answer permit]) (.error (d'.failure cause)) d'
  | finished {before sent : List Event} {d' : Delivery} {n : Nat} (moment : Nat) (permit : Bool)
      (quiet : Event.Quiet sent) (committed : d'.isCommitted = true) (count : d'.chunks = n)
      (sum : n = d.chunks + (filled (Event.chunks before)).length)
      (bytes : Event.bytes (before ++ .pull moment .ended permit :: sent) =
        d.pending ++ d.framing.transfer (filled (Event.chunks before))) :
      Ended d (before ++ .pull moment .ended permit :: sent) (.ok n) d'

theorem Last.ends (last : Last d events out d') (settled : Settled out) : Ended d events out d' := by
  have idle : ∀ permit, Whole d [] { d with permit } :=
    fun permit => .nothing rfl rfl rfl rfl rfl
  cases last with
  | unasked permit => exact .cancelled (idle permit) nofun
  | cancelled moment permit =>
      have waited : Whole d [.pull moment .cancelled permit] { d with permit } :=
        .nothing rfl rfl rfl rfl rfl
      refine .cancelled waited ?_
      intro _ _ _ member
      cases List.mem_singleton.mp member
      exact .inr rfl
  | failed moment cause permit => exact .failed (idle permit) moment (.failed cause) permit
  | stuck => exact absurd rfl settled.1
  | overrun moment permit _ declared more =>
      exact .failed (idle permit) moment (.overrun declared more) permit
  | short moment permit declared other =>
      exact .failed (idle permit) moment (.short declared other) permit
  | @undelivered _ _ _ _ _ out _ failed =>
      cases out with
      | ok _ => exact absurd rfl failed
      | error e => exact absurd rfl (settled.2 e)
      | stuck => exact absurd rfl settled.1
  | @ended moment permit sent out sends =>
      cases out with
      | error e => exact absurd rfl (settled.2 e)
      | stuck => exact absurd rfl settled.1
      | ok _ =>
          have ended : Ended d ([] ++ .pull moment .ended permit :: sent) (.ok d.chunks)
              { d with permit, head := none } :=
            .finished moment permit sends.quiet rfl rfl rfl (sends.bytes.2 rfl)
          exact ended

theorem Ended.behind {more : List Event} (whole : Whole d events d₁)
    (chunks : ∀ moment answer permit, .pull moment answer permit ∈ events → ∃ b, answer = .chunk b)
    (ended : Ended d₁ more out d') : Ended d (events ++ more) out d' := by
  cases ended with
  | cancelled whole' answers =>
      refine .cancelled (whole.trans whole') ?_
      intro moment answer permit member
      rcases List.mem_append.mp member with here | behind
      · exact .inl (chunks _ _ _ here)
      · exact answers _ _ _ behind
  | failed whole' moment fault permit =>
      rw [← List.append_assoc]
      exact .failed (whole.trans whole') moment fault permit
  | @finished before sent _ n moment permit quiet committed count sum bytes =>
      have pulled : filled (Event.chunks (events ++ before)) =
          filled (Event.chunks events) ++ filled (Event.chunks before) := by
        rw [Event.chunks_append, filled_append]
      rw [← List.append_assoc]
      refine .finished moment permit quiet committed count ?_ ?_
      · rw [sum, whole.chunks, pulled, List.length_append, Nat.add_assoc]
      · rw [List.append_assoc, Event.bytes_append, bytes, ← List.append_assoc, whole.bytes, pulled,
          whole.framing, Framing.transfer, Framing.transfer, Framing.frames_append]
        simp only [List.append_assoc]

theorem Unfolds.ends (unfolds : Unfolds d events out d') (settled : Settled out) :
    Ended d events out d' := by
  induction unfolds with
  | last last => exact last.ends settled
  | turn turn rest ih =>
      refine (ih settled).behind turn.whole ?_
      obtain ⟨m, b, granted, sent, rfl, quiet, _⟩ := turn.demand
      intro moment answer permit member
      rcases List.mem_cons.mp member with here | behind
      · cases here
        exact ⟨b, rfl⟩
      · cases quiet _ behind

/-- Goes on from a demand, where a cancellation is asked for behind so many more answers of the
producer: before it is asked again, at whatever point of what is done with the last answer. -/
def Course.interrupted (patience : Patience) : Nat → Course →
    Outcome BodyError Nat × Delivery × Link
  | 0, s => Course.loop patience { s with delivery := s.delivery.cancel }
  | n + 1, s => match s.next patience with
    | some s' => interrupted patience n s'
    | none => s.loop patience

/-- The delivery is cancelled behind these rounds, and nothing is done any more. -/
structure CutAfter (patience : Patience) (s : Course) (pulled : List Bytes) (s' : Course)
    (ends : Outcome BodyError Nat × Delivery × Link) : Prop where
  rounds : Rounds patience s pulled s'
  sent : Sent s (filled pulled) s'
  ends : ends = (.error (.cancelled s'.delivery.isCommitted),
    { s'.delivery with permit := false }, s'.link)

/-- It is met at the next demand; if there is none, the delivery had already come to its end. -/
theorem interrupted_cases (n : Nat) (s : Course) :
    (∃ pulled s', pulled.length = n ∧
        CutAfter patience s pulled s' (s.interrupted patience n)) ∨
      s.interrupted patience n = s.loop patience ∧
        ∃ pulled s' out d l, pulled.length < n ∧ Rounds patience s pulled s' ∧
          Halt patience s' out d l ∧ s.loop patience = (out, d, l) := by
  induction n generalizing s with
  | zero =>
      have met : ({ s with delivery := s.delivery.cancel } : Course).isCancelled patience = true :=
        isCancelled_of_permit rfl
      exact .inl ⟨[], s, rfl, .none s, .refl s, loop_of_isCancelled met⟩
  | succ n ih =>
      rcases following : s.next patience with _ | s₁
      · refine .inr ⟨by rw [Course.interrupted, following], ?_⟩
        rcases looped : s.loop patience with ⟨out, d, l⟩
        obtain ⟨pulled, s', rounds, halt⟩ := rounds_of_loop looped
        cases rounds with
        | none s => exact ⟨[], s, out, d, l, Nat.succ_pos n, .none s, halt, rfl⟩
        | more first rest => cases following.symm.trans (Course.next_of_round first)
      · obtain ⟨b, round⟩ := Course.round_of_next following
        have same : s.interrupted patience (n + 1) = s₁.interrupted patience n := by
          rw [Course.interrupted, following]
        rw [same, loop_of_round round]
        rcases ih s₁ with ⟨pulled, s', rfl, cut⟩ | ⟨through, pulled, s', out, d, l, fewer, rounds, ends⟩
        · have rounds := Rounds.more round cut.rounds
          exact .inl ⟨b :: pulled, s', rfl, rounds, sent_of_rounds rounds, cut.ends⟩
        · exact .inr ⟨through, b :: pulled, s', out, d, l, Nat.succ_lt_succ fewer,
            .more round rounds, ends⟩

/-- A run meets its cancellation: from its moment on the producer is not asked any more, nor when it
asked for the cancellation itself, and not at all when it was asked for before the run. -/
structure Meets (d : Delivery) (cancelAt : Nat) (events : List Event)
    (out : Outcome BodyError Nat) (d' : Delivery) : Prop where
  early : ∀ moment answer permit, .pull moment answer permit ∈ events → moment < cancelAt
  own : ∀ before moment answer after, events = before ++ .pull moment answer true :: after →
    Event.Quiet after
  before : d.permit = true → Event.Quiet events ∧ out = .error (.cancelled d.isCommitted)
  ended : Ended d events out d'
  told : ∀ committed, out = .error (.cancelled committed) → Event.bytes events =
    if committed then d.pending ++ d.framing.frames (filled (Event.chunks events)) else []

theorem Whole.settle (whole : Whole d events d') (out : Outcome BodyError Nat) :
    Whole d events (d'.settle out) := ⟨whole.framing, whole.head, whole.chunks, whole.bytes⟩

theorem Fault.settle {cause : Mishap} (fault : Fault d answer cause) (out : Outcome BodyError Nat) :
    Fault (d.settle out) answer cause := by
  cases fault with
  | failed cause => exact .failed cause
  | overrun declared more => exact .overrun declared more
  | short declared other => exact .short declared other

theorem Ended.settle (ended : Ended d events out d') (given : Outcome BodyError Nat) :
    Ended d events out (d'.settle given) := by
  cases ended with
  | cancelled whole answers => exact .cancelled (whole.settle given) answers
  | failed whole moment fault permit =>
      exact .failed (whole.settle given) moment (fault.settle given) permit
  | finished moment permit quiet committed count sum bytes =>
      exact .finished moment permit quiet committed count sum bytes

/-- A cancellation tells whether the head is on the wire, and with it all chunks that were pulled. -/
theorem Ended.told (ended : Ended d events out d') {committed : Bool}
    (same : out = .error (.cancelled committed)) : Event.bytes events =
      if committed then d.pending ++ d.framing.frames (filled (Event.chunks events)) else [] := by
  cases ended with
  | cancelled whole answers =>
      cases same
      cases head : d'.isCommitted with
      | true => exact whole.committed head
      | false => exact (whole.held head).2
  | failed =>
      unfold failure at same
      split at same <;> cases same
  | finished => cases same

theorem meets_of_loop {cancelAt : Nat} (eq : s.loop (.until cancelAt) = (out, d', l'))
    (settled : Settled out) :
    Meets s.delivery cancelAt (.flush (.ok ()) :: s.later (.until cancelAt)) out (d'.settle out) := by
  have ended : Ended s.delivery (.flush (.ok ()) :: s.later (.until cancelAt)) out d' := by
    have first : Whole s.delivery [.flush (.ok ())] s.delivery := .nothing rfl rfl rfl rfl rfl
    refine .behind first ?_ ((unfolds_of_loop eq).ends settled)
    intro moment answer permit member
    cases List.mem_singleton.mp member
  refine ⟨?_, ?_, ?_, ended.settle out, fun _ same => ended.told same⟩
  · intro moment answer permit member
    rcases List.mem_cons.mp member with other | here
    · cases other
    · exact later_early s _ _ _ here
  · intro before moment answer after split
    obtain ⟨between, _, behind⟩ := Event.split_behind (Event.quiet_flush _) rfl split
    exact later_own s _ _ _ _ behind
  · intro asked
    have met : s.isCancelled (.until cancelAt) = true := isCancelled_of_permit asked
    refine ⟨?_, congrArg Prod.fst (eq.symm.trans (loop_of_isCancelled met))⟩
    rw [later_of_isCancelled met]
    exact Event.quiet_flush _

theorem meets_of_run {cancelAt : Nat} (ready : d.stage = .ready)
    (eq : d.run (.until cancelAt) p l = (out, d', l')) (settled : Settled out) :
    Meets d cancelAt (d.history (.until cancelAt) p l) out d' := by
  have ran := ran_of_run eq
  generalize d.history (.until cancelAt) p l = events at ran ⊢
  cases ran with
  | refused stage | repeated stage => cases ready.symm.trans stage
  | @unflushed _ wired _ failed =>
      cases wired with
      | ok _ => exact absurd rfl failed
      | error e => exact absurd rfl (settled.2 e)
      | stuck => exact absurd rfl settled.1
  | begun _ _ looped => exact meets_of_loop looped settled

/-- A cancellation is atomic at the boundaries of chunks. A run that is cancelled at any moment, by
its producer or before it starts, comes to an end onto a writer that only ever waits, asks its
producer no more, and leaves whole frames on the wire; a demand that is open then is given up. The
same holds of a cancellation that is asked for at any point between two demands, where nothing that
is done depends on it. -/
theorem cancellation_atomic (framing : Framing) (head : Option Bytes) (permit : Bool)
    (cancelAt : Nat) (p : Producer) (l : Link) (willing : l.writer.rule.Willing) :
    (∃ enough, ∀ limit, enough ≤ limit → ∃ out d' l',
      ({ framing, head, permit } : Delivery).run (.until cancelAt) p (l.limited limit) =
          (out, d', l') ∧
        l'.writer.output = l.writer.output ++ Event.bytes
          (({ framing, head, permit } : Delivery).history (.until cancelAt) p (l.limited limit)) ∧
        Meets { framing, head, permit } cancelAt
          (({ framing, head, permit } : Delivery).history (.until cancelAt) p (l.limited limit))
          out d') ∧
      (∀ s : Course, ∃ (pull : Pull) (p : Producer) (d : Delivery) (l : Link), pull ≠ .stuck ∧
        l.clock.now ≤ max s.link.clock.now cancelAt ∧ ∀ limit, cancelAt ≤ limit →
          (s.limited limit).demand (.until cancelAt) = (pull, p, d, l.limited limit)) ∧
      (∀ (patience : Patience) (n : Nat) (s : Course),
        (∃ pulled s', pulled.length = n ∧
            CutAfter patience s pulled s' (s.interrupted patience n)) ∨
          s.interrupted patience n = s.loop patience ∧
            ∃ pulled s' out d l, pulled.length < n ∧ Rounds patience s pulled s' ∧
              Halt patience s' out d l ∧ s.loop patience = (out, d, l)) ∧
      (∀ (d : Delivery) (b : Bytes) (l : Link), d.cancel.deliver b l =
        ((d.deliver b l).1, (d.deliver b l).2.1.cancel, (d.deliver b l).2.2)) ∧
      ∀ (d : Delivery) (l : Link), d.cancel.finish l =
        ((d.finish l).1, (d.finish l).2.1.cancel, (d.finish l).2.2) := by
  refine ⟨?_, fun s => demand_timely s cancelAt, fun patience n s => interrupted_cases n s,
    deliver_cancel, finish_cancel⟩
  obtain ⟨enough, settles⟩ := run_settles framing head permit cancelAt p willing
  refine ⟨enough, fun limit late => ?_⟩
  have settled := settles limit late
  rcases ran : ({ framing, head, permit } : Delivery).run (.until cancelAt) p (l.limited limit) with
    ⟨out, d', l'⟩
  rw [ran] at settled
  exact ⟨out, d', l', rfl, output_of_run ran, meets_of_run rfl ran settled⟩

def slowLink (limit : Nat) : Link where
  clock := { limit }
  reader := { arrivals := [], capacity := 1 }
  writer := { rule := { stall := some (0, 5) } }

/-- Cancelled while its first chunk is being written, a run still comes to an end, in order. -/
theorem cancellation_atomic_slow :
    (slowLink 0).writer.rule.Willing ∧
      ∃ enough, ∀ limit, enough ≤ limit → ∃ out d',
        Meets { framing := .chunked, head := some [72] } 3
          (({ framing := .chunked, head := some [72] } : Delivery).history (.until 3)
            (.script [.chunk [97], .chunk [98]]) ((slowLink 0).limited limit)) out d' := by
  have willing : (slowLink 0).writer.rule.Willing := ⟨nofun, rfl, rfl, rfl, nofun, nofun⟩
  obtain ⟨enough, comes⟩ := (cancellation_atomic .chunked (some [72]) false 3
    (.script [.chunk [97], .chunk [98]]) (slowLink 0) willing).1
  refine ⟨willing, enough, fun limit late => ?_⟩
  obtain ⟨out, d', _, _, _, meets⟩ := comes limit late
  exact ⟨out, d', meets⟩

-- the chunk that is being written is whole, and the next one is not asked for
example : (({ framing := .chunked, head := some [72] } : Delivery).run (.until 3)
    (.script [.chunk [97], .chunk [98]]) (slowLink 9)).2.2.writer.output =
      [72, 49, 13, 10, 97, 13, 10] := by
  decide +kernel

end Delivery

end HttpExchange
