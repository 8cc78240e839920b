import HttpExchange.Proofs.Body.Steady
import HttpExchange.Proofs.Body.Timing

/-!
Bodies whose length is announced. At no moment is more on the wire than was announced. A body of
that length is sent whole; one that is longer or shorter is refused where that comes out, and what
was sent of it before are whole chunks.
-/

namespace HttpExchange

namespace Framing

variable {f : Framing} {n : Nat}

/-- A framing with a length of its own puts nothing around the bytes. -/
theorem plain_of_declared (declared : f.declared? = some n) : f ≠ .chunked := by
  rintro rfl
  cases declared

theorem frames_of_declared (declared : f.declared? = some n) (chunks : List Bytes) :
    f.frames chunks = chunks.flatten := frames_of_ne_chunked (plain_of_declared declared)

theorem terminator_of_declared (declared : f.declared? = some n) : f.terminator = [] := by
  cases f with
  | chunked | untilClose => cases declared
  | empty | length => rfl

theorem frame_of_declared (declared : f.declared? = some n) (b : Bytes) : f.frame b = b := by
  cases f with
  | chunked | untilClose => cases declared
  | empty | length => rfl

end Framing

namespace Producer

variable {p q : Producer} {l m : Link} {b : Bytes}

theorem Gives.split {before after : List Bytes}
    (gives : p.Gives l (before ++ b :: after) q m) :
    ∃ p₁ l₁ p₂ l₂, p.Gives l before p₁ l₁ ∧ p₁.Answers l₁ (.chunk b) p₂ l₂ := by
  induction before generalizing p l with
  | nil =>
      cases gives with
      | chunk answers rest => exact ⟨p, l, _, _, .none p l, answers⟩
  | cons first before ih =>
      cases gives with
      | chunk answers rest =>
          obtain ⟨p₁, l₁, p₂, l₂, gives, here⟩ := ih rest
          exact ⟨p₁, l₁, p₂, l₂, .chunk answers gives, here⟩

end Producer

namespace Delivery

variable {patience : Patience} {s s' : Course} {p p' q q' : Producer} {d d' : Delivery}
  {l l' m m' : Link} {b : Bytes} {chunks pulled : List Bytes} {out : Outcome BodyError Nat}
  {n : Nat}

theorem fallsShort_eq_false_iff :
    d.fallsShort = false ↔ ∀ n, d.framing.declared? = some n → d.written = n := by
  cases declared : d.framing.declared? <;> simp [fallsShort, declared]

theorem within_of_round (declared : s.delivery.framing.declared? = some n)
    (round : Round patience s b s') (within : s.delivery.written ≤ n) :
    s'.delivery.written ≤ n := by
  cases round with
  | skip asked =>
      obtain ⟨⟨permit, rfl⟩, _, _⟩ := demand_spec asked
      exact within
  | deliver asked some wrote passed =>
      obtain ⟨⟨permit, rfl⟩, _, _⟩ := demand_spec asked
      obtain ⟨fits, _, rfl⟩ := sent_of_deliver wrote passed
      exact overruns_eq_false_iff.mp fits n declared

theorem within_of_rounds (declared : s.delivery.framing.declared? = some n)
    (rounds : Rounds patience s pulled s') (within : s.delivery.written ≤ n) :
    s'.delivery.written ≤ n := by
  induction rounds with
  | none s => exact within
  | more first rest ih =>
      refine ih ?_ (within_of_round declared first within)
      rw [(sent_of_round first).framing]
      exact declared

/-- Of the bytes of a body no more than its length lie behind the head, and what was added to the
wire since is a beginning of them. -/
def Course.Adds (s : Course) (n : Nat) (l : Link) : Prop :=
  ∃ next part : Bytes, s.delivery.written + next.length ≤ n ∧
    part <+: s.delivery.pending ++ next ∧ l.writer.output = s.link.writer.output ++ part

theorem adds_nothing (within : s.delivery.written ≤ n)
    (output : l.writer.output = s.link.writer.output) : s.Adds n l :=
  ⟨[], [], within, List.nil_prefix, output.trans (List.append_nil _).symm⟩

theorem adds_chunk (declared : s.delivery.framing.declared? = some n)
    (asked : s.demand patience = (.chunk b, p, d, l)) (fits : d.overruns b = false) {part : Bytes}
    (put : Put l (d.pending ++ d.framing.frame b) part l') (output : m.writer.output =
      l'.writer.output) : s.Adds n m := by
  obtain ⟨⟨permit, rfl⟩, before, _⟩ := demand_spec asked
  have beginning := put.beginning
  rw [Framing.frame_of_declared declared] at beginning
  have room : s.delivery.written + b.length ≤ n := overruns_eq_false_iff.mp fits n declared
  refine ⟨b, part, room, beginning, ?_⟩
  rw [output, put.output, before]

theorem adds_of_halt (declared : s.delivery.framing.declared? = some n)
    (within : s.delivery.written ≤ n) (halt : Halt patience s out d l) : s.Adds n l := by
  cases halt with
  | failed asked | cancelled asked | stuck asked =>
      exact adds_nothing within (demand_spec asked).2.1
  | ended asked finished =>
      obtain ⟨⟨permit, rfl⟩, before, _⟩ := demand_spec asked
      rcases finish_cases finished with ⟨_, rfl, _⟩ | ⟨_, part, put, _⟩
      · exact adds_nothing within before
      · have beginning := put.beginning
        rw [Framing.terminator_of_declared declared] at beginning
        exact ⟨[], part, within, beginning, by rw [put.output, before]⟩
  | @refused p d d₁ l l₁ b e asked some wrote =>
      rcases deliver_fits_or d₁ b l₁ with ⟨_, _, _, _, refused⟩ | ⟨fits, _⟩
      · cases refused.symm.trans wrote
        exact adds_nothing within (demand_spec asked).2.1
      · rcases deliver_error wrote with ⟨_, rfl, _⟩ | ⟨_, _, part, put⟩
        · exact adds_nothing within (demand_spec asked).2.1
        · exact adds_chunk declared asked fits put rfl
  | @caught p d d₁ l l₁ b asked some wrote =>
      rcases deliver_fits_or d₁ b l₁ with ⟨_, _, _, _, refused⟩ | ⟨fits, _⟩
      · cases refused.symm.trans wrote
      · obtain ⟨_, part, put⟩ := deliver_stuck wrote
        exact adds_chunk declared asked fits put rfl
  | unflushed asked some wrote passed | unpassed asked some wrote passed =>
      obtain ⟨fits, _, _⟩ := sent_of_deliver wrote passed
      have flushed := (put_flush passed).1.output
      rw [List.append_nil] at flushed
      exact adds_chunk declared asked fits (deliver_ok wrote).2 flushed

/-- What some rounds and the demand behind them have added to the wire. -/
theorem Course.Adds.behind (declared : s.delivery.framing.declared? = some n)
    (rounds : Rounds patience s pulled s') (adds : s'.Adds n l) : s.Adds n l := by
  obtain ⟨next, part, room, beginning, output⟩ := adds
  have before := sent_of_rounds rounds
  obtain ⟨wire, joint, within, _⟩ := wire_of_part before beginning
  rw [Framing.frames_of_declared declared] at within
  refine ⟨(filled pulled).flatten ++ next, wire, ?_, within, output.trans joint⟩
  rw [List.length_append, ← Nat.add_assoc, ← before.written]
  exact room

theorem adds_of_loop (declared : s.delivery.framing.declared? = some n)
    (within : s.delivery.written ≤ n) (eq : s.loop patience = (out, d', l')) : s.Adds n l' := by
  obtain ⟨pulled, s', rounds, halt⟩ := rounds_of_loop eq
  have declared' : s'.delivery.framing.declared? = some n := by
    rw [(sent_of_rounds rounds).framing]
    exact declared
  have adds := adds_of_halt declared' (within_of_rounds declared rounds within) halt
  exact adds.behind declared rounds

/-- At no moment of a run is more of a body on the wire than was announced, whatever the producer
and the writer do. -/
theorem capped_of_run {f : Framing} (declared : f.declared? = some n) (head : Option Bytes)
    (patience : Patience) (p : Producer) (l : Link) {trace : List WireEvent}
    (beginning : trace <+:
      (({ framing := f, head } : Delivery).run patience p l).2.2.writer.events) :
    ∃ body : Bytes, body.length ≤ n ∧
      Writer.bytesOf trace <+: l.writer.output ++ (head.getD [] ++ body) := by
  let d : Delivery := { framing := f, head }
  rcases ran : d.run patience p l with ⟨out, d', l'⟩
  obtain ⟨next, part, room, within, output⟩ : Course.Adds ⟨l.clock.now, d, p, l⟩ n l' := by
    have started := ran_of_run ran
    generalize d.history patience p l = events at started
    cases started with
    | refused stage | repeated stage => cases stage
    | unflushed _ _ flushed =>
        have same := (put_flush flushed).1.output
        rw [List.append_nil] at same
        exact adds_nothing (Nat.zero_le n) same
    | begun _ flushed looped =>
        have same := (put_flush flushed).1.output
        rw [List.append_nil] at same
        obtain ⟨next, part, room, within, output⟩ := adds_of_loop declared (Nat.zero_le n) looped
        exact ⟨next, part, room, within, output.trans (congrArg (· ++ part) same)⟩
  refine ⟨next, ?_, ?_⟩
  · rwa [show d.written = 0 from rfl, Nat.zero_add] at room
  · rw [show d.run patience p l = _ from ran] at beginning
    obtain ⟨more, all⟩ := beginning
    have whole : Writer.bytesOf trace ++ Writer.bytesOf more = l.writer.output ++ part := by
      rw [← Writer.bytesOf_append, all]
      exact output
    have first : Writer.bytesOf trace <+: l.writer.output ++ part := ⟨_, whole⟩
    exact first.trans ((List.prefix_append_right_inj _).mpr within)

/-- The end of a body that has its length is announced. -/
theorem loop_of_reached (steady : s.Steady) (ends : s.producer.Answers s.link .ended q m)
    (reached : s.delivery.fallsShort = false) :
    ∃ (enough : Nat) (d : Delivery) (l : Link),
      l.writer.output =
        s.link.writer.output ++ (s.delivery.pending ++ s.delivery.framing.terminator) ∧
      ∀ limit, enough ≤ limit →
        (s.limited limit).loop .endless = (.ok s.delivery.chunks, d, l.limited limit) := by
  obtain ⟨enough, s₁, _, _, steady₁, same, quiet, answer⟩ :=
    demand_of_steady steady ends Pull.noConfusion
  obtain ⟨enough', l, sends⟩ :=
    send_willing steady₁.willing (s₁.delivery.pending ++ s₁.delivery.framing.terminator)
  obtain ⟨_, put, whole, _⟩ := put_send (sends enough' (Nat.le_refl _))
  cases whole rfl
  have output : l.writer.output =
      s₁.link.writer.output ++ (s₁.delivery.pending ++ s₁.delivery.framing.terminator) := put.output
  rw [same, quiet] at output
  refine ⟨max enough enough', { s₁.delivery with head := none }, l, output, fun limit late => ?_⟩
  rcases finish_reaches_or s₁.delivery (s₁.link.limited limit) with
    ⟨short, _⟩ | ⟨_, out, l₂, sent, finished⟩
  · rw [same] at short
    exact absurd (short.symm.trans reached) Bool.noConfusion
  · cases (sends limit (by omega)).symm.trans sent
    have looped := loop_of_halt (.ended (answer limit (by omega)) finished)
    rw [same] at looped ⊢
    exact looped

/-- The end of a body that is shorter is not announced. -/
theorem loop_of_short (steady : s.Steady) (ends : s.producer.Answers s.link .ended q m)
    (declared : s.delivery.framing.declared? = some n) (other : s.delivery.written ≠ n) :
    ∃ (enough : Nat) (l : Link), l.writer.output = s.link.writer.output ∧
      ∀ limit, enough ≤ limit →
        (s.limited limit).loop .endless =
          (.error (s.delivery.failure (.tooShort s.delivery.written n)), s.delivery,
            l.limited limit) ∧
        Event.answers ((s.limited limit).later .endless) = [.ended] := by
  obtain ⟨enough, s₁, _, _, _, same, quiet, answer⟩ :=
    demand_of_steady steady ends Pull.noConfusion
  rw [same] at answer
  refine ⟨enough, s₁.link, quiet, fun limit late => ?_⟩
  have asked := answer limit late
  rcases finish_reaches_or s.delivery (s₁.link.limited limit) with
    ⟨short, k, declared', _, finished⟩ | ⟨reached, _⟩
  · cases declared.symm.trans declared'
    have halt := Halt.ended asked finished
    refine ⟨loop_of_halt halt, ?_⟩
    rw [later_of_halt halt, turn_ended asked, short]
    rfl
  · exact absurd (fallsShort_eq_false_iff.mp reached n declared) other

/-- A chunk that goes beyond the length is not written, and it is the last one that is asked for. -/
theorem loop_of_overrun (steady : s.Steady) (answers : s.producer.Answers s.link (.chunk b) q m)
    (declared : s.delivery.framing.declared? = some n) (more : n < s.delivery.written + b.length)
    (within : s.delivery.written ≤ n) :
    ∃ (enough : Nat) (l : Link), l.writer.output = s.link.writer.output ∧
      ∀ limit, enough ≤ limit →
        (s.limited limit).loop .endless =
          (.error (s.delivery.failure (.tooLong n)), s.delivery, l.limited limit) ∧
        Event.answers ((s.limited limit).later .endless) = [.chunk b] := by
  obtain ⟨enough, s₁, _, _, _, same, quiet, answer⟩ :=
    demand_of_steady steady answers Pull.noConfusion
  rw [same] at answer
  have some : b ≠ [] := by
    rintro rfl
    rw [List.length_nil] at more
    omega
  refine ⟨enough, s₁.link, quiet, fun limit late => ?_⟩
  have asked := answer limit late
  rcases deliver_fits_or s.delivery b (s₁.link.limited limit) with
    ⟨beyond, k, declared', _, refused⟩ | ⟨fits, _⟩
  · cases declared.symm.trans declared'
    have halt := Halt.refused asked some refused
    refine ⟨loop_of_halt halt, ?_⟩
    rw [later_of_halt halt, turn_overrun asked beyond]
    rfl
  · have := overruns_eq_false_iff.mp fits n declared
    omega

/-- What is told of a body that is refused behind these chunks, and what is on the wire then. -/
structure Refused (d : Delivery) (l : Link) (chunks : List Bytes) (cause : Mishap)
    (out : Outcome BodyError Nat) (l' : Link) : Prop where
  /-- The chunks are there whole, behind the head; where none has bytes, nothing is written. -/
  output : l'.writer.output =
    l.writer.output ++ if filled chunks = [] then [] else d.pending ++ chunks.flatten
  /-- With the head still held back nothing was committed; else the chunks are told. -/
  told : out = .error (if d.head.isSome = true ∧ filled chunks = [] then .preCommit cause
    else .postCommit (filled chunks).length cause)

theorem Refused.not_ok {cause : Mishap} (refused : Refused d l chunks cause out l') (count : Nat) :
    out ≠ .ok count := by
  rw [refused.told]
  exact nofun

theorem Course.Behind.refused {enough : Nat} (behind : s.Behind d p l chunks enough)
    (declared : d.framing.declared? = some n) {cause : Mishap}
    (output : l'.writer.output = s.link.writer.output) :
    Refused d l chunks cause (.error (s.delivery.failure cause)) l' := by
  have sent := behind.output
  rw [Framing.frames_of_declared declared, flatten_filled] at sent
  have committed : s.delivery.isCommitted = s.delivery.head.isNone := rfl
  by_cases none : filled chunks = []
  · have head := behind.head
    rw [if_pos none] at head
    have empty : chunks.flatten = [] := by
      rw [← flatten_filled, none]
      rfl
    rw [pending_of_head_eq head, empty, List.append_nil] at sent
    refine ⟨?_, ?_⟩
    · rw [if_pos none, output, List.append_nil]
      exact List.append_cancel_right sent
    · rw [failure, committed, head, behind.count]
      cases d.head <;> simp [none]
  · have head := behind.head
    rw [if_neg none] at head
    rw [pending_of_head_none head, List.append_nil] at sent
    refine ⟨?_, ?_⟩
    · rw [if_neg none, output, sent]
    · rw [failure, committed, head, behind.count]
      simp [none]

/-- A body that is not refused: nothing but the transport can fail. -/
def Unrefused (out : Outcome BodyError Nat) : Prop :=
  ∀ e, out = .error e → ∃ fault, e = .wire (.io fault)

theorem unrefused_of_ended (asked : s.demand patience = (.ended, p, d, l))
    (reached : d.fallsShort = false) : Unrefused (s.loop patience).1 := by
  rcases finish_reaches_or d l with ⟨short, _⟩ | ⟨_, wired, l', sent, finished⟩
  · exact absurd (short.symm.trans reached) Bool.noConfusion
  · rw [loop_of_halt (.ended asked finished)]
    intro e failed
    cases wired with
    | ok | stuck => cases failed
    | error wire =>
        cases failed
        obtain ⟨_, _, _, io⟩ := put_send sent
        obtain ⟨fault, rfl⟩ := io wire rfl
        exact ⟨fault, rfl⟩

theorem unrefused_of_chunk (asked : s.demand patience = (.chunk b, p, d, l)) (some : b ≠ [])
    (fits : d.overruns b = false)
    (later : ∀ s', Round patience s b s' → Unrefused (s'.loop patience).1) :
    Unrefused (s.loop patience).1 := by
  rcases wrote : d.deliver b l with ⟨_ | e | _, d₁, l₁⟩
  · rcases passed : l₁.flush with ⟨_ | e | _, l₂⟩
    · have round := Round.deliver asked some wrote passed
      rw [loop_of_round round]
      exact later _ round
    · rw [loop_of_halt (.unflushed asked some wrote passed)]
      rintro _ ⟨⟩
      obtain ⟨fault, rfl⟩ := (put_flush passed).2 e rfl
      exact ⟨fault, rfl⟩
    · rw [loop_of_halt (.unpassed asked some wrote passed)]
      exact nofun
  · rw [loop_of_halt (.refused asked some wrote)]
    rintro _ ⟨⟩
    obtain ⟨wired, sent, _, same, _⟩ := unsent_of_deliver fits wrote nofun
    cases wired with
    | ok | stuck => cases same
    | error wire =>
        cases same
        obtain ⟨_, _, _, io⟩ := put_send sent
        obtain ⟨fault, rfl⟩ := io wire rfl
        exact ⟨fault, rfl⟩
  · rw [loop_of_halt (.caught asked some wrote)]
    exact nofun

theorem demand_of_ask (still : s.delivery.permit = false)
    (answer : s.producer.ask s.link = (pull, p, false, l)) :
    s.demand .endless = (pull, p, s.delivery, l) := by
  have same : ({ s.delivery with permit := false } : Delivery) = s.delivery := by rw [← still]
  have asked : s.producer.askWithin none s.link = (pull, p, false, l) := answer
  rw [← same]
  exact demand_of_askWithin still asked

/-- Known bytes are not refused under their own length. -/
theorem unrefused_known (known : s.producer = .known b) (still : s.delivery.permit = false)
    (size : ∀ n, s.delivery.framing.declared? = some n → s.delivery.written + b.length = n) :
    Unrefused (s.loop .endless).1 := by
  have asked : s.demand .endless =
      (if b.isEmpty then .ended else .chunk b, .script [], s.delivery, s.link) := by
    apply demand_of_ask still
    rw [known]
    rfl
  by_cases empty : b = []
  · subst empty
    exact unrefused_of_ended asked (fallsShort_eq_false_iff.mpr size)
  · rw [List.isEmpty_eq_false_iff.mpr empty] at asked
    have fits : s.delivery.overruns b = false :=
      overruns_eq_false_iff.mpr fun n declared => Nat.le_of_eq (size n declared)
    refine unrefused_of_chunk asked empty fits fun s' round => ?_
    cases round with
    | skip => exact absurd rfl empty
    | deliver asked' _ wrote passed =>
        cases asked.symm.trans asked'
        obtain ⟨_, _, rfl⟩ := sent_of_deliver wrote passed
        exact unrefused_of_ended (demand_of_ask still rfl) (fallsShort_eq_false_iff.mpr size)

/-- A body of known bytes, sent as they are announced, is never refused. -/
theorem run_known (b : Bytes) (head : Option Bytes) (l : Link) :
    Unrefused (({ framing := (Body.ofBytes b).framing, head } : Delivery).run .endless
      (Body.ofBytes b).producer l).1 := by
  have size : ∀ n, (Body.ofBytes b).framing.declared? = some n → 0 + b.length = n := by
    intro n declared
    cases b <;> cases declared <;> exact Nat.zero_add _
  unfold run start
  rcases flushed : l.flush with ⟨_ | e | _, l₁⟩
  · exact unrefused_known (s := ⟨l.clock.now, { framing := (Body.ofBytes b).framing, head },
      .known b, l₁⟩) rfl rfl size
  · rintro _ ⟨⟩
    obtain ⟨fault, rfl⟩ := (put_flush flushed).2 e rfl
    exact ⟨fault, rfl⟩
  · exact nofun

theorem exists_beyond (more : n < chunks.flatten.length) :
    ∃ before b after, chunks = before ++ b :: after ∧ before.flatten.length ≤ n ∧
      n < before.flatten.length + b.length := by
  induction chunks generalizing n with
  | nil => exact absurd more (Nat.not_lt_zero n)
  | cons first chunks ih =>
      rw [List.flatten_cons, List.length_append] at more
      by_cases here : n < first.length
      · exact ⟨[], first, chunks, rfl, Nat.zero_le n, by rwa [List.flatten_nil, List.length_nil,
          Nat.zero_add]⟩
      · obtain ⟨before, b, after, rfl, within, beyond⟩ := ih (n := n - first.length) (by omega)
        refine ⟨first :: before, b, after, rfl, ?_, ?_⟩
        · rw [List.flatten_cons, List.length_append]
          omega
        · rw [List.flatten_cons, List.length_append]
          omega

section Announced

variable {f : Framing} (head : Option Bytes)

theorem run_of_reached (declared : f.declared? = some n) (willing : l.writer.rule.Willing)
    (gives : p.Gives l chunks q m) (ends : q.Answers m .ended q' m')
    (reached : chunks.flatten.length = n) :
    let d : Delivery := { framing := f, head }
    ∃ enough, ∀ limit, enough ≤ limit → ∃ d' l',
      d.run .endless p (l.limited limit) = (.ok (filled chunks).length, d', l') ∧
        l'.writer.output = l.writer.output ++ (d.pending ++ chunks.flatten) := by
  intro d
  have fits : ∀ k, f.declared? = some k → chunks.flatten.length ≤ k := by
    intro k declared'
    cases declared.symm.trans declared'
    exact Nat.le_of_eq reached
  obtain ⟨enough, s, rfl, still, behind⟩ := behind_of_gives head willing gives fits
  obtain ⟨m₁, ends₁, _⟩ := ends.congr still
  have whole : s.delivery.fallsShort = false := by
    rw [fallsShort_eq_false_iff, behind.framing, behind.written]
    intro k declared'
    cases declared.symm.trans declared'
    exact reached
  obtain ⟨enough', d', l', output, looped⟩ := loop_of_reached behind.steady ends₁ whole
  refine ⟨max enough enough', fun limit late => ?_⟩
  have ran := behind.runs limit (by omega) _ d' _ (looped limit (by omega))
  rw [behind.count] at ran
  refine ⟨_, _, ran, ?_⟩
  have sent := behind.output
  rw [Framing.frames_of_declared declared, flatten_filled] at sent
  rw [show (l'.limited limit).writer = l'.writer from rfl, output, behind.framing,
    Framing.terminator_of_declared declared, List.append_nil, sent]

theorem run_of_short (declared : f.declared? = some n) (willing : l.writer.rule.Willing)
    (gives : p.Gives l chunks q m) (ends : q.Answers m .ended q' m')
    (short : chunks.flatten.length < n) :
    let d : Delivery := { framing := f, head }
    ∃ enough, ∀ limit, enough ≤ limit → ∃ out d' l',
      d.run .endless p (l.limited limit) = (out, d', l') ∧
        Refused d l chunks (.tooShort chunks.flatten.length n) out l' ∧
        Event.answers (d.history .endless p (l.limited limit)) = chunks.map .chunk ++ [.ended] := by
  intro d
  have fits : ∀ k, f.declared? = some k → chunks.flatten.length ≤ k := by
    intro k declared'
    cases declared.symm.trans declared'
    exact Nat.le_of_lt short
  obtain ⟨enough, s, rfl, still, behind⟩ := behind_of_gives head willing gives fits
  obtain ⟨m₁, ends₁, _⟩ := ends.congr still
  have declared' : s.delivery.framing.declared? = some n := by
    rw [behind.framing]
    exact declared
  have other : s.delivery.written ≠ n := by
    rw [behind.written]
    exact Nat.ne_of_lt short
  obtain ⟨enough', l', output, halts⟩ := loop_of_short behind.steady ends₁ declared' other
  refine ⟨max enough enough', fun limit late => ?_⟩
  obtain ⟨looped, asked⟩ := halts limit (by omega)
  rw [behind.written] at looped
  refine ⟨_, _, _, behind.runs limit (by omega) _ _ _ looped, behind.refused declared output, ?_⟩
  rw [behind.answers limit (by omega), asked]

theorem run_of_overrun (declared : f.declared? = some n) (willing : l.writer.rule.Willing)
    {before after : List Bytes} (gives : p.Gives l (before ++ b :: after) q m)
    (within : before.flatten.length ≤ n) (beyond : n < before.flatten.length + b.length) :
    let d : Delivery := { framing := f, head }
    ∃ enough, ∀ limit, enough ≤ limit → ∃ out d' l',
      d.run .endless p (l.limited limit) = (out, d', l') ∧
        Refused d l before (.tooLong n) out l' ∧
        Event.answers (d.history .endless p (l.limited limit)) =
          before.map .chunk ++ [.chunk b] := by
  intro d
  have fits : ∀ k, f.declared? = some k → before.flatten.length ≤ k := by
    intro k declared'
    cases declared.symm.trans declared'
    exact within
  obtain ⟨p₁, l₁, p₂, l₂, first, answers⟩ := gives.split
  obtain ⟨enough, s, rfl, still, behind⟩ := behind_of_gives head willing first fits
  obtain ⟨m₁, answers₁, _⟩ := answers.congr still
  have declared' : s.delivery.framing.declared? = some n := by
    rw [behind.framing]
    exact declared
  rw [← behind.written] at within beyond
  obtain ⟨enough', l', output, halts⟩ :=
    loop_of_overrun behind.steady answers₁ declared' beyond within
  refine ⟨max enough enough', fun limit late => ?_⟩
  obtain ⟨looped, asked⟩ := halts limit (by omega)
  refine ⟨_, _, _, behind.runs limit (by omega) _ _ _ looped, behind.refused declared output, ?_⟩
  rw [behind.answers limit (by omega), asked]

/-- A body of known bytes is sent whole as it is announced. -/
theorem run_of_known (b : Bytes) (willing : l.writer.rule.Willing) :
    let d : Delivery := { framing := (Body.ofBytes b).framing, head }
    ∃ enough, ∀ limit, enough ≤ limit → ∃ d' l',
      d.run .endless (Body.ofBytes b).producer (l.limited limit) =
          (.ok (filled [b]).length, d', l') ∧
        l'.writer.output = l.writer.output ++ (d.pending ++ b) := by
  have ends : (Producer.script []).Answers l .ended (.script []) l :=
    Producer.answers_of_ask rfl nofun nofun
  cases b with
  | nil =>
      have ended : (Producer.known []).Answers l .ended (.script []) l :=
        Producer.answers_of_ask rfl nofun nofun
      have declared : (Body.ofBytes []).framing.declared? = some 0 := rfl
      have ran := run_of_reached head declared willing (.none (.known []) l) ended rfl
      exact ran
  | cons first more =>
      have answers : (Producer.known (first :: more)).Answers l (.chunk (first :: more))
          (.script []) l := Producer.answers_of_ask rfl nofun nofun
      have declared : (Body.ofBytes (first :: more)).framing.declared? =
          some (first :: more).length := rfl
      have ran := run_of_reached head declared willing (.chunk answers (.none _ l)) ends
        (congrArg List.length List.flatten_singleton)
      rw [List.flatten_singleton] at ran
      exact ran

end Announced

/-- An announced length is enforced. At no moment is more of a body than that on the wire. A body of
that length is sent whole, and no other one is: of a longer one the chunks are sent that stay within
the length, and behind the first one that does not no other is asked for; of a shorter one all
chunks are sent, and it is refused at its end. Known bytes are never refused. -/
theorem run_declared {f : Framing} (declared : f.declared? = some n) (head : Option Bytes)
    (willing : l.writer.rule.Willing) (gives : p.Gives l chunks q m)
    (ends : q.Answers m .ended q' m') :
    let d : Delivery := { framing := f, head }
    let run (limit : Nat) := d.run .endless p (l.limited limit)
    let asked (limit : Nat) := Event.answers (d.history .endless p (l.limited limit))
    (∀ patience limit trace, trace <+: (d.run patience p (l.limited limit)).2.2.writer.events →
      ∃ body : Bytes, body.length ≤ n ∧
        Writer.bytesOf trace <+: l.writer.output ++ (d.pending ++ body)) ∧
    ((∃ enough, ∀ limit, enough ≤ limit → ∃ count, (run limit).1 = .ok count) ↔
      chunks.flatten.length = n) ∧
    (chunks.flatten.length = n → ∃ enough, ∀ limit, enough ≤ limit →
      (run limit).1 = .ok (filled chunks).length ∧
      (run limit).2.2.writer.output = l.writer.output ++ (d.pending ++ chunks.flatten)) ∧
    (chunks.flatten.length < n → ∃ enough, ∀ limit, enough ≤ limit →
      Refused d l chunks (.tooShort chunks.flatten.length n) (run limit).1 (run limit).2.2 ∧
      asked limit = chunks.map .chunk ++ [.ended]) ∧
    (∀ before b after, chunks = before ++ b :: after → before.flatten.length ≤ n →
      n < before.flatten.length + b.length → ∃ enough, ∀ limit, enough ≤ limit →
      Refused d l before (.tooLong n) (run limit).1 (run limit).2.2 ∧
      asked limit = before.map .chunk ++ [.chunk b]) ∧
    ∀ b : Bytes,
      let known (l : Link) := ({ framing := (Body.ofBytes b).framing, head } : Delivery).run
        .endless (Body.ofBytes b).producer l
      (∀ l, Unrefused (known l).1) ∧ ∃ enough, ∀ limit, enough ≤ limit →
        (known (l.limited limit)).1 = .ok (filled [b]).length ∧
        (known (l.limited limit)).2.2.writer.output = l.writer.output ++ (d.pending ++ b) := by
  intro d run asked
  refine ⟨fun patience limit trace beginning => ?_, ⟨?_, fun reached => ?_⟩, fun reached => ?_,
    fun short => ?_, fun before b after split within beyond => ?_, fun b => ⟨run_known b head, ?_⟩⟩
  · exact capped_of_run declared head patience p (l.limited limit) beginning
  · rintro ⟨enough, succeeds⟩
    rcases Nat.lt_trichotomy chunks.flatten.length n with short | reached | more
    · obtain ⟨enough', refused⟩ := run_of_short head declared willing gives ends short
      obtain ⟨out, d', l', ran, told, _⟩ := refused (max enough enough') (by omega)
      obtain ⟨count, ok⟩ := succeeds (max enough enough') (by omega)
      exact absurd ((congrArg Prod.fst ran).symm.trans ok) (told.not_ok count)
    · exact reached
    · obtain ⟨before, b, after, rfl, within, beyond⟩ := exists_beyond more
      obtain ⟨enough', refused⟩ := run_of_overrun head declared willing gives within beyond
      obtain ⟨out, d', l', ran, told, _⟩ := refused (max enough enough') (by omega)
      obtain ⟨count, ok⟩ := succeeds (max enough enough') (by omega)
      exact absurd ((congrArg Prod.fst ran).symm.trans ok) (told.not_ok count)
  · obtain ⟨enough, sent⟩ := run_of_reached head declared willing gives ends reached
    refine ⟨enough, fun limit late => ?_⟩
    obtain ⟨d', l', ran, _⟩ := sent limit late
    exact ⟨_, congrArg Prod.fst ran⟩
  · obtain ⟨enough, sent⟩ := run_of_reached head declared willing gives ends reached
    refine ⟨enough, fun limit late => ?_⟩
    obtain ⟨d', l', ran, output⟩ := sent limit late
    rw [show run limit = _ from ran]
    exact ⟨rfl, output⟩
  · obtain ⟨enough, refused⟩ := run_of_short head declared willing gives ends short
    refine ⟨enough, fun limit late => ?_⟩
    obtain ⟨out, d', l', ran, told, answered⟩ := refused limit late
    rw [show run limit = _ from ran]
    exact ⟨told, answered⟩
  · subst split
    obtain ⟨enough, refused⟩ := run_of_overrun head declared willing gives within beyond
    refine ⟨enough, fun limit late => ?_⟩
    obtain ⟨out, d', l', ran, told, answered⟩ := refused limit late
    rw [show run limit = _ from ran]
    exact ⟨told, answered⟩
  · obtain ⟨enough, sent⟩ := run_of_known head b willing
    refine ⟨enough, fun limit late => ?_⟩
    obtain ⟨d', l', ran, output⟩ := sent limit late
    dsimp only
    rw [ran]
    exact ⟨rfl, output⟩

/-- Of five bytes under a length of three the first two are sent, behind their head. The writer
takes one byte at a time and waits before the second one, and the producer pauses between the
chunks. -/
theorem declared_two_of_five :
    let slow : Writer := { rule := { most := some 1, gates := [(1, some 7)] } }
    let l : Link := ⟨{ limit := 9 }, { arrivals := [], capacity := 16 }, slow, .start .empty 1⟩
    let d : Delivery := { framing := .length 3, head := some [72] }
    let p : Producer := .script [.chunk [1, 2], .chunk [], .pause 5, .chunk [3, 4], .chunk [5]]
    Framing.declared? (.length 3) = some 3 ∧ l.writer.rule.Willing ∧
    ∃ enough, ∀ limit, enough ≤ limit →
      (d.run .endless p (l.limited limit)).1 = .error (.postCommit 1 (.tooLong 3)) ∧
      (d.run .endless p (l.limited limit)).2.2.writer.output = [72, 1, 2] ∧
      Event.answers (d.history .endless p (l.limited limit)) =
        [.chunk [1, 2], .chunk [], .chunk [3, 4]] := by
  intro slow l d p
  have willing : l.writer.rule.Willing := ⟨by decide, rfl, rfl, rfl, by decide, by decide⟩
  have gives : p.Gives l [[1, 2], [], [3, 4], [5]] (.script []) _ :=
    .chunk (Producer.answers_of_ask rfl nofun nofun) <|
    .chunk (Producer.answers_of_ask rfl nofun nofun) <|
    .chunk (Producer.answers_of_ask rfl nofun nofun) <|
    .chunk (Producer.answers_of_ask rfl nofun nofun) (.none _ _)
  have declared : d.framing.declared? = some 3 := rfl
  obtain ⟨_, _, _, _, overrun, _⟩ := run_declared declared (some [72]) willing gives
    (Producer.answers_of_ask rfl nofun nofun)
  obtain ⟨enough, refused⟩ := overrun [[1, 2], []] [3, 4] [[5]] rfl (by decide) (by decide)
  refine ⟨declared, willing, enough, fun limit late => ?_⟩
  obtain ⟨⟨output, told⟩, answered⟩ := refused limit late
  exact ⟨told, output, answered⟩

end Delivery

end HttpExchange
