import HttpExchange.Proofs.Body.InFlight
import HttpExchange.Proofs.Wire.Broken

/-!
The order of a delivery on the wire. At each point of its history the bytes are a beginning of the
head, the frames of the chunks pulled so far and, once the producer has come to its end, of the end.
-/

namespace HttpExchange

namespace Delivery

namespace Event

variable {events seen : List Event}

def isEnd : Event → Bool
  | pull _ .ended _ => true
  | _ => false

theorem bytes_append (first second : List Event) :
    bytes (first ++ second) = bytes first ++ bytes second := List.flatMap_append

theorem bytes_prefix (beginning : seen <+: events) : bytes seen <+: bytes events := by
  obtain ⟨more, rfl⟩ := beginning
  rw [bytes_append]
  exact List.prefix_append _ _

theorem bytes_parts (parts : List Bytes) : bytes (parts.map .wrote) = parts.flatten := by
  rw [bytes, List.flatMap_map]
  exact List.flatMap_id

theorem Quiet.of_prefix (quiet : Quiet events) (beginning : seen <+: events) : Quiet seen :=
  fun e member => quiet e (beginning.subset member)

end Event

variable {f : Framing} {head : Bytes} {d d' d₁ : Delivery} {events seen sent : List Event}
  {b : Bytes} {out : Outcome BodyError Nat} {wired : Outcome WireError Unit}

theorem Sends.bytes (sends : Sends b sent wired) :
    Event.bytes sent <+: b ∧ (wired = .ok () → Event.bytes sent = b) := by
  cases sends with
  | whole parts all =>
      have same : Event.bytes (parts.map .wrote ++ [.flush wired]) = b := by
        rw [Event.bytes_append, Event.bytes_parts, all]
        exact List.append_nil b
      exact ⟨same ▸ List.prefix_refl _, fun _ => same⟩
  | cut parts beginning failed =>
      refine ⟨?_, fun ended => absurd ended failed⟩
      rw [Event.bytes_append, Event.bytes_parts]
      exact (List.append_nil parts.flatten).symm ▸ beginning

/-- What is on the wire at a point of a history: a beginning of the head and of the frames of the
chunks that were pulled; of the end only if the producer has come to its own. -/
def Follows (f : Framing) (head : Bytes) (seen : List Event) : Prop :=
  Event.bytes seen <+: head ++ f.frames (filled (Event.chunks seen)) ∨
    (∃ e ∈ seen, e.isEnd = true) ∧
      Event.bytes seen <+: head ++ f.transfer (filled (Event.chunks seen))

def Orderly (f : Framing) (head : Bytes) (events : List Event) : Prop :=
  ∀ seen, seen <+: events → Follows f head seen

theorem orderly_of_head (within : Event.bytes events <+: head) : Orderly f head events := by
  intro seen beginning
  have part := (Event.bytes_prefix beginning).trans within
  exact .inl (part.trans (List.prefix_append head _))

theorem orderly_of_silent (silent : Event.bytes events = []) : Orderly f head events :=
  orderly_of_head (silent ▸ List.nil_prefix)

theorem prefix_append_cases {first second : List Event} (beginning : seen <+: first ++ second) :
    seen <+: first ∨ ∃ more, seen = first ++ more ∧ more <+: second := by
  rcases List.prefix_or_prefix_of_prefix beginning (List.prefix_append first second) with
    within | ⟨more, rfl⟩
  · exact .inl within
  · exact .inr ⟨more, rfl, (List.prefix_append_right_inj first).mp beginning⟩

/-- Behind events that leave `rest` to be put in front, the order goes on. -/
theorem Orderly.behind {before : List Event} {rest : Bytes} (earlier : Orderly f head before)
    (sent : Event.bytes before ++ rest = head ++ f.frames (filled (Event.chunks before)))
    (later : Orderly f rest events) : Orderly f head (before ++ events) := by
  intro seen beginning
  rcases prefix_append_cases beginning with within | ⟨more, rfl, behind⟩
  · exact earlier seen within
  · have whole : ∀ next, head ++ (f.frames (filled (Event.chunks (before ++ more))) ++ next) =
        Event.bytes before ++ (rest ++ (f.frames (filled (Event.chunks more)) ++ next)) := by
      intro next
      rw [Event.chunks_append, filled_append, Framing.frames_append, List.append_assoc,
        ← List.append_assoc head, ← sent, List.append_assoc]
    rcases later more behind with part | ⟨⟨e, member, ended⟩, part⟩
    · have here := whole []
      rw [List.append_nil, List.append_nil] at here
      refine .inl ?_
      rw [here, Event.bytes_append, List.prefix_append_right_inj]
      exact part
    · refine .inr ⟨⟨e, List.mem_append_right before member, ended⟩, ?_⟩
      rw [Framing.transfer, whole, Event.bytes_append, List.prefix_append_right_inj]
      exact part

/-- Between two states the chunks that were pulled went out whole: each of them is counted, and the
head went with the first one. -/
structure Whole (d : Delivery) (events : List Event) (d' : Delivery) : Prop where
  framing : d'.framing = d.framing
  head : d'.head = if filled (Event.chunks events) = [] then d.head else none
  chunks : d'.chunks = d.chunks + (filled (Event.chunks events)).length
  bytes : Event.bytes events ++ d'.pending =
    d.pending ++ d.framing.frames (filled (Event.chunks events))

namespace Whole

theorem nothing (framing : d'.framing = d.framing) (head : d'.head = d.head)
    (chunks : d'.chunks = d.chunks) (unasked : Event.chunks events = [])
    (silent : Event.bytes events = []) : Whole d events d' := by
  refine ⟨framing, ?_, ?_, ?_⟩
  · rw [unasked]
    exact head
  · rw [unasked]
    exact chunks
  · rw [unasked, silent, pending, head]
    exact (List.append_nil _).symm

theorem trans {more : List Event} (one : Whole d events d₁) (two : Whole d₁ more d') :
    Whole d (events ++ more) d' := by
  have chunks : filled (Event.chunks (events ++ more)) =
      filled (Event.chunks events) ++ filled (Event.chunks more) := by
    rw [Event.chunks_append, filled_append]
  refine ⟨two.framing.trans one.framing, ?_, ?_, ?_⟩
  · rw [chunks, two.head, one.head]
    by_cases later : filled (Event.chunks more) = []
    · rw [if_pos later, later, List.append_nil]
    · rw [if_neg later, if_neg (List.append_ne_nil_of_right_ne_nil _ later)]
  · rw [chunks, two.chunks, one.chunks, List.length_append, Nat.add_assoc]
  · rw [chunks, Event.bytes_append, List.append_assoc, two.bytes, ← List.append_assoc, one.bytes,
      one.framing, Framing.frames_append, List.append_assoc]

/-- Once the head is gone, it is on the wire in front of the frames. -/
theorem committed (whole : Whole d events d') (gone : d'.isCommitted = true) :
    Event.bytes events = d.pending ++ d.framing.frames (filled (Event.chunks events)) := by
  have bytes := whole.bytes
  rwa [pending, Option.isNone_iff_eq_none.mp gone, Option.getD_none, List.append_nil] at bytes

/-- As long as the head is held back, nothing is on the wire. -/
theorem held (whole : Whole d events d') (there : d'.isCommitted = false) :
    filled (Event.chunks events) = [] ∧ Event.bytes events = [] := by
  by_cases unsent : filled (Event.chunks events) = []
  · have bytes := whole.bytes
    have same : d'.pending = d.pending := by rw [pending, whole.head, if_pos unsent, pending]
    rw [unsent, same, Framing.frames, List.flatMap_nil, List.append_nil] at bytes
    exact ⟨unsent, List.append_left_eq_self.mp bytes⟩
  · rw [isCommitted, whole.head, if_neg unsent] at there
    cases there

end Whole

theorem Turn.whole (turn : Turn d events d₁) : Whole d events d₁ := by
  cases turn with
  | skip moment permit => exact ⟨rfl, rfl, rfl, (List.append_nil _).symm⟩
  | @deliver moment b permit some sent sends =>
      have chunks : filled (Event.chunks (.pull moment (.chunk b) permit :: sent)) = [b] := by
        rw [Event.chunks_pull, sends.quiet.chunks, filled_cons_of_ne_nil some]
        rfl
      refine ⟨rfl, ?_, ?_, ?_⟩
      · rw [chunks]
        exact (if_neg (List.cons_ne_nil b [])).symm
      · rw [chunks]
        rfl
      · rw [chunks, Framing.frames, List.flatMap_singleton]
        exact (List.append_nil _).trans (sends.bytes.2 rfl)

theorem orderly_of_chunk {moment : Nat} {permit : Bool} (bytes : b ≠ [])
    (sends : Sends (head ++ f.frame b) sent wired) :
    Orderly f head (.pull moment (.chunk b) permit :: sent) := by
  intro seen beginning
  cases seen with
  | nil => exact .inl List.nil_prefix
  | cons first seen =>
      rw [List.cons_prefix_cons] at beginning
      obtain ⟨rfl, beginning⟩ := beginning
      refine .inl ?_
      rw [Event.chunks_pull, (sends.quiet.of_prefix beginning).chunks, filled_cons_of_ne_nil bytes,
        filled, List.filter_nil, Framing.frames, List.flatMap_singleton]
      exact (Event.bytes_prefix beginning).trans sends.bytes.1

theorem orderly_of_end {moment : Nat} {permit : Bool}
    (sends : Sends (head ++ f.terminator) sent wired) :
    Orderly f head (.pull moment .ended permit :: sent) := by
  intro seen beginning
  cases seen with
  | nil => exact .inl List.nil_prefix
  | cons first seen =>
      rw [List.cons_prefix_cons] at beginning
      obtain ⟨rfl, beginning⟩ := beginning
      refine .inr ⟨⟨_, List.mem_cons_self, rfl⟩, ?_⟩
      have chunks : Event.chunks (.pull moment .ended permit :: seen) = [] :=
        (sends.quiet.of_prefix beginning).chunks
      rw [chunks]
      exact (Event.bytes_prefix beginning).trans sends.bytes.1

theorem Turn.orderly (turn : Turn d events d₁) : Orderly d.framing d.pending events := by
  cases turn with
  | skip moment permit => exact orderly_of_silent rfl
  | deliver moment permit some sends => exact orderly_of_chunk some sends

theorem Last.orderly (last : Last d events out d') : Orderly d.framing d.pending events := by
  cases last with
  | unasked | cancelled | failed | stuck | overrun | short => exact orderly_of_silent rfl
  | undelivered moment permit some sends => exact orderly_of_chunk some sends
  | ended moment permit sends => exact orderly_of_end sends

theorem Unfolds.orderly (unfolds : Unfolds d events out d') :
    Orderly d.framing d.pending events := by
  induction unfolds with
  | last last => exact last.orderly
  | turn turn rest ih =>
      rw [turn.whole.framing] at ih
      exact turn.orderly.behind turn.whole.bytes ih

theorem Unfolds.head_kept (unfolds : Unfolds d events out d') :
    d'.head = none ∨ d'.head = d.head ∧ Event.bytes events = [] := by
  induction unfolds with
  | last last =>
      cases last with
      | unasked | cancelled | failed | stuck | overrun | short => exact .inr ⟨rfl, rfl⟩
      | undelivered moment permit some sends failed head => exact .inl head
      | ended => exact .inl rfl
  | turn turn rest ih =>
      cases turn with
      | skip moment permit => exact ih
      | deliver moment permit some sends =>
          rcases ih with gone | ⟨same, _⟩
          · exact .inl gone
          · exact .inl same

/-- The number of chunks that an end in order gives is the one that is kept. -/
theorem Unfolds.chunks {n : Nat} (unfolds : Unfolds d events (.ok n) d') : d'.chunks = n := by
  generalize told : Outcome.ok n = out at unfolds
  induction unfolds with
  | last last =>
      cases last with
      | unasked | cancelled | failed | stuck | overrun | short => cases told
      | @undelivered _ _ _ _ _ out _ failed =>
          cases out with
          | ok _ => exact absurd rfl failed
          | error e | stuck => cases told
      | @ended _ _ _ out =>
          cases out with
          | ok _ =>
              cases told
              rfl
          | error e | stuck => cases told
  | turn turn rest ih => exact ih told

section Broken

variable {patience : Patience} {s s' : Course} {p : Producer} {l l' : Link} {pull : Pull}

theorem kept_demand (asked : s.demand patience = (pull, p, d, l)) :
    Writer.Kept s.link.writer l.writer := by
  rw [demand_writer asked]
  unfold Producer.note
  split
  · exact Writer.kept_note _ rfl
  · exact Writer.kept_note _ rfl
  · exact .refl _

theorem kept_flush (passed : l.flush = (wired, l')) : Writer.Kept l.writer l'.writer := by
  rcases flushed : l.writer.flush l.clock with ⟨out, writer, clock⟩
  rw [Link.flush, flushed] at passed
  cases passed
  exact Writer.kept_flush flushed

theorem kept_send (broken : l.writer.Broken) (sent : l.send b = (wired, l')) :
    Writer.Kept l.writer l'.writer := by
  rcases wrote : l.writer.writeAll b l.clock with ⟨out, writer, clock⟩
  have kept := Writer.writeAll_broken broken wrote
  rw [send_eq, Link.writeAll, wrote] at sent
  cases out with
  | ok _ => exact kept.trans (kept_flush sent)
  | error e | stuck =>
      cases sent
      exact kept

theorem kept_of_acts (broken : s.link.writer.Broken) (acts : Acts patience s l) :
    Writer.Kept s.link.writer l.writer := by
  cases acts with
  | unasked => exact .refl _
  | asks asked => exact kept_demand asked
  | sends asked _ sent =>
      have kept := kept_demand asked
      exact kept.trans (kept_send (kept.broken broken) sent)

theorem kept_loop (broken : s.link.writer.Broken) (eq : s.loop patience = (out, d', l')) :
    Writer.Kept s.link.writer l'.writer := by
  obtain ⟨pulled, s', rounds, halt⟩ := rounds_of_loop eq
  clear eq
  induction rounds with
  | none s => exact kept_of_acts broken (acts_of_halt halt)
  | more first rest ih =>
      have kept := kept_of_acts broken (acts_of_round first)
      exact kept.trans (ih (kept.broken broken) halt)

theorem kept_run (broken : l.writer.Broken) (eq : d.run patience p l = (out, d', l')) :
    Writer.Kept l.writer l'.writer := by
  have ran := ran_of_run eq
  generalize d.history patience p l = events at ran
  cases ran with
  | refused | repeated => exact .refl _
  | unflushed _ _ flushed => exact kept_flush flushed
  | begun _ flushed looped =>
      have kept := kept_flush flushed
      exact kept.trans (kept_loop (kept.broken broken) looped)

/-- What is sent is whole on the wire, or the writer is broken, unless the sending was given up. -/
theorem send_whole_or_broken (sent : l.send b = (wired, l')) (awaited : wired ≠ .stuck) :
    Event.bytes (l.sending b) = b ∨ l'.writer.Broken := by
  rcases wrote : l.writer.writeAll b l.clock with ⟨out, writer, clock⟩
  have write : l.writeAll b = (out.mapError .io, { l with writer, clock }) := by
    rw [Link.writeAll, wrote]
  rw [send_eq, write] at sent
  cases out with
  | ok _ =>
      obtain ⟨parts, writes, _, _, whole⟩ := parts_of_writeAll write
      refine .inl ?_
      rw [Link.sending, write]
      simp only [Outcome.mapError, writes]
      rw [Event.bytes_append, Event.bytes_parts, whole rfl]
      exact List.append_nil b
  | error e =>
      cases sent
      exact .inr (Writer.broken_of_writeAll wrote)
  | stuck =>
      cases sent
      exact absurd rfl awaited

theorem bytes_of_broken (broken : l.writer.Broken) :
    Event.bytes (d.history patience p l) = [] := by
  have added : _ = l.writer.output ++ Event.bytes (d.history patience p l) := output_of_run rfl
  rw [(kept_run broken rfl).output] at added
  exact List.self_eq_append_right.mp added

end Broken

end Delivery

end HttpExchange
