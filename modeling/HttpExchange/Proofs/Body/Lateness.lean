import HttpExchange.Proofs.Body.Idling

/-!
The flush in front of a body. The idle timeout runs from before it, and so a body is only asked for
where that flush is over before the timeout is. Where it is not, the delivery is cut off in front of
the first chunk, whatever the producer has to give.
-/

namespace HttpExchange

/-- When a flush that is begun now is over, unless it waits for ever. -/
def Link.flushEnd? (l : Link) : Option Nat :=
  match l.writer.rule.flushGates.lookup (l.writer.count .flushed + 1) with
  | none => some l.clock.now
  | some gate => gate.map (max l.clock.now)

/-- The next flush is over before the idle timeout, if there is one. -/
def Link.FlushesInTime (l : Link) (idle : Option Nat) : Prop :=
  ∀ ms ∈ idle, ∀ moment ∈ l.flushEnd?, moment < l.clock.now + ms

instance (l : Link) (idle : Option Nat) : Decidable (l.FlushesInTime idle) :=
  inferInstanceAs (Decidable (∀ ms ∈ idle, ∀ moment ∈ l.flushEnd?, moment < l.clock.now + ms))

/-- As soon as there is so much time, some bytes are sent, and this is the link behind them. -/
def Link.SendsBy (l : Link) (b : Bytes) (enough : Nat) (l₁ : Link) : Prop :=
  ∀ limit, enough ≤ limit → (l.limited limit).send b = (.ok (), l₁.limited limit)

namespace Delivery

variable {l l' : Link} {idle : Option Nat}

theorem flushEnd?_of_flush (flushed : l.flush = (.ok (), l')) :
    l.flushEnd? = some l'.clock.now := by
  rcases passed : Writer.passFlushGate
    (l.writer.rule.flushGates.lookup (l.writer.count .flushed + 1)) l.clock with ⟨awake, c⟩
  have clock : awake = true ∧ l'.clock = c := by
    rw [Link.flush, Writer.flush] at flushed
    simp only [passed] at flushed
    cases awake with
    | false => cases flushed
    | true =>
        cases failing : l.writer.rule.failFlush.lookup (l.writer.count .flushed + 1) with
        | some fault =>
            simp only [failing] at flushed
            cases flushed
        | none =>
            simp only [failing] at flushed
            cases flushed
            exact ⟨rfl, rfl⟩
  obtain ⟨rfl, clock⟩ := clock
  rw [clock, Link.flushEnd?]
  rcases gate : l.writer.rule.flushGates.lookup (l.writer.count .flushed + 1) with _ | ⟨_ | moment⟩
  all_goals rw [gate] at passed
  · cases passed
    rfl
  · cases passed
  · rw [Writer.passFlushGate, Clock.waitUntil] at passed
    split at passed <;> cases passed
    rfl

theorem flushesInTime_iff (flushed : l.flush = (.ok (), l')) :
    l.FlushesInTime idle ↔ ∀ ms ∈ idle, l'.clock.now < l.clock.now + ms := by
  simp only [Link.FlushesInTime, flushEnd?_of_flush flushed, Option.mem_some_iff, forall_eq']

theorem rule_of_sendsBy {b : Bytes} {enough : Nat} (sends : l.SendsBy b enough l') :
    l'.writer.rule = l.writer.rule := by
  obtain ⟨_, put, _⟩ := put_send (sends enough (Nat.le_refl _))
  exact put.rule

theorem flushesInTime_of_gateless (gateless : l.writer.rule.flushGates = [])
    (timed : ∀ ms ∈ idle, 0 < ms) : l.FlushesInTime idle := by
  intro ms given moment ends
  rw [Link.flushEnd?, gateless, List.lookup_nil] at ends
  cases ends
  exact Nat.lt_add_of_pos_right (timed ms given)

/-- A body without bytes ends behind the flush of its head, once there is enough time. -/
theorem run_nothing_willing (willing : l.writer.rule.Willing) (inTime : l.FlushesInTime idle) :
    ∃ (enough : Nat) (l' : Link), Put l [] [] l' ∧ ∀ limit, enough ≤ limit →
      ∃ d, ({ framing := .empty } : Delivery).run ((idle.map Patience.idle).getD .endless)
        (.known []) (l.limited limit) = (.ok 0, d, l'.limited limit) := by
  let d : Delivery := { framing := .empty }
  obtain ⟨enough₁, l₁, rule, flushes⟩ := flush_willing willing
  obtain ⟨enough₂, l₂, sends⟩ := send_willing (l := l₁) (rule ▸ willing) []
  have flushed := flushes enough₁ (Nat.le_refl _)
  have sent := sends enough₂ (Nat.le_refl _)
  obtain ⟨first, _⟩ := put_flush flushed
  obtain ⟨part, second, whole, _⟩ := put_send sent
  cases whole rfl
  have put : Put l [] [] l₂ := by
    refine ⟨List.prefix_refl [], ?_, second.rule.trans rule, second.reader.trans first.reader,
      second.body.trans first.body⟩
    have output : l₂.writer.output = l₁.writer.output ++ [] := second.output
    rw [output, List.append_nil]
    exact first.output
  have early : ∀ ms ∈ idle, l₁.clock.now < l.clock.now + ms := (flushesInTime_iff flushed).mp inTime
  have demanded : ∀ limit, d.demand
      (((idle.map Patience.idle).getD .endless).deadline? l.clock.now) (.known [])
        (l₁.limited limit) = (.ended, .script [], d, l₁.limited limit) := by
    intro limit
    apply demand_of_askWithin rfl
    cases timed : idle with
    | none => rfl
    | some ms =>
        have lasts : (Patience.until (l.clock.now + ms)).Lasts (l₁.limited limit).clock.now :=
          early ms timed
        exact Producer.askWithin_of_ask lasts Pull.noConfusion fun _ => rfl
  refine ⟨max enough₁ enough₂, l₂, put, fun limit late => ⟨d.settle (.ok 0), ?_⟩⟩
  have started : d.start ((idle.map Patience.idle).getD .endless) (.known []) (l.limited limit) =
      (.ok 0, d, l₂.limited limit) := by
    rw [start, flushes limit (by omega)]
    simp only
    rw [loop_eq, show (l.limited limit).clock.now = l.clock.now from rfl, demanded limit]
    simp only
    have none : (d.framing.declared?.filter fun n => d.written ≠ n) = none := rfl
    unfold finish
    simp only [none]
    rw [show d.head.getD [] ++ d.framing.terminator = [] from rfl, sends limit (by omega)]
    rfl
  rw [Delivery.run, started]

/-- Where the flush in front takes as long as the idle timeout, nothing is asked for and nothing is
written. -/
theorem run_overdue (willing : l.writer.rule.Willing) (late : ¬ l.FlushesInTime idle)
    (framing : Framing) (p : Producer) :
    ∃ enough, ∀ limit, enough ≤ limit → ∃ d l',
      ({ framing } : Delivery).run ((idle.map Patience.idle).getD .endless) p (l.limited limit) =
        (.error (.cancelled true), d, l') ∧ l'.writer.output = l.writer.output := by
  obtain ⟨enough, l₁, _, flushes⟩ := flush_willing willing
  obtain ⟨ms, rfl, past⟩ : ∃ ms, idle = some ms ∧ l.clock.now + ms ≤ l₁.clock.now := by
    have flushed := flushes enough (Nat.le_refl _)
    have unmet : ¬ ∀ ms ∈ idle, l₁.clock.now < l.clock.now + ms :=
      fun early => late ((flushesInTime_iff flushed).mpr early)
    obtain ⟨ms, timed, past⟩ := not_forall₂.mp unmet
    exact ⟨ms, timed, Nat.le_of_not_lt past⟩
  refine ⟨enough, fun limit given => ?_⟩
  obtain ⟨d, l', ran, output, _⟩ := run_of_late (d := { framing }) (p := p) rfl rfl
    (flushes limit given) (.none _) past
  refine ⟨d, l', ran, ?_⟩
  rw [output, filled, List.filter_nil]
  exact List.append_nil _

end Delivery

end HttpExchange
