import HttpExchange.Proofs.Body.Report

/-!
A producer that keeps to its time, in front of a writer that takes everything, is delivered to its
end.
-/

namespace HttpExchange

namespace Delivery

variable {patience : Patience} {p p' : Producer} {d : Delivery} {l l' : Link} {b : Bytes}
  {chunks : List Bytes} {pull : Pull} {permit : Bool}

theorem demand_of_askWithin {deadline : Option Nat} (still : d.permit = false)
    (asked : p.askWithin deadline l = (pull, p', permit, l')) :
    d.demand deadline p l = (pull, p', { d with permit }, l') := by
  unfold demand
  rw [still]
  cases deadline with
  | none =>
      rw [Producer.askWithin] at asked
      simp only [asked, Bool.false_eq_true, if_false]
  | some moment =>
      rw [Producer.askWithin] at asked
      simp only [asked, Bool.false_eq_true, if_false]

theorem writeAll_open (opened : l.writer.rule.Open) (b : Bytes) :
    ∃ w, l.writeAll b = (.ok (), { l with writer := w }) ∧ Writer.Wrote l.writer w b := by
  obtain ⟨w, wrote, put⟩ := Writer.writeAll_open opened b l.clock
  exact ⟨w, by rw [Link.writeAll, wrote]; rfl, put⟩

theorem send_open (opened : l.writer.rule.Open) (b : Bytes) :
    ∃ w, l.send b = (.ok (), { l with writer := w }) ∧ Writer.Wrote l.writer w b := by
  obtain ⟨w, wrote, put⟩ := Writer.writeHead_open opened b l.clock
  exact ⟨w, by rw [Link.send, wrote], put⟩

theorem flush_open (opened : l.writer.rule.Open) :
    l.flush = (.ok (), { l with writer := l.writer.note .flushed }) := by
  rw [Link.flush, Writer.flush_open opened]
  rfl

theorem deliver_open (opened : l.writer.rule.Open)
    (room : ∀ n, d.framing.declared? = some n → d.written + b.length ≤ n) :
    ∃ w, d.deliver b l = (.ok (), { d with
        head := none
        chunks := d.chunks + 1
        written := d.written + b.length }, { l with writer := w }) ∧
      Writer.Wrote l.writer w (d.pending ++ d.framing.frame b) := by
  obtain ⟨w, wrote, put⟩ := writeAll_open opened (d.pending ++ d.framing.frame b)
  have allowed : (d.framing.declared?.filter fun n => decide (n < d.written + b.length)) = none := by
    rw [Option.filter_eq_none_iff]
    intro n declared
    rw [decide_eq_true_iff]
    exact Nat.not_lt_of_le (room n declared)
  refine ⟨w, ?_, put⟩
  unfold deliver
  simp only [allowed]
  rw [show d.head.getD [] = d.pending from rfl, wrote]

theorem finish_open (opened : l.writer.rule.Open)
    (reached : ∀ n, d.framing.declared? = some n → d.written = n) :
    ∃ w, d.finish l = (.ok d.chunks, { d with head := none }, { l with writer := w }) ∧
      Writer.Wrote l.writer w (d.pending ++ d.framing.terminator) := by
  obtain ⟨w, sent, put⟩ := send_open opened (d.pending ++ d.framing.terminator)
  have allowed : (d.framing.declared?.filter fun n => decide (d.written ≠ n)) = none := by
    rw [Option.filter_eq_none_iff]
    intro n declared
    rw [decide_eq_true_iff, ne_eq, not_not]
    exact reached n declared
  refine ⟨w, ?_, put⟩
  unfold finish
  simp only [allowed]
  rw [show d.head.getD [] = d.pending from rfl, sent]
  rfl

/-- Each answer of the producer is a round, and its end is the end of the delivery. What was written
in between makes no difference to the producer. -/
theorem rounds_of_flows {last : Nat} (flows : p.Flows patience last l chunks) {w : Writer}
    (opened : w.rule.Open) (still : d.permit = false)
    (size : ∀ n, d.framing.declared? = some n → d.written + chunks.flatten.length = n) :
    ∃ s' q d₁ d' l₁ l' count, Rounds patience ⟨last, d, p, { l with writer := w }⟩ chunks s' ∧
      s'.demand patience = (.ended, q, d₁, l₁) ∧ d₁.finish l₁ = (.ok count, d', l') := by
  induction flows generalizing d w with
  | @ended last p p' l l' permit asked =>
      obtain ⟨w₁, framed, _, rule⟩ := Producer.askWithin_writer w asked
      have demanded := demand_of_askWithin still framed
      have reached : ∀ n, d.framing.declared? = some n → d.written = n := size
      obtain ⟨w₂, finished, _⟩ := finish_open (d := { d with permit }) (l := { l' with writer := w₁ })
        (rule ▸ opened) reached
      exact ⟨_, _, _, _, _, _, _, .none _, demanded, finished⟩
  | @chunk last p p' l l' b bs asked rest ih =>
      obtain ⟨w₁, framed, _, rule⟩ := Producer.askWithin_writer w asked
      have demanded : Course.demand patience ⟨last, d, p, { l with writer := w }⟩ =
          (.chunk b, p', { d with permit := false }, { l' with writer := w₁ }) :=
        demand_of_askWithin still framed
      have opened₁ : w₁.rule.Open := rule ▸ opened
      have sum : ∀ n, d.framing.declared? = some n →
          d.written + (b.length + bs.flatten.length) = n := by
        intro n declared
        rw [← List.length_append, ← List.flatten_cons]
        exact size n declared
      by_cases empty : b = []
      · subst empty
        have size' : ∀ n, d.framing.declared? = some n → d.written + bs.flatten.length = n := by
          intro n declared
          have := sum n declared
          rwa [List.length_nil, Nat.zero_add] at this
        obtain ⟨s', q, d₁, d', l₁, l₂, count, rounds, ended⟩ :=
          ih (d := { d with permit := false }) opened₁ rfl size'
        exact ⟨s', q, d₁, d', l₁, l₂, count, .more (.skip demanded) rounds, ended⟩
      · have room : ∀ n, d.framing.declared? = some n → d.written + b.length ≤ n := by
          intro n declared
          have := sum n declared
          omega
        obtain ⟨w₂, delivered, put⟩ := deliver_open (b := b) (d := { d with permit := false })
          (l := { l' with writer := w₁ }) opened₁ room
        have opened₂ : w₂.rule.Open := put.rule ▸ opened₁
        have passed := flush_open (l := { l' with writer := w₂ }) opened₂
        have size' : ∀ n, d.framing.declared? = some n →
            d.written + b.length + bs.flatten.length = n := by
          intro n declared
          rw [Nat.add_assoc]
          exact sum n declared
        obtain ⟨s', q, d₁, d', l₁, l₂, count, rounds, ended⟩ :=
          ih (d := { d with
            head := none
            permit := false
            chunks := d.chunks + 1
            written := d.written + b.length }) (w := w₂.note .flushed) opened₂ rfl size'
        exact ⟨s', q, d₁, d', l₁, l₂, count, .more (.deliver demanded empty delivered passed) rounds,
          ended⟩

/-- A producer that flows is delivered whole, and the end behind it. -/
theorem run_flows {f : Framing} (opened : l.writer.rule.Open)
    (flows : p.Flows patience l.clock.now l chunks)
    (size : ∀ n, f.declared? = some n → chunks.flatten.length = n) :
    ∃ d' l', ({ framing := f } : Delivery).run patience p l =
        (.ok (filled chunks).length, d', l') ∧
      l'.writer.output = l.writer.output ++ f.transfer (filled chunks) := by
  let d : Delivery := { framing := f }
  have counted : ∀ n, d.framing.declared? = some n → d.written + chunks.flatten.length = n := by
    intro n declared
    rw [Nat.zero_add]
    exact size n declared
  obtain ⟨s', q, d₁, d', l₁, l', count, rounds, asked, finished⟩ :=
    rounds_of_flows (d := d) (w := l.writer.note .flushed) flows opened rfl counted
  obtain ⟨_, _, sum, output⟩ := output_of_end rounds asked finished
  have looped := (loop_of_rounds rounds).trans (loop_of_halt (.ended asked finished))
  have before : (l.writer.note .flushed).output = l.writer.output := by
    have := (put_flush (flush_open opened)).1.output
    rwa [List.append_nil] at this
  refine ⟨d'.settle (.ok count), l', ?_, ?_⟩
  · have started : d.start patience p l = (.ok count, d', l') := by
      rw [start, flush_open opened]
      exact looped
    rw [Delivery.run, started, sum, Nat.zero_add]
  · rw [output, before]
    rfl

theorem run_nothing {f : Framing} (opened : l.writer.rule.Open)
    (lasts : patience.Lasts l.clock.now) (size : ∀ n, f.declared? = some n → 0 = n) :
    ∃ d' w, ({ framing := f } : Delivery).run patience (.known []) l =
        (.ok 0, d', { l with writer := w }) ∧ Writer.Wrote l.writer w f.terminator := by
  let d : Delivery := { framing := f }
  let l₁ : Link := { l with writer := l.writer.note .flushed }
  have passed : l.flush = (.ok (), l₁) := flush_open opened
  have first : Writer.Wrote l.writer l₁.writer [] :=
    Writer.wrote_flush (Writer.flush_open opened l.clock)
  have answer : ∀ clock, (Producer.known []).ask { l₁ with clock } =
      (.ended, .script [], false, { l₁ with clock }) := fun _ => rfl
  have came : Pull.ended ≠ .stuck := nofun
  have asked : (Producer.known []).askWithin (patience.deadline? l.clock.now) l₁ =
      (.ended, .script [], false, l₁) := by
    have timely : patience.Lasts l₁.clock.now := lasts
    exact Producer.askWithin_of_ask timely came answer
  have demanded : d.demand (patience.deadline? l.clock.now) (.known []) l₁ =
      (.ended, .script [], d, l₁) := demand_of_askWithin rfl asked
  obtain ⟨w, finished, put⟩ := finish_open (d := d) (l := l₁) opened size
  refine ⟨({ d with head := none } : Delivery).settle (.ok 0), w, ?_, first.trans put⟩
  have started : d.start patience (.known []) l = (.ok 0, { d with head := none },
      { l with writer := w }) := by
    rw [start, passed]
    simp only
    rw [loop_eq, demanded]
    exact finished
  rw [Delivery.run, started]

end Delivery

end HttpExchange
