import HttpExchange.Proofs.Body.Flow
import HttpExchange.Proofs.Body.History
import HttpExchange.Proofs.Wire.Waiting

/-!
Time for a delivery. A producer that is cancelled at some moment cannot keep a delivery waiting, and
a writer that only ever waits cannot either: given enough time the delivery comes to something.
-/

namespace HttpExchange

def Link.limited (limit : Nat) (l : Link) : Link := { l with clock := l.clock.limited limit }

namespace Delivery

variable {s : Course} {p : Producer} {d : Delivery} {l l' : Link} {b : Bytes}

theorem now_lt_of_not_isCancelled {cancelAt : Nat}
    (open_ : s.isCancelled (.until cancelAt) = false) : s.link.clock.now < cancelAt := by
  rw [Course.isCancelled, Bool.or_eq_false_iff] at open_
  exact Nat.lt_of_not_le (of_decide_eq_false open_.2)

/-- An outcome that is neither the transport's failure nor an endless wait. -/
def Settled (out : Outcome BodyError Nat) : Prop := out ≠ .stuck ∧ ∀ e, out ≠ .error (.wire e)

def Course.limited (limit : Nat) (s : Course) : Course := { s with link := s.link.limited limit }

theorem writeAll_patient (patient : l.writer.rule.Patient) (b : Bytes) :
    ∃ (enough : Nat) (out : Outcome WireError Unit) (l' : Link), out ≠ .stuck ∧
      ∀ limit, enough ≤ limit → (l.limited limit).writeAll b = (out, l'.limited limit) := by
  obtain ⟨enough, out, w, c, came, wrote⟩ := Writer.writeAll_patient patient b l.clock
  refine ⟨enough, out.mapError .io, { l with writer := w, clock := c }, ?_, fun limit late => ?_⟩
  · cases out with
    | stuck => exact absurd rfl came
    | ok | error => exact nofun
  · rw [Link.writeAll, Link.limited]
    simp only [wrote limit late]
    rfl

theorem flush_patient (patient : l.writer.rule.Patient) :
    ∃ (enough : Nat) (out : Outcome WireError Unit) (l' : Link), out ≠ .stuck ∧
      ∀ limit, enough ≤ limit → (l.limited limit).flush = (out, l'.limited limit) := by
  obtain ⟨enough, out, c, came, flushed⟩ := Writer.flush_patient patient l.clock
  refine ⟨enough, out.mapError .io, { l with writer := l.writer.note .flushed, clock := c }, ?_, ?_⟩
  · cases out with
    | stuck => exact absurd rfl came
    | ok | error => exact nofun
  · intro limit late
    rw [Link.flush, Link.limited]
    simp only [flushed limit late]
    rfl

/-- Whatever is sent goes out or fails, once there is enough time. -/
theorem send_patient (patient : l.writer.rule.Patient) (b : Bytes) :
    ∃ (enough : Nat) (out : Outcome WireError Unit) (l' : Link), out ≠ .stuck ∧
      ∀ limit, enough ≤ limit → (l.limited limit).send b = (out, l'.limited limit) := by
  obtain ⟨enough, out, l₁, came, wrote⟩ := writeAll_patient patient b
  cases out with
  | stuck => exact absurd rfl came
  | error e =>
      refine ⟨enough, .error e, l₁, nofun, fun limit late => ?_⟩
      rw [send_eq, wrote limit late]
  | ok =>
      obtain ⟨_, put, _⟩ := put_writeAll (wrote enough (Nat.le_refl _))
      have rule : l₁.writer.rule = l.writer.rule := put.rule
      obtain ⟨enough', out, l₂, came', flushed⟩ := flush_patient (rule ▸ patient)
      refine ⟨max enough enough', out, l₂, came', fun limit late => ?_⟩
      rw [send_eq, wrote limit (by omega)]
      exact flushed limit (by omega)

theorem passed_of_writeAll (wrote : l.writeAll b = (.ok (), l')) :
    l.writer.Passed l'.writer b.length 0 := by
  rcases written : l.writer.writeAll b l.clock with ⟨_ | _ | _, w, c⟩
  all_goals
    rw [Link.writeAll, written] at wrote
    cases wrote
  exact Writer.passed_writeAll written

theorem passed_of_flush (flushed : l.flush = (.ok (), l')) : l.writer.Passed l'.writer 0 1 := by
  rcases passed : l.writer.flush l.clock with ⟨_ | _ | _, w, c⟩
  all_goals
    rw [Link.flush, passed] at flushed
    cases flushed
  exact Writer.passed_flush passed

theorem carried_of_flush (flushed : l.flush = (.ok (), l')) : l.writer.Carried l'.writer [[]] :=
  ⟨passed_of_flush flushed, (put_flush flushed).1.output⟩

theorem carried_of_send (sent : l.send b = (.ok (), l')) : l.writer.Carried l'.writer [b] := by
  obtain ⟨part, put, whole, _⟩ := put_send sent
  cases whole rfl
  refine ⟨?_, ?_⟩
  · rw [List.flatten_singleton, List.length_singleton]
    rcases wrote : l.writeAll b with ⟨_ | e | _, l₁⟩
    all_goals rw [send_eq, wrote] at sent
    · have joint := (passed_of_writeAll wrote).trans (passed_of_flush sent)
      rwa [Nat.zero_add] at joint
    · cases sent
    · cases sent
  · rw [List.flatten_singleton]
    exact put.output

theorem fails_of_writeAll {e : WireError} (wrote : l.writeAll b = (.error e, l')) :
    l.writer.Fails b.length 0 := by
  rcases written : l.writer.writeAll b l.clock with ⟨_ | _ | _, w, c⟩
  all_goals
    rw [Link.writeAll, written] at wrote
    cases wrote
  exact Writer.fails_of_writeAll written

theorem failsIn_of_flush {e : WireError} (flushed : l.flush = (.error e, l')) :
    l.writer.FailsIn [[]] := by
  rcases passed : l.writer.flush l.clock with ⟨_ | _ | _, w, c⟩
  all_goals
    rw [Link.flush, passed] at flushed
    cases flushed
  exact Writer.fails_of_flush passed

theorem failsIn_of_send {e : WireError} (sent : l.send b = (.error e, l')) :
    l.writer.FailsIn [b] := by
  rw [Writer.FailsIn, List.flatten_singleton, List.length_singleton]
  rcases wrote : l.writeAll b with ⟨_ | e | _, l₁⟩
  all_goals rw [send_eq, wrote] at sent
  · have fails := (passed_of_writeAll wrote).fails_iff.mpr (failsIn_of_flush sent)
    rwa [List.flatten_singleton, List.length_nil, List.length_singleton, Nat.zero_add] at fails
  · exact (fails_of_writeAll wrote).mono (Nat.le_refl _) (Nat.zero_le _)
  · cases sent

theorem flush_willing (willing : l.writer.rule.Willing) :
    ∃ (enough : Nat) (l' : Link), l'.writer.rule = l.writer.rule ∧
      ∀ limit, enough ≤ limit → (l.limited limit).flush = (.ok (), l'.limited limit) := by
  obtain ⟨enough, out, l', came, flushed⟩ := flush_patient willing.patient
  have first := flushed enough (Nat.le_refl _)
  cases out with
  | stuck => exact absurd rfl came
  | error e =>
      have fails := failsIn_of_flush first
      exact absurd fails (Writer.not_fails_of_willing willing _ _)
  | ok => exact ⟨enough, l', (put_flush first).1.rule, flushed⟩

theorem send_willing (willing : l.writer.rule.Willing) (b : Bytes) :
    ∃ (enough : Nat) (l' : Link), ∀ limit, enough ≤ limit →
      (l.limited limit).send b = (.ok (), l'.limited limit) := by
  obtain ⟨enough, out, l', came, sent⟩ := send_patient willing.patient b
  cases out with
  | stuck => exact absurd rfl came
  | error e =>
      have fails := failsIn_of_send (sent enough (Nat.le_refl _))
      exact absurd fails (Writer.not_fails_of_willing willing _ _)
  | ok => exact ⟨enough, l', sent⟩

theorem askBefore_limited (p : Producer) (l : Link) (moment : Nat) :
    ∃ (pull : Pull) (p' : Producer) (permit : Bool) (l' : Link), pull ≠ .stuck ∧
      ∀ limit, moment ≤ limit →
        p.askBefore moment (l.limited limit) = (pull, p', permit, l'.limited limit) := by
  by_cases early : moment ≤ l.clock.now
  · refine ⟨.cancelled, p, false, l, nofun, ?_⟩
    intro limit _
    exact if_pos early
  · rcases asked : p.ask (l.limited moment) with ⟨pull, p', permit, l₁⟩
    have within : ∀ limit, moment ≤ limit →
        p.ask { l.limited limit with clock := (l.limited limit).clock.within moment } =
          (pull, p', permit, l₁) := by
      intro limit late
      rw [← asked]
      congr 1
      simp only [Link.limited, Clock.limited, Clock.within, Nat.min_eq_right late]
    let l' : Link := { l₁ with clock := { l.clock with now := l₁.clock.now } }
    refine ⟨if pull = .stuck then .cancelled else pull, p', permit, l', ?_, ?_⟩
    · by_cases stuck : pull = .stuck
      · rw [if_pos stuck]
        exact nofun
      · rw [if_neg stuck]
        exact stuck
    · intro limit late
      rw [Producer.askBefore, if_neg (show ¬ moment ≤ (l.limited limit).clock.now from early),
        within limit late]
      cases pull with
      | stuck => exact if_pos late
      | chunk b | failed cause | ended | cancelled => rfl

theorem demand_limited (s : Course) (cancelAt : Nat) :
    ∃ (pull : Pull) (p : Producer) (d : Delivery) (l : Link), pull ≠ .stuck ∧
      ∀ limit, cancelAt ≤ limit →
        (s.limited limit).demand (.until cancelAt) = (pull, p, d, l.limited limit) := by
  cases met : s.delivery.permit with
  | true =>
      refine ⟨.cancelled, s.producer, { s.delivery with permit := false }, s.link, nofun, ?_⟩
      intro limit _
      have cancelled : (s.limited limit).isCancelled (.until cancelAt) = true := by
        rw [Course.isCancelled, show (s.limited limit).delivery.permit = true from met]
        rfl
      exact demand_of_isCancelled cancelled
  | false =>
      obtain ⟨pull, p, permit, l, came, asked⟩ := askBefore_limited s.producer s.link cancelAt
      refine ⟨pull, p, { s.delivery with permit }, l, came, ?_⟩
      intro limit late
      have answer : s.producer.askWithin (some cancelAt) (s.link.limited limit) =
          (pull, p, permit, l.limited limit) := asked limit late
      exact demand_of_askWithin met answer

theorem settled_failure (d : Delivery) (cause : Mishap) : Settled (.error (d.failure cause)) := by
  unfold failure
  split
  · exact ⟨nofun, nofun⟩
  · exact ⟨nofun, nofun⟩

theorem finish_settles (willing : l.writer.rule.Willing) (d : Delivery) :
    ∃ enough, ∀ limit, enough ≤ limit → Settled (d.finish (l.limited limit)).1 := by
  obtain ⟨enough, l', sends⟩ := send_willing willing (d.pending ++ d.framing.terminator)
  refine ⟨enough, ?_⟩
  intro limit late
  rcases finish_reaches_or d (l.limited limit) with
    ⟨_, n, _, _, same⟩ | ⟨_, out, l₁, sent, same⟩
  · rw [same]
    exact settled_failure d _
  · cases (sends limit late).symm.trans sent
    rw [same]
    exact ⟨nofun, nofun⟩

/-- A delivery that is cancelled at a moment, onto a writer that only ever waits, comes to an end:
it needs no more than some time. -/
theorem loop_settles (s : Course) (cancelAt : Nat) (willing : s.link.writer.rule.Willing) :
    ∃ enough, ∀ limit, enough ≤ limit →
      Settled ((s.limited limit).loop (.until cancelAt)).1 := by
  induction size : s.producer.weight s.link.weight using Nat.strongRecOn generalizing s with
  | ind n ih =>
      subst size
      obtain ⟨pull, p, d, l, came, asked⟩ := demand_limited s cancelAt
      have demanded := asked cancelAt (Nat.le_refl _)
      have still : l.writer.rule.Willing := by
        have rule : l.writer.rule = s.link.writer.rule := (demand_spec demanded).2.2
        exact rule ▸ willing
      have weight := weight_demand demanded
      cases pull with
      | stuck => exact absurd rfl came
      | failed cause =>
          refine ⟨cancelAt, fun limit late => ?_⟩
          rw [loop_of_halt (.failed (asked limit late))]
          exact settled_failure d cause
      | cancelled =>
          refine ⟨cancelAt, fun limit late => ?_⟩
          rw [loop_of_halt (.cancelled (asked limit late))]
          exact ⟨nofun, nofun⟩
      | ended =>
          obtain ⟨enough, settles⟩ := finish_settles still d
          refine ⟨max cancelAt enough, fun limit late => ?_⟩
          have demand := asked limit (Nat.le_trans (Nat.le_max_left _ _) late)
          rw [loop_of_halt (.ended demand rfl)]
          exact settles limit (Nat.le_trans (Nat.le_max_right _ _) late)
      | chunk b =>
          by_cases some : b = []
          · subst some
            obtain ⟨enough, settles⟩ := ih _ (weight.2 _ rfl) ⟨l.clock.now, d, p, l⟩ still rfl
            refine ⟨max cancelAt enough, fun limit late => ?_⟩
            rw [loop_of_round (.skip (asked limit (Nat.le_trans (Nat.le_max_left _ _) late)))]
            exact settles limit (Nat.le_trans (Nat.le_max_right _ _) late)
          · rcases deliver_fits_or d b l with ⟨beyond, _⟩ | ⟨fits, _⟩
            · refine ⟨cancelAt, fun limit late => ?_⟩
              rcases deliver_fits_or d b (l.limited limit) with ⟨_, n, _, _, same⟩ | ⟨fits, _⟩
              · rw [loop_of_halt (.refused (asked limit late) some same)]
                exact settled_failure d _
              · cases beyond.symm.trans fits
            · obtain ⟨enough, l', sends⟩ := send_willing still (d.pending ++ d.framing.frame b)
              have sent := sends enough (Nat.le_refl _)
              obtain ⟨_, put, _⟩ := put_send sent
              have willing' : l'.writer.rule.Willing := by
                have rule : l'.writer.rule = l.writer.rule := put.rule
                exact rule ▸ still
              have same : (l'.limited enough).weight = (l.limited enough).weight :=
                Link.weight_send sent
              have less : p.weight l'.weight < s.producer.weight s.link.weight := by
                rw [show l'.weight = l.weight from same]
                exact weight.2 _ rfl
              let d' : Delivery := { d with
                head := none
                chunks := d.chunks + 1
                written := d.written + b.length }
              obtain ⟨enough', settles⟩ := ih _ less ⟨l.clock.now, d', p, l'⟩ willing' rfl
              refine ⟨max cancelAt (max enough enough'), fun limit late => ?_⟩
              rw [loop_of_round (round_of_sent (asked limit (by omega)) some fits
                (sends limit (by omega)))]
              exact settles limit (by omega)

theorem run_settles (framing : Framing) (head : Option Bytes) (permit : Bool) (cancelAt : Nat)
    (p : Producer) (willing : l.writer.rule.Willing) :
    ∃ enough, ∀ limit, enough ≤ limit →
      Settled (({ framing, head, permit } : Delivery).run (.until cancelAt) p
        (l.limited limit)).1 := by
  obtain ⟨enough₁, l₁, rule, passed⟩ := flush_willing willing
  let s : Course := ⟨l.clock.now, { framing, head, permit }, p, l₁⟩
  obtain ⟨enough₂, settles⟩ := loop_settles s cancelAt (rule ▸ willing)
  refine ⟨max enough₁ enough₂, fun limit late => ?_⟩
  have here := settles limit (by omega)
  unfold run start
  simp only [passed limit (by omega)]
  exact here

end Delivery

end HttpExchange
