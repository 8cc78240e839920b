import HttpExchange.Proofs.Body.Answering

/-!
A producer that fails. All that it gave before is delivered in whole frames, however long it and the
writer take; the failure ends the delivery without an end on the wire, and the producer is not asked
again.
-/

namespace HttpExchange

namespace Producer

/-- Asked again and again, the producer answers with these chunks and then with a failure. -/
inductive Breaks : Producer → Link → List Bytes → Mishap → Prop where
  | failed {p p' : Producer} {l l' : Link} {cause : Mishap}
      (answers : p.Answers l (.failed cause) p' l') : Breaks p l [] cause
  | chunk {p p' : Producer} {l l' : Link} {b : Bytes} {bs : List Bytes} {cause : Mishap}
      (answers : p.Answers l (.chunk b) p' l') (rest : Breaks p' l' bs cause) :
      Breaks p l (b :: bs) cause

variable {p q : Producer} {l l' m : Link} {bs : List Bytes} {cause : Mishap}

theorem Breaks.gives (breaks : p.Breaks l bs cause) :
    ∃ q m q' m', p.Gives l bs q m ∧ q.Answers m (.failed cause) q' m' := by
  induction breaks with
  | @failed p p' l l' cause answers => exact ⟨p, l, p', l', .none p l, answers⟩
  | chunk answers rest ih =>
      obtain ⟨q, m, q', m', gives, fails⟩ := ih
      exact ⟨q, m, q', m', .chunk answers gives, fails⟩

theorem Gives.breaks {m m' : Link} {q' : Producer} (gives : p.Gives l bs q m)
    (fails : q.Answers m (.failed cause) q' m') : p.Breaks l bs cause := by
  induction gives with
  | none => exact .failed fails
  | chunk answers rest ih => exact .chunk answers (ih fails)

/-- Neither the clock nor the writer makes a difference to a producer that fails. -/
theorem Breaks.congr (breaks : p.Breaks l bs cause) (still : l.Still l') :
    p.Breaks l' bs cause := by
  obtain ⟨q, m, q', m', gives, fails⟩ := breaks.gives
  obtain ⟨m₁, gives₁, still₁⟩ := gives.congr still
  obtain ⟨_, fails₁, _⟩ := fails.congr still₁
  exact gives₁.breaks fails₁

end Producer

/-- Whether a step only gives a chunk, or lets some time pass. -/
def Yield.isTimely : Yield → Bool
  | .chunk _ | .giveWay | .pause _ | .until _ => true
  | _ => false

def Yield.failure? : Yield → Option Mishap
  | .raise text => some (.raised text)
  | .panic text => some (.panicked text)
  | _ => none

namespace Producer

variable {p q : Producer} {l : Link} {bs : List Bytes} {cause : Mishap}

theorem Breaks.of_answers (breaks : p.Breaks l bs cause)
    (answers : ∀ {pull : Pull} {p' : Producer} {l' : Link}, p.Answers l pull p' l' →
      q.Answers l pull p' l') : q.Breaks l bs cause := by
  cases breaks with
  | failed first => exact .failed (answers first)
  | chunk first rest => exact .chunk (answers first) rest

theorem Breaks.congr_ask (breaks : p.Breaks l bs cause) (same : ∀ l, q.ask l = p.ask l) :
    q.Breaks l bs cause := by
  refine breaks.of_answers fun answers clock => ?_
  simp only [same]
  exact answers clock

theorem Breaks.behind_wait (breaks : p.Breaks l bs cause) (wait : Nat → Nat)
    (late : ∀ (clock : Clock) (limit : Nat), wait clock.now ≤ limit →
      q.ask { l with clock := clock.limited limit } = p.ask { l with
        clock := { clock with now := max clock.now (wait clock.now) }.limited limit })
    (early : ∀ (clock : Clock) (limit : Nat), limit < wait clock.now →
      (q.ask { l with clock := clock.limited limit }).1 = .stuck) : q.Breaks l bs cause := by
  refine breaks.of_answers fun answers clock => ?_
  obtain ⟨moment, clock', answer⟩ := answers { clock with now := max clock.now (wait clock.now) }
  refine ⟨max (wait clock.now) moment, clock', fun limit => ⟨fun reached => ?_, fun before => ?_⟩⟩
  · rw [late clock limit (by omega)]
    exact (answer limit).1 (by omega)
  · by_cases waited : wait clock.now ≤ limit
    · rw [late clock limit waited]
      exact (answer limit).2 (by omega)
    · exact early clock limit (Nat.lt_of_not_le waited)

theorem Breaks.behind_until {steps : List Yield} (breaks : (script steps).Breaks l bs cause)
    (wait : Nat → Nat)
    (same : ∀ l, q.ask l = (script (.until (wait l.clock.now) :: steps)).ask l) :
    q.Breaks l bs cause := by
  refine breaks.behind_wait wait ?_ ?_
  · intro clock limit late
    rw [same]
    simp only [ask, pullScript, Link.waitUntil, Bool.false_eq_true, if_false]
    rw [show (clock.limited limit).now = clock.now from rfl, clock.waitUntil_limited late]
  · intro clock limit early
    have asleep : ((clock.limited limit).waitUntil (wait clock.now)).1 = false :=
      congrArg Prod.fst (if_neg (Nat.not_le_of_lt early))
    rw [same]
    simp only [ask, pullScript, Link.waitUntil, Bool.false_eq_true, if_false]
    rw [show (clock.limited limit).now = clock.now from rfl]
    rcases waited : (clock.limited limit).waitUntil (wait clock.now) with ⟨awake, c⟩
    rw [waited] at asleep
    cases asleep
    rfl

/-- A script that fails behind some chunks, with as many waits in between as it likes. -/
theorem breaks_script {front rest : List Yield} {step : Yield}
    (timely : ∀ step ∈ front, step.isTimely = true) (fails : step.failure? = some cause)
    (l : Link) : (script (front ++ step :: rest)).Breaks l (Yield.offered front) cause := by
  have soon : ∀ {limit : Nat} {fact : Prop}, limit < 0 → fact := fun early =>
    absurd early (Nat.not_lt_zero _)
  induction front generalizing l with
  | nil =>
      have answers : (script (step :: rest)).Answers l (.failed cause) (script rest)
          l.notePull := by
        intro clock
        refine ⟨0, clock, fun limit => ⟨fun _ => ?_, soon⟩⟩
        cases step with
        | raise text | panic text =>
            cases fails
            rfl
        | chunk | pause | «until» | giveWay | silence | cancel => cases fails
      exact .failed answers
  | cons first front ih =>
      obtain ⟨here, later⟩ := List.forall_mem_cons.mp timely
      cases first with
      | chunk b =>
          have answers : (script (.chunk b :: (front ++ step :: rest))).Answers l (.chunk b)
              (script (front ++ step :: rest)) l.notePull :=
            fun clock => ⟨0, clock, fun limit => ⟨fun _ => rfl, soon⟩⟩
          exact .chunk answers (ih later l.notePull)
      | giveWay => exact (ih later l).congr_ask fun _ => rfl
      | «until» moment => exact (ih later l).behind_until (fun _ => moment) fun _ => rfl
      | pause ms =>
          refine (ih later l).behind_until (· + ms) fun l => ?_
          rw [List.cons_append, ask, ask, pullScript_pause]
      | raise | panic | silence | cancel => cases here

end Producer

namespace Delivery

variable {patience : Patience} {s s' : Course} {p : Producer} {l : Link} {chunks : List Bytes}
  {cause : Mishap}

theorem answers_of_failed {d : Delivery} (asked : s.demand patience = (.failed cause, p, d, l)) :
    Event.answers (s.later patience) = [.failed cause] := by
  rw [later_of_halt (.failed asked), Course.turn, isCancelled_eq_false asked Pull.noConfusion,
    asked]
  rfl

/-- Unless it is cut off or the writer fails, a delivery in chunks behind its head reports the
failure of its producer with the number of chunks before it. Their frames are all that it has put on
the wire, and behind the failure the producer is not asked any more. -/
theorem run_of_breaks (patience : Patience) (patient : l.writer.rule.Patient)
    (breaks : p.Breaks l chunks cause) :
    let d : Delivery := { framing := .chunked }
    let sends : List Bytes := [] :: Framing.chunked.sends chunks
    ∃ enough : Nat,
      (patience ≠ .endless ∧ ∀ limit, enough ≤ limit →
        ∃ d' l', d.run patience p (l.limited limit) = (.error (.cancelled true), d', l')) ∨
      (∀ limit, enough ≤ limit →
        Interrupted l.writer sends (d.run patience p (l.limited limit))) ∨
      ∀ limit, enough ≤ limit → ∃ d' l', d.run patience p (l.limited limit) =
          (.error (.postCommit (filled chunks).length cause), d', l') ∧
        l.writer.Carried l'.writer sends ∧
        Event.answers (d.history patience p (l.limited limit)) =
          chunks.map .chunk ++ [.failed cause] := by
  intro d sends
  obtain ⟨q, m, q', m', gives, fails⟩ := breaks.gives
  obtain ⟨enough, cut | interrupted | ⟨s, rfl, still, reached⟩⟩ :=
    reached_of_gives patience patient gives
  · exact ⟨enough, .inl cut⟩
  · exact ⟨enough, .inr (.inl interrupted)⟩
  obtain ⟨m₁, fails₁, _⟩ := fails.congr still
  obtain ⟨enough', ⟨timed, cancelled⟩ | ⟨clock, answer⟩⟩ :=
    demand_of_answers patience fails₁ Pull.noConfusion reached.flows.still
  · refine ⟨max enough enough', .inl ⟨timed, fun limit late => ?_⟩⟩
    obtain ⟨d', l', looped⟩ := loop_of_cancelled (s := s.limited limit) reached.flows.sent
      (cancelled limit (by omega))
    exact ⟨_, l', reached.runs limit (by omega) _ d' l' looped⟩
  · refine ⟨max enough enough', .inr (.inr fun limit late => ?_)⟩
    have asked := answer limit (by omega)
    have error : ({ s.delivery with permit := false } : Delivery).failure cause =
        .postCommit (filled chunks).length cause := by
      rw [← reached.count, failure, isCommitted, reached.flows.sent]
      rfl
    have looped := loop_of_halt (.failed asked)
    have here := carried_of_demand asked
    have carried := reached.carried.trans here
    rw [error] at looped
    rw [List.append_nil] at carried
    refine ⟨_, _, reached.runs limit (by omega) _ _ _ looped, carried, ?_⟩
    rw [reached.answers limit (by omega), answers_of_failed asked]

end Delivery

end HttpExchange
