import HttpExchange.Proofs.Body.Breaking

/-!
A body that does not get through: its producer fails, or the writer does within what there is to
send. Whichever comes first, the delivery ends with it, and its report tells which of them it was.
-/

namespace HttpExchange

open Delivery (filled)

namespace Producer

variable {p q : Producer} {l l' m : Link} {chunks : List Bytes} {cause : Option Mishap}
  {before sends : List Bytes}

/-- A body does not get through behind what is sent before it. Its producer fails behind some
chunks; or the writer fails by the time that these are sent, whatever the producer does behind them;
or it fails by the time that the end of the body is sent. -/
inductive Doomed (p : Producer) (l : Link) (before : List Bytes) :
    List Bytes → Option Mishap → List Bytes → Prop where
  | producer {chunks : List Bytes} {cause : Mishap} (breaks : p.Breaks l chunks cause) :
      Doomed p l before chunks (some cause) (Framing.chunked.sends chunks)
  | chunk {chunks : List Bytes} {q : Producer} {m : Link} (gives : p.Gives l chunks q m)
      (fails : l.writer.FailsIn (before ++ Framing.chunked.sends chunks)) :
      Doomed p l before chunks none (Framing.chunked.sends chunks)
  | ending {chunks : List Bytes} {q q' : Producer} {m m' : Link} (gives : p.Gives l chunks q m)
      (ends : q.Answers m .ended q' m')
      (fails : l.writer.FailsIn
        (before ++ (Framing.chunked.sends chunks ++ [Framing.chunked.terminator]))) :
      Doomed p l before chunks none
        (Framing.chunked.sends chunks ++ [Framing.chunked.terminator])

/-- What was sent in order before the body does not save it. -/
theorem Doomed.behind {first : List Bytes} (doomed : p.Doomed l (first ++ before) chunks cause sends)
    (carried : l.writer.Carried l'.writer first) (still : l.Still l') :
    p.Doomed l' before chunks cause sends := by
  have later : ∀ {more : List Bytes}, l.writer.FailsIn (first ++ before ++ more) →
      l'.writer.FailsIn (before ++ more) := by
    intro more fails
    rw [List.append_assoc] at fails
    exact carried.failsIn_iff.mp fails
  cases doomed with
  | producer breaks => exact .producer (breaks.congr still)
  | chunk gives fails =>
      obtain ⟨m', gives', _⟩ := gives.congr still
      exact .chunk gives' (later fails)
  | ending gives ends fails =>
      obtain ⟨m', gives', still'⟩ := gives.congr still
      obtain ⟨_, ends', _⟩ := ends.congr still'
      exact .ending gives' ends' (later fails)

end Producer

namespace Delivery

variable {p q : Producer} {l m : Link} {chunks sends : List Bytes} {cause : Option Mishap}

/-- A writer that fails by the time that some chunks are sent is what the delivery comes to. -/
theorem interrupted_of_gives (patient : l.writer.rule.Patient) (gives : p.Gives l chunks q m)
    (fails : l.writer.FailsIn ([] :: Framing.chunked.sends chunks)) :
    ∃ enough : Nat, ∀ limit, enough ≤ limit →
      Interrupted l.writer ([] :: Framing.chunked.sends chunks)
        (({ framing := .chunked } : Delivery).run .endless p (l.limited limit)) := by
  obtain ⟨enough, ⟨timed, _⟩ | interrupted | ⟨s, _, _, reached⟩⟩ :=
    reached_of_gives .endless patient gives
  · exact absurd rfl timed
  · exact ⟨enough, interrupted⟩
  · exact absurd fails reached.carried.not_failsIn

/-- A delivery of a body that does not get through comes to the failure of the writer or, if the
writer came past all chunks, to the failure of the producer. -/
theorem run_of_doomed (patient : l.writer.rule.Patient)
    (doomed : p.Doomed l [[]] chunks cause sends) :
    let d : Delivery := { framing := .chunked }
    ∃ enough : Nat,
      (∀ limit, enough ≤ limit →
        Interrupted l.writer ([] :: sends) (d.run .endless p (l.limited limit))) ∨
      ∃ mishap, cause = some mishap ∧ sends = Framing.chunked.sends chunks ∧
        ∀ limit, enough ≤ limit → ∃ d' l', d.run .endless p (l.limited limit) =
            (.error (.postCommit (filled chunks).length mishap), d', l') ∧
          l.writer.Carried l'.writer ([] :: sends) := by
  cases doomed with
  | producer breaks =>
      obtain ⟨enough, ⟨timed, _⟩ | interrupted | breaksOff⟩ :=
        run_of_breaks .endless patient breaks
      · exact absurd rfl timed
      · exact ⟨enough, .inl interrupted⟩
      · refine ⟨enough, .inr ⟨_, rfl, rfl, fun limit late => ?_⟩⟩
        obtain ⟨d', l', ran, carried, _⟩ := breaksOff limit late
        exact ⟨d', l', ran, carried⟩
  | chunk gives fails =>
      obtain ⟨enough, interrupted⟩ := interrupted_of_gives patient gives fails
      exact ⟨enough, .inl interrupted⟩
  | ending gives ends fails =>
      obtain ⟨enough, interrupted | ⟨_, _, _, carried, _⟩⟩ := run_of_gives patient gives ends
      · exact ⟨enough, .inl interrupted⟩
      · exact absurd fails carried.not_failsIn

end Delivery

end HttpExchange
