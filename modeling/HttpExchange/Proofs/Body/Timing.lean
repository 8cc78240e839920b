import HttpExchange.Proofs.Body.Answering
import HttpExchange.Proofs.Body.Decoding
import HttpExchange.Proofs.Wire.Timing

/-!
What a producer answers does not depend on when it is asked. It answers on every clock what it
answers on one, as soon as the limit leaves room for its waits.
-/

namespace HttpExchange

namespace Decoder

variable {r r' : Reader} {c c' : Clock}

theorem comes_readLine {out : Outcome WireError Bytes} (eq : readLine r c = (out, r', c'))
    (came : out ≠ .stuck) : Comes (·.1 = .stuck) (readLine r) (fun c => (out, r', c)) := by
  rcases read : r.line maxLine c with ⟨answer, r₁, c₁⟩
  rw [readLine, read] at eq
  have other : answer ≠ .stuck := by
    rintro rfl
    cases eq
    exact came rfl
  apply (Reader.comes_lineOnto read other).map
  · intro c c' took
    rw [readLine, Reader.line, took]
    rcases answer with line | e | _
    · simp only at eq ⊢
      split_ifs at eq ⊢ <;> cases eq <;> rfl
    · cases eq
      rfl
    · cases eq
      rfl
  · intro c waits
    rcases took : r.line maxLine c with ⟨answer, r₁, c₁⟩
    have stuck : (r.line maxLine c).1 = .stuck := waits
    rw [took] at stuck
    cases stuck
    rw [readLine, took]

theorem comes_readData {left bound : Nat} {out : Outcome WireError Bytes}
    (eq : readData left bound r c = (out, r', c')) (came : out ≠ .stuck) :
    Comes (·.1 = .stuck) (readData left bound r) (fun c => (out, r', c)) := by
  rcases read : r.exactly (min left bound) c with ⟨answer, r₁, c₁⟩
  rw [readData, read] at eq
  have other : answer ≠ .stuck := by
    rintro rfl
    cases eq
    exact came rfl
  apply (Reader.comes_exactlyOnto read other).map
  · intro c c' took
    rw [readData, Reader.exactly, took]
    rcases answer with (_ | b) | e | _ <;> cases eq <;> rfl
  · intro c waits
    rcases took : r.exactly (min left bound) c with ⟨answer, r₁, c₁⟩
    have stuck : (r.exactly (min left bound) c).1 = .stuck := waits
    rw [took] at stuck
    cases stuck
    rw [readData, took]

theorem comes_of_line {state : DecoderState} {bound : Nat} {text : Bytes}
    {rest answer : Clock → Outcome WireError Piece × DecoderState × Reader × Clock}
    (atLine : AtLine state) (read : readLine r c = (.ok text, r', c'))
    (goes : ∀ c, afterLine state bound text r' c = rest c) (later : Comes (·.1 = .stuck) rest answer) :
    Comes (·.1 = .stuck) (advance state bound r) answer := by
  apply (comes_readLine read nofun).behind later
  · intro c c' took
    rw [advance_of_line atLine took]
    exact goes c'
  · intro c waits
    rcases took : readLine r c with ⟨out, r₁, c₁⟩
    rw [took] at waits
    cases waits
    rw [advance_atLine atLine, took]

theorem comes_of_line_error {state : DecoderState} {bound : Nat} {e : WireError}
    (atLine : AtLine state) (read : readLine r c = (.error e, r', c')) :
    Comes (·.1 = .stuck) (advance state bound r) (fun c => (.error e, state, r', c)) := by
  apply (comes_readLine read nofun).map
  · intro c c' took
    rw [advance_atLine atLine, took]
  · intro c waits
    rcases took : readLine r c with ⟨out, r₁, c₁⟩
    rw [took] at waits
    cases waits
    rw [advance_atLine atLine, took]

theorem comes_of_data {at_ : Nat → DecoderState} (counts : CountsDown at_) (left : Nat)
    {bound : Nat} {out : Outcome WireError Bytes} (read : readData (left + 1) bound r c = (out, r', c'))
    (came : out ≠ .stuck) :
    Comes (·.1 = .stuck) (advance (at_ (left + 1)) bound r) (fun c => match out with
      | .ok b => (.ok (.data b), at_ (left + 1 - b.length), r', c)
      | .error e => (.error e, at_ (left + 1), r', c)
      | .stuck => (.stuck, at_ (left + 1), r', c)) := by
  apply (comes_readData read came).map
  · intro c c' took
    rw [counts, took]
    cases out <;> rfl
  · intro c waits
    rcases took : readData (left + 1) bound r c with ⟨out, r₁, c₁⟩
    rw [took] at waits
    cases waits
    rw [counts, took]

theorem comes_of_available {bound : Nat} {out : Outcome IoFault Bytes}
    (read : r.available bound c = (out, r', c')) (came : out ≠ .stuck) :
    Comes (·.1 = .stuck) (advance .untilClose bound r) (fun c => match out with
      | .ok b => if b.isEmpty then (.ok .ended, .done, r', c) else (.ok (.data b), .untilClose, r', c)
      | .error e => (.error (.ofRead e), .untilClose, r', c)
      | .stuck => (.stuck, .untilClose, r', c)) := by
  apply (Reader.comes_available read came).map
  · intro c c' took
    rw [advance, took]
    cases out <;> rfl
  · intro c waits
    rcases took : r.available bound c with ⟨out, r₁, c₁⟩
    rw [took] at waits
    cases waits
    rw [advance, took]

theorem comes_advance {state state' : DecoderState} {bound : Nat} {out : Outcome WireError Piece}
    (eq : advance state bound r c = (out, state', r', c')) (came : out ≠ .stuck) :
    Comes (·.1 = .stuck) (advance state bound r) (fun c => (out, state', r', c)) := by
  fun_induction advance state bound r c
  -- lines behind which the decoder goes on within the same answer
  case case2 read parsed ih =>
    refine comes_of_line (.inl rfl) read ?_ (ih eq)
    intro c
    simp only [afterLine, parsed]
  case case3 read n parsed ih =>
    refine comes_of_line (.inl rfl) read ?_ (ih eq)
    intro c
    simp only [afterLine, parsed]
  case case9 read blank ih =>
    refine comes_of_line (.inr (.inl rfl)) read ?_ (ih eq)
    intro c
    simp only [afterLine, if_pos blank]
  case case14 read some ih =>
    refine comes_of_line (.inr (.inr rfl)) read ?_ (ih eq)
    intro c
    simp only [afterLine, if_neg some]
  -- lines that end the answer
  case case1 read fault parsed =>
    cases eq
    refine comes_of_line (.inl rfl) read ?_ (.now fun _ => rfl)
    intro c
    simp only [afterLine, parsed]
  case case10 read some =>
    cases eq
    refine comes_of_line (.inr (.inl rfl)) read ?_ (.now fun _ => rfl)
    intro c
    simp only [afterLine, if_neg some]
  case case13 read blank =>
    cases eq
    refine comes_of_line (.inr (.inr rfl)) read ?_ (.now fun _ => rfl)
    intro c
    simp only [afterLine, if_pos blank]
  case case4 read =>
    cases eq
    exact comes_of_line_error (.inl rfl) read
  case case11 read =>
    cases eq
    exact comes_of_line_error (.inr (.inl rfl)) read
  case case15 read =>
    cases eq
    exact comes_of_line_error (.inr (.inr rfl)) read
  -- counted bytes
  case case6 r c more b r₁ c₁ read =>
    have step : advance (inChunk (more + 1)) bound r c = (out, state', r', c') := by
      rw [inChunk, advance, read]
      exact eq
    rw [inChunk_countsDown, read] at step
    cases step
    exact comes_of_data inChunk_countsDown more read (Outcome.ok_ne_stuck _)
  case case7 r c more e r₁ c₁ read =>
    cases eq
    exact comes_of_data inChunk_countsDown more read (Outcome.error_ne_stuck _)
  case case18 r c n b r₁ c₁ read =>
    cases eq
    exact comes_of_data length_countsDown n read (Outcome.ok_ne_stuck _)
  case case19 r c n e r₁ c₁ read =>
    cases eq
    exact comes_of_data length_countsDown n read (Outcome.error_ne_stuck _)
  -- what there is
  case case21 read none =>
    cases eq
    have comes := comes_of_available read (Outcome.ok_ne_stuck _)
    simp only [if_pos none] at comes
    exact comes
  case case22 read some =>
    cases eq
    have comes := comes_of_available read (Outcome.ok_ne_stuck _)
    simp only [if_neg some] at comes
    exact comes
  case case23 read =>
    cases eq
    exact comes_of_available read (Outcome.error_ne_stuck _)
  -- nothing is read
  case case17 | case25 | case26 =>
    cases eq
    apply Comes.now
    intro c
    rw [advance]
  all_goals
    cases eq
    exact absurd rfl came

theorem comes_next {d d' : Decoder} {out : Outcome WireError Piece}
    (eq : d.next r c = (out, d', r', c')) (came : out ≠ .stuck) :
    Comes (·.1 = .stuck) (d.next r) (fun c => (out, d', r', c)) := by
  rcases step : advance d.state (max 1 d.bound) r c with ⟨answer, state, r₁, c₁⟩
  rw [next, step] at eq
  have other : answer ≠ .stuck := by
    rintro rfl
    cases eq
    exact came rfl
  apply (comes_advance step other).map
  · intro c c' took
    rw [next, took]
    rcases answer with (b | _) | e | _ <;> cases eq <;> rfl
  · intro c waits
    rcases took : advance d.state (max 1 d.bound) r c with ⟨answer, state, r₁, c₁⟩
    rw [took] at waits
    cases waits
    rw [next, took]

end Decoder

theorem Link.comes_readPiece {l l' : Link} {out : Outcome WireError Piece}
    (eq : l.readPiece = (out, l')) (came : out ≠ .stuck) :
    Comes (·.1 = .stuck) (fun c => { l with clock := c }.readPiece)
      (fun c => (out, { l' with clock := c })) := by
  rcases read : l.body.next l.reader l.clock with ⟨answer, body, reader, clock⟩
  rw [readPiece, read] at eq
  cases eq
  apply (Decoder.comes_next read came).map
  · intro c c' took
    rw [readPiece, took]
  · intro c waits
    exact waits

namespace Producer

variable {p p' : Producer} {l l' : Link} {pull : Pull} {permit permit' : Bool}
  {steps steps' : List Yield}

theorem comes_pullScript (eq : pullScript permit steps l = (pull, steps', permit', l'))
    (own : pull ≠ .cancelled) (came : pull ≠ .stuck) :
    Comes (·.1 = .stuck) (fun c => pullScript permit steps { l with clock := c })
      (fun c => (pull, steps', permit', { l' with clock := c })) := by
  induction steps generalizing permit l with
  | nil =>
      cases eq
      exact .now fun _ => rfl
  | cons step steps ih =>
      -- a pause is a wait for the moment at which it is over
      have waits : ∀ moment : Nat → Nat,
          (∀ l, pullScript permit (step :: steps) l =
            pullScript permit (.until (moment l.clock.now) :: steps) l) →
          Comes (·.1 = .stuck) (fun c => pullScript permit (step :: steps) { l with clock := c })
            (fun c => (pull, steps', permit', { l' with clock := c })) := by
        intro moment same
        cases permit with
        | true =>
            rw [same, pullScript] at eq
            cases eq
            exact absurd rfl own
        | false =>
            rcases waited : l.clock.waitUntil (moment l.clock.now) with ⟨_ | _, c₁⟩
            · simp only [same, pullScript, Link.waitUntil, waited, Bool.false_eq_true, if_false]
                at eq
              cases eq
              exact absurd rfl came
            · simp only [same, pullScript, Link.waitUntil, waited, Bool.false_eq_true, if_false]
                at eq
              apply (Comes.wait moment).behind (ih eq)
              · intro c c' awake
                simp only [same, pullScript, Link.waitUntil, awake, Bool.false_eq_true, if_false]
              · intro c early
                rcases asleep : c.waitUntil (moment c.now) with ⟨_ | _, c₂⟩
                · simp only [same, pullScript, Link.waitUntil, asleep, Bool.false_eq_true, if_false]
                · simp only [asleep] at early
                  cases early
      cases step with
      | chunk b | raise text | panic text =>
          cases eq
          exact .now fun _ => rfl
      | cancel => exact ih eq
      | giveWay =>
          cases permit with
          | true =>
              cases eq
              exact absurd rfl own
          | false => exact ih eq
      | pause ms => exact waits (· + ms) fun l => pullScript_pause permit ms steps l
      | «until» moment => exact waits (fun _ => moment) fun _ => rfl
      | silence =>
          rw [pullScript] at eq
          cases permit with
          | true =>
              cases eq
              exact absurd rfl own
          | false =>
              cases eq
              exact absurd rfl came

theorem comes_ask (eq : p.ask l = (pull, p', permit, l')) (own : pull ≠ .cancelled)
    (came : pull ≠ .stuck) :
    Comes (·.1 = .stuck) (fun c => p.ask { l with clock := c })
      (fun c => (pull, p', permit, { l' with clock := c })) := by
  cases p with
  | script steps =>
      obtain ⟨steps', rfl, pulled⟩ := ask_script eq
      apply (comes_pullScript pulled own came).map
      · intro c c' took
        rw [ask, took]
      · intro c waits
        exact waits
  | known b =>
      cases eq
      exact .now fun _ => rfl
  | incoming =>
      rcases read : l.readPiece with ⟨answer, l₁⟩
      rw [ask, read] at eq
      have other : answer ≠ .stuck := by
        rintro rfl
        cases eq
        exact came rfl
      apply (Link.comes_readPiece read other).map
      · intro c c' took
        rw [ask, took]
        rcases answer with (b | _) | e | _ <;> cases eq <;> rfl
      · intro c waits
        rcases took : { l with clock := c }.readPiece with ⟨answer, l₂⟩
        rw [took] at waits
        cases waits
        rw [ask, took]

/-- An answer that comes before a deadline is the answer with that deadline. -/
theorem askBefore_of_ask {moment : Nat} (eq : p.ask l = (pull, p', permit, l'))
    (own : pull ≠ .cancelled) (came : pull ≠ .stuck) (early : l'.clock.now < moment) :
    p.askBefore moment l = (pull, p', permit, l') := by
  have here : ¬ (p.ask l).1 = .stuck := by
    rw [eq]
    exact came
  obtain ⟨reached, inTime, answer, comes⟩ := (comes_ask eq own came).limited (c := l.clock) here
  have clock : l'.clock = l.clock.reached reached :=
    congrArg (fun x => x.2.2.2.clock) (eq.symm.trans answer)
  obtain ⟨_, reader, writer, body⟩ := l'
  subst clock
  have before : l.clock.now < moment := Nat.lt_of_le_of_lt (Nat.le_max_left _ reached) early
  have behind : reached < moment := Nat.lt_of_le_of_lt (Nat.le_max_right l.clock.now _) early
  rw [askBefore, if_neg (Nat.not_le_of_lt before)]
  rw [show p.ask { l with clock := l.clock.within moment } = _ from
    comes (min l.clock.limit moment) (by omega)]
  cases pull with
  | stuck => exact absurd rfl came
  | chunk b | failed cause | ended | cancelled => rfl

theorem answers_of_ask (eq : p.ask l = (pull, p', false, l')) (own : pull ≠ .cancelled)
    (came : pull ≠ .stuck) : p.Answers l pull p' l' := by
  intro clock
  obtain ⟨moment, comes⟩ := comes_ask eq own came clock
  exact ⟨moment, clock.reached moment, comes⟩

end Producer

end HttpExchange
