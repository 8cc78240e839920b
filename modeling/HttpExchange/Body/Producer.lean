import HttpExchange.Body.Error
import HttpExchange.Body.Link

/-!
Where the chunks of a body come from. A producer does nothing before it is asked, and each time it
is asked it answers with a chunk, a failure or its end. It may be asked again after a failure.
-/

namespace HttpExchange

/-- A step of a scripted producer. -/
inductive Yield where
  | chunk (b : Bytes)
  | raise (text : String)
  /-- A panic, with a text or with something else. -/
  | panic (text : Option String)
  | pause (ms : Nat)
  | until (moment : Nat)
  /-- Lets others go first, without waiting. -/
  | giveWay
  | silence
  /-- Asks for the body that this very producer feeds to be cancelled. -/
  | cancel
  deriving DecidableEq, Repr

inductive Producer where
  /-- Goes through a script, and notes each answer but the end. -/
  | script (steps : List Yield)
  /-- Hands over bytes that are there from the start, as one chunk. -/
  | known (b : Bytes)
  /-- Relays the body that its link receives. -/
  | incoming
  deriving DecidableEq, Repr

/-- What comes of asking a producer. -/
inductive Pull where
  | chunk (b : Bytes)
  | failed (cause : Mishap)
  | ended
  /-- A cancellation came first. -/
  | cancelled
  /-- Nothing came before the limit of the clock. -/
  | stuck
  deriving DecidableEq, Repr

namespace Producer

/-- The answer of a script. A cancellation that the script asks for is granted when it waits. -/
def pullScript (permit : Bool) : List Yield → Link → Pull × List Yield × Bool × Link
  | [], l => (.ended, [], permit, l)
  | .chunk b :: rest, l => (.chunk b, rest, permit, l.notePull)
  | .raise text :: rest, l => (.failed (.raised text), rest, permit, l.notePull)
  | .panic text :: rest, l => (.failed (.panicked text), rest, permit, l.notePull)
  | .cancel :: rest, l => pullScript true rest l
  | .giveWay :: rest, l =>
    if permit then (.cancelled, rest, false, l) else pullScript permit rest l
  | .pause ms :: rest, l =>
    if permit then (.cancelled, .until (l.clock.now + ms) :: rest, false, l)
    else match l.waitUntil (l.clock.now + ms) with
      | (true, l') => pullScript permit rest l'
      | (false, l') => (.stuck, .until (l.clock.now + ms) :: rest, permit, l')
  | .until moment :: rest, l =>
    if permit then (.cancelled, .until moment :: rest, false, l)
    else match l.waitUntil moment with
      | (true, l') => pullScript permit rest l'
      | (false, l') => (.stuck, .until moment :: rest, permit, l')
  | .silence :: rest, l =>
    if permit then (.cancelled, .silence :: rest, false, l)
    else (.stuck, .silence :: rest, permit, l.waitForever)

/-- Asks a producer. `permit` says whether the producer itself has asked for a cancellation. -/
def ask (p : Producer) (l : Link) : Pull × Producer × Bool × Link :=
  match p with
  | script steps =>
    let (pull, steps, permit, l) := pullScript false steps l
    (pull, script steps, permit, l)
  | known b => (if b.isEmpty then .ended else .chunk b, script [], false, l)
  | incoming => match l.readPiece with
    | (.ok (.data b), l) => (.chunk b, incoming, false, l)
    | (.ok .ended, l) => (.ended, incoming, false, l)
    | (.error e, l) => (.failed (.unread e), incoming, false, l)
    | (.stuck, l) => (.stuck, incoming, false, l)

/-- Asks a producer outside a delivery, where there is nothing to cancel. -/
def pull (p : Producer) (l : Link) : Pull × Producer × Link :=
  let (pull, p, _, l) := p.ask l
  (pull, p, l)

/-- Asks a producer that is cancelled at a moment if it has not answered before. -/
def askBefore (moment : Nat) (p : Producer) (l : Link) : Pull × Producer × Bool × Link :=
  if moment ≤ l.clock.now then (.cancelled, p, false, l)
  else match p.ask { l with clock := l.clock.within moment } with
    | (.stuck, p, permit, l') =>
      if moment ≤ l.clock.limit then
        (.cancelled, p, permit, { l' with clock := { l.clock with now := l'.clock.now } })
      else
        let wake := some (min moment (l'.clock.wake.getD moment))
        (.stuck, p, permit, { l' with clock := { l.clock with now := l'.clock.now, wake } })
    | (pull, p, permit, l') =>
      (pull, p, permit, { l' with clock := { l.clock with now := l'.clock.now } })

/-- A bound on the chunks that a producer can still hand over when its link has some weight. -/
def weight (p : Producer) (link : Nat) : Nat :=
  match p with
  | script steps => steps.length
  | known _ => 1
  | incoming => link

theorem weight_pullScript {permit steps l pull steps' permit' l'}
    (eq : pullScript permit steps l = (pull, steps', permit', l')) :
    l'.weight = l.weight ∧ steps'.length ≤ steps.length ∧
      ∀ b, pull = .chunk b → steps'.length < steps.length := by
  fun_induction pullScript permit steps l
  case case5 ih | case7 ih =>
    have := ih eq
    exact ⟨this.1, Nat.le_succ_of_le this.2.1, fun b same => Nat.lt_succ_of_lt (this.2.2 b same)⟩
  case case9 awake ih | case12 awake ih =>
    have := ih eq
    have := Link.weight_waitUntil awake
    exact ⟨by omega, by simp; omega, fun b same => Nat.lt_succ_of_lt (ih eq |>.2.2 b same)⟩
  case case10 asleep | case13 asleep =>
    cases eq
    exact ⟨Link.weight_waitUntil asleep, by simp, by simp⟩
  all_goals cases eq; simp

theorem weight_ask {p l pull p' permit l'} (eq : ask p l = (pull, p', permit, l')) :
    l'.weight ≤ l.weight ∧ ∀ b, pull = .chunk b → p'.weight l'.weight < p.weight l.weight := by
  unfold ask at eq
  split at eq
  · next steps =>
    cases eq
    have facts := @weight_pullScript false steps l _ _ _ _ rfl
    exact ⟨Nat.le_of_eq facts.1, facts.2.2⟩
  · cases eq
    exact ⟨Nat.le_refl _, fun _ _ => Nat.zero_lt_one⟩
  · split at eq
    · next read =>
      cases eq
      have facts := Link.weight_readPiece read
      exact ⟨facts.1, fun _ _ => facts.2 _ rfl⟩
    all_goals
      next read =>
        cases eq
        exact ⟨(Link.weight_readPiece read).1, by simp⟩

theorem weight_pull {p l pull p' l'} (eq : Producer.pull p l = (pull, p', l')) :
    l'.weight ≤ l.weight ∧ ∀ b, pull = .chunk b → p'.weight l'.weight < p.weight l.weight := by
  cases eq
  exact weight_ask rfl

theorem weight_askBefore {moment p l pull p' permit l'}
    (eq : askBefore moment p l = (pull, p', permit, l')) :
    l'.weight ≤ l.weight ∧ ∀ b, pull = .chunk b → p'.weight l'.weight < p.weight l.weight := by
  unfold askBefore at eq
  split at eq
  · cases eq
    simp
  · split at eq
    · split at eq <;> next asked _ =>
        cases eq
        exact ⟨(weight_ask asked).1, by simp⟩
    · next asked =>
      cases eq
      have facts := weight_ask asked
      exact facts

end Producer

end HttpExchange
