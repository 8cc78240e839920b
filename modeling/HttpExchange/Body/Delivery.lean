import HttpExchange.Body.Chunk
import HttpExchange.Body.Content

/-!
Delivery of a body onto a link, one chunk at a time. A chunk is written whole and passed on before
the producer is asked for the next one. The head may be held back until the first chunk is there:
as long as it is held, a failure leaves the wire untouched.

Only an end in order is announced on the wire. After anything else the message stays open, and
whoever drives the delivery has to abort the connection.
-/

namespace HttpExchange

namespace Framing

def frame (b : Bytes) : Framing → Bytes
  | chunked => Chunk.frame b
  | empty | length _ | untilClose => b

def terminator : Framing → Bytes
  | chunked => Chunk.terminator
  | empty | length _ | untilClose => []

end Framing

/-- Where a delivery stands. -/
inductive Stage where
  /-- No body was taken on yet. -/
  | ready
  | finished
  | failed
  deriving DecidableEq, Repr

/-- How long a producer may take. -/
inductive Patience where
  | endless
  /-- Up to a moment, whatever it does. -/
  | until (moment : Nat)
  /-- So long since its last answer. -/
  | idle (ms : Nat)
  deriving DecidableEq, Repr

def Patience.deadline? (last : Nat) : Patience → Option Nat
  | endless => none
  | .until moment => some moment
  | idle ms => some (last + ms)

structure Delivery where
  framing : Framing
  /-- The head that is held back, if there is one. -/
  head : Option Bytes := none
  stage : Stage := .ready
  /-- The number of chunks on the wire. -/
  chunks : Nat := 0
  /-- The number of their bytes. -/
  written : Nat := 0
  /-- Whether a cancellation was asked for that no demand has met yet. -/
  permit : Bool := false
  deriving DecidableEq, Repr

namespace Delivery

variable (d : Delivery)

def isCommitted : Bool := d.head.isNone

/-- Asks for a cancellation, which the next demand meets. -/
def cancel : Delivery := { d with permit := true }

def failure (cause : Mishap) : BodyError :=
  if d.isCommitted then .postCommit d.chunks cause else .preCommit cause

def commit (l : Link) : Outcome BodyError Unit × Delivery × Link :=
  match d.head with
  | none => (.ok (), d, l)
  | some head =>
    let (out, l) := l.send head
    (out.mapError .wire, { d with head := none }, l)

/-- Closes the sending direction, with the message left open. -/
def abort (l : Link) : Delivery × Link := ({ d with stage := .failed }, l.shutdown)

/-- One demand: asks the producer, unless a cancellation comes first. -/
def demand (deadline : Option Nat) (p : Producer) (l : Link) : Pull × Producer × Delivery × Link :=
  if d.permit then (.cancelled, p, { d with permit := false }, l)
  else
    let (pull, p, permit, l) := match deadline with
      | some moment => p.askBefore moment l
      | none => p.ask l
    (pull, p, { d with permit }, l)

/-- Writes a chunk, behind the head if that is still held back. No chunk goes beyond the length
that is announced. -/
def deliver (b : Bytes) (l : Link) : Outcome BodyError Unit × Delivery × Link :=
  match d.framing.declared?.filter fun n => n < d.written + b.length with
  | some n => (.error (d.failure (.tooLong n)), d, l)
  | none => match l.writeAll (d.head.getD [] ++ d.framing.frame b) with
    | (.ok (), l) =>
      (.ok (), { d with head := none, chunks := d.chunks + 1, written := d.written + b.length }, l)
    | (.error e, l) => (.error (.wire e), { d with head := none }, l)
    | (.stuck, l) => (.stuck, { d with head := none }, l)

/-- Writes the end, behind the head if that is still held back. The announced length has to be
reached. -/
def finish (l : Link) : Outcome BodyError Nat × Delivery × Link :=
  match d.framing.declared?.filter fun n => d.written ≠ n with
  | some n => (.error (d.failure (.tooShort d.written n)), d, l)
  | none =>
    let (out, l) := l.send (d.head.getD [] ++ d.framing.terminator)
    ((out.mapError BodyError.wire).map fun _ => d.chunks, { d with head := none }, l)

theorem weight_demand {d deadline p l pull p' d' l'}
    (eq : demand d deadline p l = (pull, p', d', l')) :
    l'.weight ≤ l.weight ∧ ∀ b, pull = .chunk b → p'.weight l'.weight < p.weight l.weight := by
  unfold demand at eq
  split at eq
  · cases eq
    simp
  · cases deadline <;> cases eq
    · exact Producer.weight_ask rfl
    · exact Producer.weight_askBefore rfl

theorem weight_deliver {d b l out d' l'} (eq : deliver d b l = (out, d', l')) :
    l'.weight = l.weight := by
  unfold deliver at eq
  split at eq
  · cases eq
    rfl
  · split at eq <;> next wrote =>
      cases eq
      exact Link.weight_writeAll wrote

theorem weight_finish {d l out d' l'} (eq : finish d l = (out, d', l')) :
    l'.weight = l.weight := by
  unfold finish at eq
  split at eq <;> cases eq <;> rfl

/-- Goes on behind a flush. The last answer of the producer came at `last`. -/
def loop (patience : Patience) (last : Nat) (d : Delivery) (p : Producer) (l : Link) :
    Outcome BodyError Nat × Delivery × Link :=
  match _asked : d.demand (patience.deadline? last) p l with
  | (.chunk b, p₁, d₁, l₁) =>
    if b.isEmpty then loop patience l₁.clock.now d₁ p₁ l₁
    else match _wrote : d₁.deliver b l₁ with
      | (.ok (), d₂, l₂) => match _passed : l₂.flush with
        | (.ok (), l₃) => loop patience l₁.clock.now d₂ p₁ l₃
        | (.error e, l₃) => (.error (.wire e), d₂, l₃)
        | (.stuck, l₃) => (.stuck, d₂, l₃)
      | (.error e, d₂, l₂) => (.error e, d₂, l₂)
      | (.stuck, d₂, l₂) => (.stuck, d₂, l₂)
  | (.failed cause, _, d, l) => (.error (d.failure cause), d, l)
  | (.ended, _, d, l) => d.finish l
  | (.cancelled, _, d, l) => (.error (.cancelled d.isCommitted), d, l)
  | (.stuck, _, d, l) => (.stuck, d, l)
termination_by p.weight l.weight
decreasing_by
  · exact (weight_demand _asked).2 _ rfl
  · rw [Link.weight_flush _passed, weight_deliver _wrote]
    exact (weight_demand _asked).2 _ rfl

/-- Has what was written before passed on, and goes on. The producer's time runs from the start. -/
def start (patience : Patience) (p : Producer) (l : Link) :
    Outcome BodyError Nat × Delivery × Link :=
  match l.flush with
  | (.ok (), l₁) => loop patience l.clock.now d p l₁
  | (.error e, l₁) => (.error (.wire e), d, l₁)
  | (.stuck, l₁) => (.stuck, d, l₁)

/-- The stage after an attempt: without a number of chunks it failed. -/
def settle (out : Outcome BodyError Nat) : Delivery :=
  { d with stage := match out with
      | .ok _ => .finished
      | _ => .failed }

/-- Delivers all that a producer gives, and the end. Gives the number of chunks. A delivery does
this once; after its end it only repeats that number, and after a failure it refuses. -/
def run (patience : Patience) (p : Producer) (l : Link) : Outcome BodyError Nat × Delivery × Link :=
  match d.stage with
  | .failed => (.error .alreadyConsumed, d, l)
  | .finished => (.ok d.chunks, d, l)
  | .ready =>
    let (out, d, l) := d.start patience p l
    (out, d.settle out, l)

theorem weight_loop {patience last d p l out d' l'}
    (eq : loop patience last d p l = (out, d', l')) : l'.weight ≤ l.weight := by
  fun_induction loop patience last d p l
  case case1 asked _ ih => exact Nat.le_trans (ih eq) (weight_demand asked).1
  case case2 asked _ _ _ wrote _ passed ih =>
    have := weight_deliver wrote
    have := Link.weight_flush passed
    have := (weight_demand asked).1
    have := ih eq
    omega
  case case3 asked _ _ _ wrote _ _ passed | case4 asked _ _ _ wrote _ passed =>
    cases eq
    have := weight_deliver wrote
    have := Link.weight_flush passed
    have := (weight_demand asked).1
    omega
  case case5 asked _ _ _ _ wrote | case6 asked _ _ _ wrote =>
    cases eq
    exact Nat.le_trans (Nat.le_of_eq (weight_deliver wrote)) (weight_demand asked).1
  case case8 asked =>
    exact Nat.le_trans (Nat.le_of_eq (weight_finish eq)) (weight_demand asked).1
  all_goals
    next asked =>
      cases eq
      exact (weight_demand asked).1

theorem weight_start {d patience p l out d' l'}
    (eq : start d patience p l = (out, d', l')) : l'.weight ≤ l.weight := by
  unfold start at eq
  split at eq
  · next passed =>
    exact Nat.le_trans (weight_loop eq) (Nat.le_of_eq (Link.weight_flush passed))
  all_goals
    next passed =>
      cases eq
      exact Nat.le_of_eq (Link.weight_flush passed)

theorem weight_run {d patience p l out d' l'}
    (eq : run d patience p l = (out, d', l')) : l'.weight ≤ l.weight := by
  unfold run at eq
  split at eq <;> cases eq
  · exact Nat.le_refl _
  · exact Nat.le_refl _
  · exact weight_start rfl

end Delivery

end HttpExchange
