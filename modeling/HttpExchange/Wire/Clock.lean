/-!
Virtual time. Waiting moves the clock; nothing else does. A clock has a limit, the moment at which
whoever waits is asked to give up, and what is still waiting then has no outcome.
-/

namespace HttpExchange

/-- A moment in milliseconds, with the last moment that waiting may reach. -/
structure Clock where
  now : Nat := 0
  limit : Nat
  /-- When the limit came first: the moment at which waiting would have been over, if any. -/
  wake : Option Nat := none
  deriving DecidableEq, Repr

namespace Clock

/-- Gives up waiting for a moment, or for ever, at the limit. -/
def expire (c : Clock) (wake : Option Nat) : Clock :=
  { c with now := max c.now c.limit, wake }

/-- Waits for a moment. Says whether the limit allowed it. -/
def waitUntil (c : Clock) (moment : Nat) : Bool × Clock :=
  if moment ≤ c.limit then (true, { c with now := max c.now moment })
  else (false, c.expire (some moment))

/-- The same moment with a limit that is no later than `moment`. -/
def within (c : Clock) (moment : Nat) : Clock := { c with limit := min c.limit moment }

end Clock

/-- What comes of something that may wait: a value, an error, or nothing before the limit. -/
inductive Outcome (ε α : Type) where
  | ok (a : α)
  | error (e : ε)
  | stuck
  deriving DecidableEq, Repr

namespace Outcome

variable {ε δ α β : Type}

def map (f : α → β) : Outcome ε α → Outcome ε β
  | ok a => ok (f a)
  | error e => error e
  | stuck => stuck

def mapError (f : ε → δ) : Outcome ε α → Outcome δ α
  | ok a => ok a
  | error e => error (f e)
  | stuck => stuck

end Outcome

end HttpExchange
