import HttpExchange.Server.Request
import HttpExchange.Server.Response

/-!
Handlers. What a handler does with a request is a program: it reads the body that comes over the
link, waits, notes what it sees, and comes to a response, to an error or to a panic. It has no
other way to the connection, and so it cannot read beyond the body or write anything itself.
-/

namespace HttpExchange

/-- A program that notes things of type `ω`. -/
inductive Program (ω : Type) where
  | respond (response : Response)
  | fail (e : ServerError)
  | panic
  | note (seen : ω) (rest : Program ω)
  | pause (ms : Nat) (rest : Program ω)
  /-- Reads the next piece of the body. -/
  | pull (rest : Except BodyError Piece → Program ω)
  /-- Reads all that is left of the body. -/
  | collect (rest : Except BodyError Bytes → Program ω)

abbrev Handler (ω : Type) := Request → Program ω

/-- What a program comes to. -/
inductive Verdict where
  | response (r : Response)
  | failed (e : ServerError)
  | panicked
  /-- It still waits at the limit of the clock. -/
  | stuck
  deriving DecidableEq, Repr

namespace Program

variable {ω : Type}

/-- Runs a program over a link, with the notes taken before, the last first. -/
def run : Program ω → List ω → Link → Verdict × List ω × Link
  | respond response, seen, l => (.response response, seen, l)
  | fail e, seen, l => (.failed e, seen, l)
  | panic, seen, l => (.panicked, seen, l)
  | note what rest, seen, l => rest.run (what :: seen) l
  | pause ms rest, seen, l => match l.waitUntil (l.clock.now + ms) with
    | (true, l) => rest.run seen l
    | (false, l) => (.stuck, seen, l)
  | pull rest, seen, l => match l.readPiece with
    | (.ok piece, l) => (rest (.ok piece)).run seen l
    | (.error e, l) => (rest (.error (.wire e))).run seen l
    | (.stuck, l) => (.stuck, seen, l)
  | collect rest, seen, l => match Producer.incoming.collect l with
    | (.ok b, l) => (rest (.ok b)).run seen l
    | (.error e, l) => (rest (.error e)).run seen l
    | (.stuck, l) => (.stuck, seen, l)

theorem weight_run {program : Program ω} {seen l verdict seen' l'}
    (eq : program.run seen l = (verdict, seen', l')) : l'.weight ≤ l.weight := by
  induction program generalizing seen l with
  | respond | fail | panic => cases eq; exact Nat.le_refl _
  | note what rest ih => exact ih eq
  | pause ms rest ih =>
    simp only [run] at eq
    split at eq
    · next waited => exact Nat.le_trans (ih eq) (Nat.le_of_eq (Link.weight_waitUntil waited))
    · next waited => cases eq; exact Nat.le_of_eq (Link.weight_waitUntil waited)
  | pull rest ih =>
    simp only [run] at eq
    split at eq
    · next read => exact Nat.le_trans (ih _ eq) (Link.weight_readPiece read).1
    · next read => exact Nat.le_trans (ih _ eq) (Link.weight_readPiece read).1
    · next read => cases eq; exact (Link.weight_readPiece read).1
  | collect rest ih =>
    simp only [run] at eq
    split at eq
    · next read => exact Nat.le_trans (ih _ eq) (Producer.weight_collect read)
    · next read => exact Nat.le_trans (ih _ eq) (Producer.weight_collect read)
    · next read => cases eq; exact Producer.weight_collect read

end Program

end HttpExchange
