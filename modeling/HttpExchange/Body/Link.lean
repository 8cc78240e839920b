import HttpExchange.Body.Decoder
import HttpExchange.Wire.Head

/-!
One end of a connection: its two directions, the clock, and the body that is being read off it.
The two directions do not know of each other; only the clock is common to both.
-/

namespace HttpExchange

structure Link where
  clock : Clock
  reader : Reader
  writer : Writer
  /-- Where the reader stands in the body of the last message that it read the head of. -/
  body : Decoder := Decoder.start .empty 1
  deriving DecidableEq, Repr

namespace Link

variable (l : Link)

def readHead (limit : Nat) : Outcome WireError (Option Bytes) × Link :=
  let (out, reader, clock) := Wire.readHead limit l.reader l.clock
  (out, { l with reader, clock })

def expect (framing : Framing) (bound : Nat) : Link := { l with body := Decoder.start framing bound }

def readPiece : Outcome WireError Piece × Link :=
  let (out, body, reader, clock) := l.body.next l.reader l.clock
  (out, { l with body, reader, clock })

def writeAll (b : Bytes) : Outcome WireError Unit × Link :=
  let (out, writer, clock) := l.writer.writeAll b l.clock
  (out.mapError .io, { l with writer, clock })

def flush : Outcome WireError Unit × Link :=
  let (out, writer, clock) := l.writer.flush l.clock
  (out.mapError .io, { l with writer, clock })

def send (b : Bytes) : Outcome WireError Unit × Link :=
  let (out, writer, clock) := Wire.writeHead b l.writer l.clock
  (out, { l with writer, clock })

/-- Closes the sending direction. Whether that worked makes no difference. -/
def shutdown : Link := { l with writer := l.writer.shutdown.2 }

def notePull : Link := { l with writer := l.writer.note .pulled }

/-- Waits for a moment. Says whether the limit allowed it. -/
def waitUntil (moment : Nat) : Bool × Link :=
  let (awake, clock) := l.clock.waitUntil moment
  (awake, { l with clock })

def waitForever : Link := { l with clock := l.clock.expire none }

/-- The link at the start of a call that may take so long. -/
def call (patience : Nat) : Link := { l with clock := l.clock.within (l.clock.now + patience) }

/-- The link behind a call that began on another one, with the limit from there. -/
def behind (before : Link) : Link :=
  { l with clock := { l.clock with limit := before.clock.limit, wake := none } }

/-- When a call that began on another link got stuck: the moment up to which it waits, unless its
time is over. -/
def waits? (patience : Nat) (before : Link) : Option Nat :=
  let last := before.clock.now + patience
  if last ≤ before.clock.limit then none else some (min last (l.clock.wake.getD last))

def weight : Nat := l.reader.weight

variable {l}

theorem weight_readHead {limit out l'} (eq : l.readHead limit = (out, l')) :
    l'.weight ≤ l.weight ∧ ∀ head, out = .ok (some head) → l'.weight < l.weight := by
  cases eq
  exact Wire.weight_readHead rfl

theorem weight_readPiece {out l'} (eq : l.readPiece = (out, l')) :
    l'.weight ≤ l.weight ∧ ∀ b, out = .ok (.data b) → l'.weight < l.weight := by
  cases eq
  exact Decoder.weight_next rfl

@[simp] theorem weight_expect (framing : Framing) (bound : Nat) :
    (l.expect framing bound).weight = l.weight := rfl

theorem weight_writeAll {b out l'} (eq : l.writeAll b = (out, l')) : l'.weight = l.weight := by
  cases eq
  rfl

theorem weight_flush {out l'} (eq : l.flush = (out, l')) : l'.weight = l.weight := by
  cases eq
  rfl

theorem weight_send {b out l'} (eq : l.send b = (out, l')) : l'.weight = l.weight := by
  cases eq
  rfl

@[simp] theorem weight_shutdown : l.shutdown.weight = l.weight := rfl

@[simp] theorem weight_notePull : l.notePull.weight = l.weight := rfl

theorem weight_waitUntil {moment awake l'} (eq : l.waitUntil moment = (awake, l')) :
    l'.weight = l.weight := by
  cases eq
  rfl

@[simp] theorem weight_waitForever : l.waitForever.weight = l.weight := rfl

end Link

end HttpExchange
