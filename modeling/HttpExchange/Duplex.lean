import HttpExchange.Body.Link

/-!
Two parties joined by a pair of pipes. Each pipe holds a number of bytes at most; who writes more
has to wait until the other side has read. A party that is over closes its end: the other side reads
the end behind what is still in the pipe, and its own writes fail from then on.

A party is a run that is always the same for the same arrivals and the same room to write. At every
moment the parties that are not over run from the start with what the other one has done so far,
until nothing changes any more; then time moves on to the next moment at which one of them has
something to do.
-/

namespace HttpExchange

/-- One direction: what was written when, and how much could be written when. -/
structure Pipe where
  /-- What was written, by moments, the last first. -/
  batches : List (Nat × Bytes) := []
  /-- The number of bytes written. -/
  total : Nat := 0
  /-- When the writing end was closed. -/
  closed : Option Nat := none
  /-- How much could be written, by moments, the last first. -/
  rooms : List (Nat × Nat) := []
  /-- How much can be written altogether. -/
  room : Nat
  /-- How much was written when the reading end was closed. -/
  broken : Option Nat := none
  deriving DecidableEq, Repr

namespace Pipe

variable (p : Pipe)

def arrivals : List Arrival :=
  p.batches.reverse.flatMap (fun batch => [.until batch.1, .bytes batch.2]) ++
    match p.closed with
    | some moment => [.until moment]
    | none => [.silence]

def rule : WriteRule :=
  { gates := p.rooms.reverse.map (fun room => (room.2, some room.1)) ++ [(p.room, none)]
    failAt := p.broken.map fun position => (position, IoFault.brokenPipe) }

def sizeOf : List Arrival → Nat
  | [] => 0
  | .bytes b :: rest => b.length + sizeOf rest
  | _ :: rest => sizeOf rest

/-- The pipe when all of `output` has been written by a moment, and nothing more will be if the
writer is over. -/
def written (moment : Nat) (output : Bytes) (ended : Bool) : Pipe :=
  let more := output.drop p.total
  { p with
    batches := if more.isEmpty then p.batches else (moment, more) :: p.batches
    total := p.total + more.length
    closed := p.closed.or (if ended then some moment else none) }

/-- The pipe when all but `left` of its bytes have been read by a moment, and nothing more will be
if the reader is over. -/
def read (capacity moment left : Nat) (ended : Bool) : Pipe :=
  let room := capacity + (p.total - left)
  { p with
    rooms := if p.room < room then (moment, p.room) :: p.rooms else p.rooms
    room := max p.room room
    broken := p.broken.or (if ended then some p.total else none) }

def level : Nat × Nat × Bool × Bool := (p.total, p.room, p.closed.isSome, p.broken.isSome)

end Pipe

/-- What a party has come to by some moment. -/
structure Progress (α : Type) where
  result : α
  link : Link
  /-- The moment up to which the party waits, if it is not over. -/
  wake : Option Nat

/-- A party: what it has come to by the limit of the clock of its link. -/
abbrev Party (α : Type) := Link → Progress α

namespace Duplex

variable {α β : Type}

/-- Runs a party up to a moment, unless it was over before. -/
def advance (capacity : Nat) (party : Party α) (bufferSize moment : Nat)
    (before : Option (Progress α)) (incoming outgoing : Pipe) : Progress α × Pipe × Pipe :=
  match before.filter fun progress => progress.wake.isNone with
  | some progress => (progress, incoming, outgoing)
  | none =>
    let progress := party
      { clock := { limit := moment }
        reader := { arrivals := incoming.arrivals, capacity := bufferSize }
        writer := { rule := outgoing.rule } }
    let ended := progress.wake.isNone
    (progress, incoming.read capacity moment (Pipe.sizeOf progress.link.reader.arrivals) ended,
      outgoing.written moment progress.link.writer.output ended)

def earlier : Option Nat → Option Nat → Option Nat
  | some a, some b => some (min a b)
  | some a, none => some a
  | none, b => b

/-- Two parties with their read buffers, and the capacity of the pipes between them. -/
structure Setting (α β : Type) where
  capacity : Nat
  first : Party α
  firstBuffer : Nat
  second : Party β
  secondBuffer : Nat

/-- What both parties have come to, with the pipe from the first to the second and the one back. -/
structure State (α β : Type) where
  first : Option (Progress α) := none
  second : Option (Progress β) := none
  there : Pipe
  back : Pipe

variable (s : Setting α β)

/-- Lets both parties go on at a moment, the first one first. -/
def round (moment : Nat) (state : State α β) : State α β :=
  let (a, back, there) :=
    advance s.capacity s.first s.firstBuffer moment state.first state.back state.there
  let (b, there, back) := advance s.capacity s.second s.secondBuffer moment state.second there back
  { first := some a, second := some b, there, back }

/-- The next moment at which a party has something to do. -/
def State.wake? (state : State α β) : Option Nat :=
  earlier (state.first.bind Progress.wake) (state.second.bind Progress.wake)

/-- Goes on until both parties are over. The fuel bounds the number of rounds. -/
def run : (fuel moment : Nat) → State α β → State α β
  | 0, _, state => state
  | fuel + 1, moment, state =>
    let next := round s moment state
    if next.there.level = state.there.level ∧ next.back.level = state.back.level then
      match next.wake? with
      | some wake => run fuel (max wake (moment + 1)) next
      | none => next
    else run fuel moment next

def join (fuel : Nat) : State α β :=
  run s fuel 0 { there := { room := s.capacity }, back := { room := s.capacity } }

end Duplex

end HttpExchange
