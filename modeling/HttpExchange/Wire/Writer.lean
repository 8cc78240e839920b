import HttpExchange.Bytes
import HttpExchange.Wire.Clock
import HttpExchange.Wire.Fault

/-!
The sending side of a connection. A writer follows a rule that says how much each write may take,
when writing waits and when it fails, and keeps a trace of what happened, in which the bytes
that were taken are the wire.
-/

namespace HttpExchange

/-- What a writer lets happen. Positions count the bytes that were taken before. -/
structure WriteRule where
  /-- The most that one write takes. -/
  most : Option Nat := none
  /-- From a position on every write fails. -/
  failAt : Option (Nat × IoFault) := none
  /-- From a position on every write takes nothing. -/
  zeroAt : Option Nat := none
  /-- The flushes with these numbers fail, the first one being 1. -/
  failFlush : List (Nat × IoFault) := []
  /-- Every shutdown fails. -/
  failShutdown : Option IoFault := none
  /-- The first write from a position on waits for so long. -/
  stall : Option (Nat × Nat) := none
  /-- Bytes from a position on are taken only from a moment on; without a moment, never. -/
  gates : List (Nat × Option Nat) := []
  /-- The flushes with these numbers are over only from a moment on; without a moment, never. -/
  flushGates : List (Nat × Option Nat) := []
  deriving DecidableEq, Repr

/-- Something that a writer, or the producer that feeds it, did. -/
inductive WireEvent where
  | wrote (b : Bytes)
  | flushed
  | shut
  | pulled
  deriving DecidableEq, Repr

structure Writer where
  rule : WriteRule := {}
  /-- The bytes taken so far. -/
  taken : Nat := 0
  /-- When the wait that the rule asks for is over, if it has begun. -/
  stallEnd : Option Nat := none
  /-- What happened, the last first. -/
  trace : List WireEvent := []
  deriving DecidableEq, Repr

namespace Writer

def events (w : Writer) : List WireEvent := w.trace.reverse

def bytesOf (events : List WireEvent) : Bytes :=
  events.flatMap fun e => match e with
    | .wrote b => b
    | _ => []

def output (w : Writer) : Bytes := bytesOf w.events

def count (w : Writer) (e : WireEvent) : Nat := w.trace.count e

def note (e : WireEvent) (w : Writer) : Writer := { w with trace := e :: w.trace }

def pause (w : Writer) (c : Clock) : Bool × Writer × Clock :=
  match w.rule.stall with
  | some (position, ms) =>
    if position ≤ w.taken then
      let moment := w.stallEnd.getD (c.now + ms)
      let (awake, c) := c.waitUntil moment
      (awake, { w with stallEnd := some moment }, c)
    else (true, w, c)
  | none => (true, w, c)

/-- Waits for the gates at the writer's position, and finds how far the next one lets it go. -/
def passGates (taken : Nat) : List (Nat × Option Nat) → Clock → Bool × Option Nat × Clock
  | [], c => (true, none, c)
  | (position, moment) :: rest, c =>
    if taken < position then (true, some (position - taken), c)
    else match moment with
      | some t => match c.waitUntil t with
        | (true, c) => passGates taken rest c
        | (false, c) => (false, none, c)
      | none => (false, none, c.expire none)

/-- The part of some bytes that one write takes, where a gate leaves `room`. -/
def accepted (w : Writer) (room : Option Nat) (b : Bytes) : Bytes :=
  let b := (w.rule.most.map b.take).getD b
  let b := (room.map b.take).getD b
  let b := (w.rule.failAt.map fun (position, _) => b.take (position - w.taken)).getD b
  (w.rule.zeroAt.map fun position => b.take (position - w.taken)).getD b

/-- The failure of a write at the writer's position, if the rule has one there. -/
def failure? (w : Writer) : Option IoFault :=
  match w.rule.failAt with
  | some (position, fault) => if position ≤ w.taken then some fault else none
  | none => none

def write (b : Bytes) (w : Writer) (c : Clock) : Outcome IoFault Bytes × Writer × Clock :=
  match w.pause c with
  | (false, w, c) => (.stuck, w, c)
  | (true, w, c) => match w.failure? with
    | some fault => (.error fault, w, c)
    | none => match passGates w.taken w.rule.gates c with
      | (false, _, c) => (.stuck, w, c)
      | (true, room, c) =>
        let part := w.accepted room b
        if part.isEmpty then (.ok [], w, c)
        else (.ok part, { w with taken := w.taken + part.length, trace := .wrote part :: w.trace }, c)

/-- Writes all of some bytes, piece by piece. Nothing is written for no bytes; a write that takes
nothing is a failure. -/
def writeAll (b : Bytes) (w : Writer) (c : Clock) : Outcome IoFault Unit × Writer × Clock :=
  if b.isEmpty then (.ok (), w, c)
  else match w.write b c with
    | (.ok part, w, c) =>
      if part.isEmpty then (.error .writeZero, w, c) else writeAll (b.drop part.length) w c
    | (.error e, w, c) => (.error e, w, c)
    | (.stuck, w, c) => (.stuck, w, c)
termination_by b.length
decreasing_by
  simp only [List.isEmpty_iff] at *
  rw [List.length_drop]
  have : 0 < b.length := List.length_pos_iff.2 (by assumption)
  have : 0 < part.length := List.length_pos_iff.2 (by assumption)
  omega

/-- Waits for the gate of a flush, if it has one. -/
def passFlushGate : Option (Option Nat) → Clock → Bool × Clock
  | none, c => (true, c)
  | some (some moment), c => c.waitUntil moment
  | some none, c => (false, c.expire none)

/-- Has what was written passed on. A flush is noted, and counts, when it is over. -/
def flush (w : Writer) (c : Clock) : Outcome IoFault Unit × Writer × Clock :=
  let number := w.count .flushed + 1
  match passFlushGate (w.rule.flushGates.lookup number) c with
  | (false, c) => (.stuck, w, c)
  | (true, c) => match w.rule.failFlush.lookup number with
    | some fault => (.error fault, w.note .flushed, c)
    | none => (.ok (), w.note .flushed, c)

def shutdown (w : Writer) : Except IoFault Unit × Writer :=
  (match w.rule.failShutdown with
    | some fault => .error fault
    | none => .ok (), w.note .shut)

end Writer

end HttpExchange
