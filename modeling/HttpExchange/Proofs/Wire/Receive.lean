import HttpExchange.Proofs.Body.Transfer
import HttpExchange.Proofs.Wire.Head

/-!
A message as it is read off a connection: its head, the framing that follows from it, and all of
its body.
-/

namespace HttpExchange

structure Reception (η : Type) where
  head : η
  framing : Framing
  body : Decoded

/-- Reads a head of at most `limit` bytes, and then the body in pieces of at most `bound` bytes; none
if the input ends before a head begins. -/
def Wire.receive {η : Type} (parse : Bytes → Except HeadError η)
    (framingOf : η → Except WireError Framing) (limit bound : Nat) (r : Reader) (c : Clock) :
    Outcome WireError (Option (Reception η)) :=
  match readHead limit r c with
  | (.ok (some bytes), r, c) => match parse bytes with
    | .ok head => match framingOf head with
      | .ok framing => .ok (some ⟨head, framing, (Decoder.start framing bound).drain r c⟩)
      | .error e => .error e
    | .error e => .error (.head e)
  | (.ok none, _, _) => .ok none
  | (.error e, _, _) => .error e
  | (.stuck, _, _) => .stuck

theorem Wire.receive_headOf {η : Type} {parse : Bytes → Except HeadError η}
    (framingOf : η → Except WireError Framing) {limit : Nat} {r : Reader} {y : Bytes}
    {tail : List Arrival} {lines : List (List Char)} {head : η} {framing : Framing}
    (some : lines ≠ []) (each : ∀ line ∈ lines, HeadLine line)
    (fits : (headOf lines).length ≤ limit) (parsed : parse (headOf lines) = .ok head)
    (framed : framingOf head = .ok framing) (bound : Nat)
    (holds : r.Holds (headOf lines ++ y) tail) (c : Clock) :
    ∃ r', receive parse framingOf limit bound r c =
        .ok (Option.some ⟨head, framing, (Decoder.start framing bound).drain r' c⟩) ∧
      r'.Holds y tail := by
  obtain ⟨r', read, holds'⟩ := readHead_headOf some each fits holds c
  refine ⟨r', ?_, holds'⟩
  rw [receive, read]
  simp only [parsed, framed]

end HttpExchange
