import HttpExchange.Proofs.Server.Sending

/-!
A response that is cut short is never mistaken for a whole one, whether the producer failed, the
server could not write, or the connection was severed on the way to the client.
-/

namespace HttpExchange.Response

open Delivery (filled)

variable {r : Response} {l : Link} {method : Method}

/-- Behind the whole head only what the wire shows of the body can follow. -/
theorem wire_of_cut (x : Exchange) (notHead : method ≠ .head)
    (allowed : r.status ≠ .noContent) {close : Bool} {idle : Option Nat} {got : Bytes}
    (whole : r.head close <+: got)
    (cut : l.writer.output ++ got <+: (r.send x method close idle l).2.2.writer.output) :
    ∃ y given, got = r.head close ++ y ∧ r.body.producer.Supplies l given ∧
      r.body.framing.Admits (filled given) ∧ y <+: r.body.framing.transfer (filled given) ∧
      ((r.body.framing.transfer (filled given)).length ≤ y.length →
        r.body.producer.Completes l given) := by
  obtain ⟨sent, output, shown⟩ := output_send r x method close idle l
  rw [output, List.prefix_append_right_inj] at cut
  obtain ⟨y, rfl⟩ := whole
  rw [strip_of_allowed notHead allowed] at shown
  have shows : ∃ pulled wire, y <+: wire ∧ Delivery.Shows
      ⟨l.clock.now, { framing := r.body.framing }, r.body.producer, l⟩ pulled wire := by
    rcases shown with part | ⟨pulled, wire, same, shows⟩
    · -- of a head that is cut short the wire has no more than the head
      have none : y = [] := by
        have short := (cut.trans part).length_le
        rw [List.length_append] at short
        exact List.eq_nil_of_length_eq_zero (by omega)
      exact ⟨[], [], none ▸ List.prefix_refl _, .none _ _, .inl List.nil_prefix⟩
    · rw [same] at cut
      exact ⟨pulled, wire, (List.prefix_append_right_inj _).mp cut, shows⟩
  obtain ⟨pulled, wire, part, shows⟩ := shows
  obtain ⟨given, supplies, admits, beginning, ends⟩ := Body.admitted_of_shows shows
  exact ⟨y, given, rfl, supplies, admits, part.trans beginning,
    fun reaches => ends (Nat.le_trans reaches part.length_le)⟩

/-- Of whatever part of a response reaches the client, with the whole head, the body is read in one
of two ways. It ends in order, and then the producer ended in order and every byte of its chunks was
handed out; or it ends with the one error that says that it was cut short, and what was handed out
is a beginning of what the producer gave. -/
theorem complete_or_cutShort (x : Exchange) (notHead : method ≠ .head)
    (allowed : r.status ≠ .noContent)
    (writable : ∀ field ∈ r.fields, Fields.Writable field) (fits : r.body.producer.Fits l)
    {close : Bool} {idle : Option Nat} {got : Bytes} (whole : r.head close <+: got)
    (cut : l.writer.output ++ got <+: (r.send x method close idle l).2.2.writer.output)
    {reader : Reader} {tail : List Arrival} (holds : reader.Holds got tail)
    (severed : Arrival.Severed tail) {limit : Nat} (enough : (r.head close).length ≤ limit)
    (bound : Nat) (c : Clock) :
    ∃ reception given,
      Wire.receive ResponseHead.parse (Framing.ofResponse · method) limit bound reader c =
        .ok (some reception) ∧
      r.body.producer.Supplies l given ∧
      ((reception.body.ending = .ok () ∧ r.body.producer.Completes l given ∧
          reception.body.pieces.flatten = given.flatten) ∨
        (reception.body.CutShort given.flatten ∧ ∀ r c,
          reception.body.decoder.next r c = (.ok .ended, reception.body.decoder, r, c))) := by
  obtain ⟨y, given, same, supplies, admits, beginning, ends⟩ :=
    wire_of_cut x notHead allowed whole cut
  rw [same] at holds
  obtain ⟨fields, r', received, holds', _⟩ :=
    receive_head writable (Body.small_of_fits fits) method enough bound holds c
  rw [strip_of_allowed notHead allowed] at received
  refine ⟨_, given, received, supplies, ?_⟩
  have some : ∀ b ∈ filled given, b ≠ [] := fun b member => Delivery.mem_filled member
  have small : ∀ b ∈ filled given, b.length < Numeral.bound64 := fun b member =>
    fits given supplies b (List.mem_filter.mp member).1
  by_cases reaches : (r.body.framing.transfer (filled given)).length ≤ y.length
  · have all : y = r.body.framing.transfer (filled given) :=
      beginning.eq_of_length_le reaches
    rw [all, ← List.append_nil (Framing.transfer _ _)] at holds'
    obtain ⟨_, drained, _⟩ := Decoder.drain_transfer admits some small bound holds' c
    simp only [drained]
    refine .inl ⟨trivial, ends reaches, ?_⟩
    rw [Framing.flatten_pieces, Delivery.flatten_filled]
  · have short := Decoder.drain_transfer_severed admits some small bound beginning
      (Nat.lt_of_not_le reaches) holds' severed c
    rw [Delivery.flatten_filled] at short
    exact .inr ⟨short, fun r c => Decoder.next_failed short.state r c⟩

/-- Of two known bytes only the first reaches the client. -/
theorem cutShort_one_of_two :
    let r : Response := { status := .ok, body := .ofBytes [104, 105] }
    let l : Link :=
      { clock := { limit := 0 }, reader := { arrivals := [], capacity := 1 }, writer := {} }
    let got := r.head true ++ [104]
    l.writer.output ++ got <+:
        (r.send { id := 1 } .get true none l).2.2.writer.output ∧
      ∃ reception given,
        Wire.receive ResponseHead.parse (Framing.ofResponse · .get) (r.head true).length 8
            { arrivals := [.bytes got], capacity := 1 } l.clock = .ok (some reception) ∧
          r.body.producer.Supplies l given ∧
          ((reception.body.ending = .ok () ∧ r.body.producer.Completes l given ∧
              reception.body.pieces.flatten = given.flatten) ∨
            (reception.body.CutShort given.flatten ∧ ∀ r c,
              reception.body.decoder.next r c = (.ok .ended, reception.body.decoder, r, c))) := by
  intro r l got
  have writable : ∀ field ∈ r.fields, Fields.Writable field := by decide
  have fits : r.body.producer.Fits l := Producer.fits_known (by decide) l
  have opened : l.writer.rule.Open := WriteRule.open_default
  have notHead : Method.get ≠ .head := by decide
  have allowed : r.status ≠ .noContent := by decide
  have lasts : (((none : Option Nat).map Patience.idle).getD .endless).Lasts l.clock.now := trivial
  have flows : r.body.producer.Flows _ l.clock.now l [[104, 105]] := Producer.flows_known lasts _
  obtain ⟨x', l', sent, output⟩ := send_flows { id := 1 } notHead allowed true opened rfl flows
  have cut : l.writer.output ++ got <+: (r.send { id := 1 } .get true none l).2.2.writer.output := by
    rw [sent, output, List.prefix_append_right_inj, List.prefix_append_right_inj]
    exact ⟨[105], rfl⟩
  have holds := Reader.holds_segments Nat.one_pos [got] []
  rw [List.flatten_singleton] at holds
  exact ⟨cut, complete_or_cutShort { id := 1 } notHead allowed writable fits
    (List.prefix_append _ _) cut holds (.inl rfl) (Nat.le_refl _) 8 l.clock⟩

end HttpExchange.Response
