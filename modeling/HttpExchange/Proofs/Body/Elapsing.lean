import HttpExchange.Body.Delivery
import HttpExchange.Proofs.Wire.Elapsing

/-!
How time goes on while a producer is asked. A demand that may be cancelled is over when the
cancellation comes, whatever the producer does, and not before if the producer stays silent.
-/

namespace HttpExchange

namespace Decoder

variable {r r' : Reader} {c c' : Clock}

theorem elapses_readLine {out : Outcome WireError Bytes} (eq : readLine r c = (out, r', c')) :
    c.Elapses c' := by
  unfold readLine at eq
  split at eq
  · next read =>
      have elapses := Reader.elapses_lineOnto read
      split at eq
      · cases eq
        exact elapses
      · split at eq <;> cases eq <;> exact elapses
  all_goals
    next read =>
      cases eq
      exact Reader.elapses_lineOnto read

theorem elapses_readData {left bound : Nat} {out : Outcome WireError Bytes}
    (eq : readData left bound r c = (out, r', c')) : c.Elapses c' := by
  unfold readData at eq
  split at eq <;> next read =>
    cases eq
    exact Reader.elapses_exactlyOnto read

theorem elapses_advance {state state' : DecoderState} {bound : Nat} {out : Outcome WireError Piece}
    (eq : advance state bound r c = (out, state', r', c')) : c.Elapses c' := by
  fun_induction advance state bound r c
  case case2 read _ ih | case3 read _ _ ih | case9 read _ ih | case14 read _ ih =>
    exact (elapses_readLine read).trans (ih eq)
  case case6 read | case7 read | case8 read | case18 read | case19 read | case20 read =>
    cases eq
    exact elapses_readData read
  case case17 | case25 | case26 =>
    cases eq
    exact .refl _
  case case21 read _ | case22 read _ | case23 read | case24 read =>
    cases eq
    exact Reader.elapses_available read
  all_goals
    cases eq
    next read => exact elapses_readLine read

theorem elapses_next {d d' : Decoder} {out : Outcome WireError Piece}
    (eq : d.next r c = (out, d', r', c')) : c.Elapses c' := by
  unfold next at eq
  split at eq <;> next step =>
    cases eq
    exact elapses_advance step

theorem expires_readLine (eq : readLine r c = (.stuck, r', c')) : c.Expires c' := by
  unfold readLine at eq
  split at eq
  · split at eq
    · cases eq
    · split at eq <;> cases eq
  · cases eq
  · next read =>
      cases eq
      exact Reader.expires_lineOnto read

theorem expires_readData {left bound : Nat} (eq : readData left bound r c = (.stuck, r', c')) :
    c.Expires c' := by
  unfold readData at eq
  split at eq
  · cases eq
  · cases eq
  · cases eq
  · next read =>
      cases eq
      exact Reader.expires_exactlyOnto read

theorem expires_advance {state state' : DecoderState} {bound : Nat}
    (eq : advance state bound r c = (.stuck, state', r', c')) : c.Expires c' := by
  fun_induction advance state bound r c
  case case2 read _ ih | case3 read _ _ ih | case9 read _ ih | case14 read _ ih =>
    exact (elapses_readLine read).expires (ih eq)
  case case5 read | case12 read | case16 read =>
    cases eq
    exact expires_readLine read
  case case8 read | case20 read =>
    cases eq
    exact expires_readData read
  case case24 read =>
    cases eq
    exact Reader.expires_available read
  all_goals cases eq

theorem expires_next {d d' : Decoder} (eq : d.next r c = (.stuck, d', r', c')) :
    c.Expires c' := by
  unfold next at eq
  split at eq
  · cases eq
  · cases eq
  · cases eq
  · next step =>
      cases eq
      exact expires_advance step

end Decoder

namespace Link

variable {l l' : Link}

theorem elapses_waitUntil {moment : Nat} {awake : Bool} (eq : l.waitUntil moment = (awake, l')) :
    l.clock.Elapses l'.clock := by
  cases eq
  exact Clock.elapses_waitUntil rfl

theorem elapses_readPiece {out : Outcome WireError Piece} (eq : l.readPiece = (out, l')) :
    l.clock.Elapses l'.clock := by
  cases eq
  exact Decoder.elapses_next rfl

theorem expires_waitUntil {moment : Nat} (eq : l.waitUntil moment = (false, l')) :
    l.clock.Expires l'.clock := by
  rcases waited : l.clock.waitUntil moment with ⟨awake, clock⟩
  rw [waitUntil, waited] at eq
  cases eq
  exact Clock.expires_waitUntil waited

theorem expires_readPiece (eq : l.readPiece = (.stuck, l')) : l.clock.Expires l'.clock := by
  rcases read : l.body.next l.reader l.clock with ⟨out, body, reader, clock⟩
  rw [readPiece, read] at eq
  cases eq
  exact Decoder.expires_next read

end Link

namespace Producer

variable {p p' : Producer} {l l' : Link} {pull : Pull} {permit permit' : Bool} {moment : Nat}

theorem elapses_pullScript {steps steps' : List Yield}
    (eq : pullScript permit steps l = (pull, steps', permit', l')) : l.clock.Elapses l'.clock := by
  fun_induction pullScript permit steps l
  case case5 ih | case7 ih => exact ih eq
  case case9 awake ih | case12 awake ih => exact (Link.elapses_waitUntil awake).trans (ih eq)
  case case10 asleep | case13 asleep =>
    cases eq
    exact Link.elapses_waitUntil asleep
  case case15 =>
    cases eq
    exact Clock.elapses_expire _ _
  all_goals
    cases eq
    exact .refl _

theorem elapses_ask (eq : p.ask l = (pull, p', permit, l')) : l.clock.Elapses l'.clock := by
  unfold ask at eq
  split at eq
  · cases eq
    exact elapses_pullScript rfl
  · cases eq
    exact .refl _
  · split at eq <;> next read =>
      cases eq
      exact Link.elapses_readPiece read

theorem expires_pullScript {steps steps' : List Yield}
    (eq : pullScript permit steps l = (.stuck, steps', permit', l')) :
    l.clock.Expires l'.clock := by
  fun_induction pullScript permit steps l
  case case5 ih | case7 ih => exact ih eq
  case case9 awake ih | case12 awake ih => exact (Link.elapses_waitUntil awake).expires (ih eq)
  case case10 asleep | case13 asleep =>
    cases eq
    exact Link.expires_waitUntil asleep
  case case15 =>
    cases eq
    rfl
  all_goals cases eq

theorem expires_ask (eq : p.ask l = (.stuck, p', permit, l')) : l.clock.Expires l'.clock := by
  unfold ask at eq
  split at eq
  · next steps =>
      rcases pulled : pullScript false steps l with ⟨pull₁, steps₁, permit₁, l₁⟩
      rw [pulled] at eq
      cases eq
      exact expires_pullScript pulled
  · next b => split at eq <;> cases eq
  · split at eq
    · cases eq
    · cases eq
    · cases eq
    · next read =>
        cases eq
        exact Link.expires_readPiece read

theorem askBefore_within (eq : p.askBefore moment l = (pull, p', permit, l')) :
    l.clock.now ≤ l'.clock.now ∧ l'.clock.now ≤ max l.clock.now moment := by
  unfold askBefore at eq
  split at eq
  · cases eq
    exact ⟨Nat.le_refl _, Nat.le_max_left _ _⟩
  · rcases asked : p.ask { l with clock := l.clock.within moment } with ⟨pull₁, p₁, permit₁, l₁⟩
    have elapses := elapses_ask asked
    have within : l₁.clock.now ≤ max l.clock.now moment := by
      have bounded := elapses.within
      simp only [Clock.within] at bounded
      omega
    rw [asked] at eq
    cases pull₁ with
    | stuck =>
        simp only at eq
        split at eq <;> cases eq <;> exact ⟨elapses.onward, within⟩
    | chunk b | failed cause | ended | cancelled =>
        cases eq
        exact ⟨elapses.onward, within⟩

end Producer

namespace Delivery

theorem demand_within {d d' : Delivery} {p p' : Producer} {l l' : Link} {pull : Pull} {moment : Nat}
    (eq : d.demand (some moment) p l = (pull, p', d', l')) :
    l'.clock.now ≤ max l.clock.now moment := by
  unfold demand at eq
  split at eq
  · cases eq
    exact Nat.le_max_left _ _
  · cases eq
    exact (Producer.askBefore_within rfl).2

end Delivery

end HttpExchange
