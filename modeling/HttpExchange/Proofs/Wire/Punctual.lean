import HttpExchange.Proofs.Wire.Timing

/-!
Input that comes in time. Where nothing is silent for ever, there is a limit by which all of it has
come, and up to that limit no read gets stuck.
-/

namespace HttpExchange

namespace Arrival

/-- Every wait in a script that is taken from now on is over by the limit. -/
def InTime : List Arrival → Clock → Prop
  | [], _ => True
  | .bytes _ :: rest, c | .fault _ :: rest, c => InTime rest c
  | .pause ms :: rest, c => c.now + ms ≤ c.limit ∧ InTime rest (c.reached (c.now + ms))
  | .until moment :: rest, c => moment ≤ c.limit ∧ InTime rest (c.reached moment)
  | .silence :: _, _ => False

variable {patient : Bool} {room : Nat} {arrivals left : List Arrival} {c c' : Clock}
  {out : Outcome IoFault Bytes}

/-- A script without silence comes in time, once there is enough of it. -/
theorem exists_inTime (sounds : .silence ∉ arrivals) (c : Clock) :
    ∃ enough, ∀ limit, enough ≤ limit → InTime arrivals (c.limited limit) := by
  induction arrivals generalizing c with
  | nil => exact ⟨0, fun _ _ => trivial⟩
  | cons arrival rest ih =>
      obtain ⟨here, later⟩ := not_or.mp (mt List.mem_cons.mpr sounds)
      cases arrival with
      | bytes | fault => exact ih later c
      | pause ms =>
          obtain ⟨enough, inTime⟩ := ih later (c.reached (c.now + ms))
          refine ⟨max (c.now + ms) enough, fun limit late => ⟨?_, inTime limit (by omega)⟩⟩
          exact Nat.le_trans (Nat.le_max_left _ _) late
      | «until» moment =>
          obtain ⟨enough, inTime⟩ := ih later (c.reached moment)
          refine ⟨max moment enough, fun limit late => ⟨?_, inTime limit (by omega)⟩⟩
          exact Nat.le_trans (Nat.le_max_left _ _) late
      | silence => exact absurd rfl here

theorem inTime_take (eq : take patient room arrivals c = (out, left, c'))
    (inTime : InTime arrivals c) : out ≠ .stuck ∧ InTime left c' := by
  have waits : ∀ {moment : Nat} {awake : Bool} {c c₁ : Clock}, moment ≤ c.limit →
      c.waitUntil moment = (awake, c₁) → awake = true ∧ c₁ = c.reached moment := by
    intro moment awake c c₁ early waited
    rw [Clock.waitUntil, if_pos early] at waited
    cases waited
    exact ⟨rfl, rfl⟩
  fun_induction take patient room arrivals c with
  | case1 =>
      cases eq
      exact ⟨Outcome.ok_ne_stuck _, inTime⟩
  | case2 _ _ _ _ ih | case4 _ _ _ _ ih => exact ih eq inTime
  | case3 =>
      cases eq
      refine ⟨Outcome.ok_ne_stuck _, ?_⟩
      split
      · exact inTime
      · exact inTime
  | case5 =>
      cases eq
      exact ⟨Outcome.error_ne_stuck _, inTime⟩
  | case6 _ _ _ _ awake ih | case8 _ _ _ _ awake ih =>
      obtain ⟨early, later⟩ := inTime
      obtain ⟨_, rfl⟩ := waits early awake
      exact ih eq later
  | case7 _ _ _ _ asleep | case9 _ _ _ _ asleep =>
      exact absurd (waits inTime.1 asleep).1 Bool.false_ne_true
  | case10 => exact inTime.elim

end Arrival

namespace Reader

def InTime (r : Reader) (c : Clock) : Prop := Arrival.InTime r.arrivals c

variable {r r' : Reader} {before : Bytes} {c c' : Clock}

theorem inTime_next {room : Nat} {out : Outcome IoFault (Option UInt8)}
    (eq : r.next room c = (out, r', c')) (inTime : r.InTime c) :
    out ≠ .stuck ∧ r'.InTime c' := by
  unfold next at eq
  split at eq
  · cases eq
    exact ⟨Outcome.ok_ne_stuck _, inTime⟩
  · split at eq <;> next taken =>
      obtain ⟨came, later⟩ := Arrival.inTime_take taken inTime
      cases eq
      refine ⟨?_, later⟩
      first
        | exact Outcome.ok_ne_stuck _
        | exact Outcome.error_ne_stuck _
        | exact absurd rfl came

theorem inTime_lineOnto {budget : Nat} {out : Outcome IoFault Bytes}
    (eq : lineOnto budget before r c = (out, r', c')) (inTime : r.InTime c) :
    out ≠ .stuck ∧ r'.InTime c' := by
  fun_induction lineOnto budget before r c with
  | case1 =>
      cases eq
      exact ⟨Outcome.ok_ne_stuck _, inTime⟩
  | case3 _ _ _ _ _ _ _ read _ ih => exact ih eq (inTime_next read inTime).2
  | case2 _ _ _ _ _ _ read | case4 _ _ _ _ _ _ read =>
      cases eq
      exact ⟨Outcome.ok_ne_stuck _, (inTime_next read inTime).2⟩
  | case5 _ _ _ _ _ _ _ read =>
      cases eq
      exact ⟨Outcome.error_ne_stuck _, (inTime_next read inTime).2⟩
  | case6 _ _ _ _ _ _ read => exact absurd rfl (inTime_next read inTime).1

theorem inTime_exactlyOnto {count : Nat} {out : Outcome IoFault (Option Bytes)}
    (eq : exactlyOnto count before r c = (out, r', c')) (inTime : r.InTime c) :
    out ≠ .stuck ∧ r'.InTime c' := by
  fun_induction exactlyOnto count before r c with
  | case1 =>
      cases eq
      exact ⟨Outcome.ok_ne_stuck _, inTime⟩
  | case2 _ _ _ _ _ _ _ read ih => exact ih eq (inTime_next read inTime).2
  | case3 _ _ _ _ _ _ read =>
      cases eq
      exact ⟨Outcome.ok_ne_stuck _, (inTime_next read inTime).2⟩
  | case4 _ _ _ _ _ _ _ read =>
      cases eq
      exact ⟨Outcome.error_ne_stuck _, (inTime_next read inTime).2⟩
  | case5 _ _ _ _ _ _ read => exact absurd rfl (inTime_next read inTime).1

theorem inTime_available {most : Nat} {out : Outcome IoFault Bytes}
    (eq : r.available most c = (out, r', c')) (inTime : r.InTime c) :
    out ≠ .stuck ∧ r'.InTime c' := by
  unfold available at eq
  split at eq
  · cases eq
    exact ⟨Outcome.ok_ne_stuck _, inTime⟩
  · split at eq <;> next taken =>
      obtain ⟨came, later⟩ := Arrival.inTime_take taken inTime
      cases eq
      refine ⟨?_, later⟩
      first
        | exact Outcome.ok_ne_stuck _
        | exact Outcome.error_ne_stuck _
        | exact absurd rfl came

end Reader

end HttpExchange
