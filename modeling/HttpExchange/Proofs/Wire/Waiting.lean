import HttpExchange.Proofs.Wire.Failing

/-!
A writer whose waits are all over at some moment. It comes to something as soon as the clock is given
enough time, and how much more time there is makes no difference; if nothing but waits stands in
its way, it takes all bytes.
-/

namespace HttpExchange

/-- No wait is without an end. -/
structure WriteRule.Patient (rule : WriteRule) : Prop where
  gates : ∀ gate ∈ rule.gates, gate.2 ≠ none
  flushGates : ∀ gate ∈ rule.flushGates, gate.2 ≠ none

/-- Nothing that is written fails, and no wait is without an end. -/
structure WriteRule.Willing (rule : WriteRule) : Prop where
  most : rule.most ≠ some 0
  failAt : rule.failAt = none
  zeroAt : rule.zeroAt = none
  failFlush : rule.failFlush = []
  gates : ∀ gate ∈ rule.gates, gate.2 ≠ none
  flushGates : ∀ gate ∈ rule.flushGates, gate.2 ≠ none

theorem WriteRule.Willing.patient {rule : WriteRule} (willing : rule.Willing) : rule.Patient :=
  ⟨willing.gates, willing.flushGates⟩

namespace Outcome

variable {ε α : Type}

theorem ok_ne_stuck (a : α) : (ok a : Outcome ε α) ≠ stuck := nofun

theorem error_ne_stuck (e : ε) : (error e : Outcome ε α) ≠ stuck := nofun

end Outcome

namespace Clock

def limited (limit : Nat) (c : Clock) : Clock := { c with limit }

theorem waitUntil_limited (c : Clock) {moment limit : Nat} (early : moment ≤ limit) :
    (c.limited limit).waitUntil moment = (true, { c with now := max c.now moment }.limited limit) :=
  if_pos early

end Clock

namespace Writer

variable {w w' : Writer} {b : Bytes} {c c' : Clock}

theorem passGates_patient (taken : Nat) {gates : List (Nat × Option Nat)}
    (patient : ∀ gate ∈ gates, gate.2 ≠ none) (c : Clock) :
    ∃ (enough : Nat) (room : Option Nat) (c' : Clock), ∀ limit, enough ≤ limit →
      passGates taken gates (c.limited limit) = (true, room, c'.limited limit) := by
  induction gates generalizing c with
  | nil => exact ⟨0, none, c, fun _ _ => rfl⟩
  | cons gate gates ih =>
      obtain ⟨position, moment⟩ := gate
      by_cases before : taken < position
      · refine ⟨0, some (position - taken), c, fun limit _ => ?_⟩
        rw [passGates.eq_def]
        exact if_pos before
      · cases moment with
        | none => exact absurd rfl (patient _ List.mem_cons_self)
        | some t =>
            obtain ⟨enough, room, c', passed⟩ :=
              ih (fun gate member => patient gate (List.mem_cons_of_mem _ member))
                { c with now := max c.now t }
            refine ⟨max t enough, room, c', fun limit late => ?_⟩
            rw [passGates.eq_def]
            simp only [if_neg before, c.waitUntil_limited (Nat.le_trans (Nat.le_max_left _ _) late)]
            exact passed limit (Nat.le_trans (Nat.le_max_right _ _) late)

theorem pause_ends (w : Writer) (c : Clock) :
    ∃ (enough : Nat) (w' : Writer) (c' : Clock), w'.rule = w.rule ∧ ∀ limit, enough ≤ limit →
      w.pause (c.limited limit) = (true, w', c'.limited limit) := by
  rcases stall : w.rule.stall with _ | ⟨position, ms⟩
  · refine ⟨0, w, c, rfl, fun limit _ => ?_⟩
    rw [pause, stall]
  · by_cases reached : position ≤ w.taken
    · refine ⟨w.stallEnd.getD (c.now + ms), { w with stallEnd := w.stallEnd.getD (c.now + ms) },
        { c with now := max c.now (w.stallEnd.getD (c.now + ms)) }, rfl, ?_⟩
      intro limit late
      have waited := c.waitUntil_limited late
      rw [pause, stall]
      simp only [if_pos reached]
      rw [show (c.limited limit).now = c.now from rfl, waited]
    · refine ⟨0, w, c, rfl, fun limit _ => ?_⟩
      rw [pause, stall]
      exact if_neg reached

theorem write_patient (patient : w.rule.Patient) (b : Bytes) (c : Clock) :
    ∃ (enough : Nat) (out : Outcome IoFault Bytes) (w' : Writer) (c' : Clock), out ≠ .stuck ∧
      ∀ limit, enough ≤ limit → w.write b (c.limited limit) = (out, w', c'.limited limit) := by
  obtain ⟨enough, w₁, c₁, rule, paused⟩ := pause_ends w c
  cases failing : w₁.failure? with
  | some fault =>
      refine ⟨enough, .error fault, w₁, c₁, Outcome.error_ne_stuck _, fun limit late => ?_⟩
      unfold write
      simp only [paused limit late, failing]
  | none =>
      rw [← rule] at patient
      obtain ⟨enough', room, c₂, passed⟩ := passGates_patient w₁.taken patient.gates c₁
      let part := w₁.accepted room b
      let w₂ : Writer :=
        { w₁ with taken := w₁.taken + part.length, trace := .wrote part :: w₁.trace }
      have wrote : ∀ limit, max enough enough' ≤ limit → w.write b (c.limited limit) =
          if part.isEmpty then (.ok [], w₁, c₂.limited limit) else (.ok part, w₂, c₂.limited limit) := by
        intro limit late
        unfold write
        simp only [paused limit (Nat.le_trans (Nat.le_max_left _ _) late), failing,
          passed limit (Nat.le_trans (Nat.le_max_right _ _) late)]
        rfl
      by_cases none : part.isEmpty = true
      · refine ⟨max enough enough', .ok [], w₁, c₂, Outcome.ok_ne_stuck _, fun limit late => ?_⟩
        rw [wrote limit late, if_pos none]
      · refine ⟨max enough enough', .ok part, w₂, c₂, Outcome.ok_ne_stuck _, fun limit late => ?_⟩
        rw [wrote limit late, if_neg none]

theorem writeAll_of_error (some : b ≠ []) {fault : IoFault}
    (written : w.write b c = (.error fault, w', c')) : w.writeAll b c = (.error fault, w', c') := by
  rw [writeAll, if_neg (by rwa [List.isEmpty_iff]), written]

theorem writeAll_of_nothing (some : b ≠ []) (written : w.write b c = (.ok [], w', c')) :
    w.writeAll b c = (.error .writeZero, w', c') := by
  rw [writeAll, if_neg (by rwa [List.isEmpty_iff]), written]
  rfl

theorem writeAll_of_part {part : Bytes} (some : b ≠ []) (more : part ≠ [])
    (written : w.write b c = (.ok part, w', c')) :
    w.writeAll b c = w'.writeAll (b.drop part.length) c' := by
  rw [writeAll, if_neg (by rwa [List.isEmpty_iff]), written]
  exact if_neg (by rwa [List.isEmpty_iff])

theorem writeAll_patient (patient : w.rule.Patient) (b : Bytes) (c : Clock) :
    ∃ (enough : Nat) (out : Outcome IoFault Unit) (w' : Writer) (c' : Clock), out ≠ .stuck ∧
      ∀ limit, enough ≤ limit → w.writeAll b (c.limited limit) = (out, w', c'.limited limit) := by
  induction size : b.length using Nat.strongRecOn generalizing b w c with
  | ind n ih =>
      subst size
      by_cases none : b = []
      · refine ⟨0, .ok (), w, c, Outcome.ok_ne_stuck _, fun limit _ => ?_⟩
        rw [writeAll, if_pos (List.isEmpty_iff.mpr none)]
      obtain ⟨enough, out, w₁, c₁, came, written⟩ := write_patient patient b c
      cases out with
      | stuck => exact absurd rfl came
      | error e =>
          exact ⟨enough, .error e, w₁, c₁, Outcome.error_ne_stuck _, fun limit late =>
            writeAll_of_error none (written limit late)⟩
      | ok part =>
          by_cases nothing : part = []
          · subst nothing
            exact ⟨enough, .error .writeZero, w₁, c₁, Outcome.error_ne_stuck _, fun limit late =>
              writeAll_of_nothing none (written limit late)⟩
          · have fewer : (b.drop part.length).length < b.length := by
              have := List.length_pos_iff.mpr none
              have := List.length_pos_iff.mpr nothing
              rw [List.length_drop]
              omega
            obtain ⟨_, _, put, _⟩ := wrote_write (written enough (Nat.le_refl _))
            obtain ⟨enough', out, w₂, c₂, came', later⟩ :=
              ih _ fewer (put.rule ▸ patient) (b.drop part.length) c₁ rfl
            refine ⟨max enough enough', out, w₂, c₂, came', fun limit late => ?_⟩
            rw [writeAll_of_part none nothing (written limit (by omega))]
            exact later limit (by omega)

theorem flush_patient (patient : w.rule.Patient) (c : Clock) :
    ∃ (enough : Nat) (out : Outcome IoFault Unit) (c' : Clock), out ≠ .stuck ∧
      ∀ limit, enough ≤ limit → w.flush (c.limited limit) = (out, w.note .flushed, c'.limited limit) := by
  have passes : ∃ (enough : Nat) (c' : Clock), ∀ limit, enough ≤ limit →
      passFlushGate (w.rule.flushGates.lookup (w.count .flushed + 1)) (c.limited limit) =
        (true, c'.limited limit) := by
    rcases gate : w.rule.flushGates.lookup (w.count .flushed + 1) with _ | ⟨_ | moment⟩
    · exact ⟨0, c, fun limit _ => rfl⟩
    · obtain ⟨first, last, same⟩ := List.lookup_eq_some_iff.mp gate
      have member : (w.count .flushed + 1, none) ∈ w.rule.flushGates :=
        same.1 ▸ List.mem_append_right first List.mem_cons_self
      exact absurd rfl (patient.flushGates _ member)
    · exact ⟨moment, { c with now := max c.now moment }, fun limit late =>
        c.waitUntil_limited late⟩
  obtain ⟨enough, c', passed⟩ := passes
  cases failing : w.rule.failFlush.lookup (w.count .flushed + 1) with
  | some fault =>
      refine ⟨enough, .error fault, c', Outcome.error_ne_stuck _, fun limit late => ?_⟩
      unfold flush
      simp only [passed limit late, failing]
  | none =>
      refine ⟨enough, .ok (), c', Outcome.ok_ne_stuck _, fun limit late => ?_⟩
      unfold flush
      simp only [passed limit late, failing]

theorem not_fails_of_willing (willing : w.rule.Willing) (bytes flushes : Nat) :
    ¬ w.Fails bytes flushes := by
  intro fails
  cases fails with
  | full most _ => exact willing.most most
  | failAt failAt _ _ => cases willing.failAt.symm.trans failAt
  | zeroAt zeroAt _ _ => cases willing.zeroAt.symm.trans zeroAt
  | failFlush failFlush _ _ =>
      rw [willing.failFlush, List.lookup_nil] at failFlush
      cases failFlush

end Writer

end HttpExchange
