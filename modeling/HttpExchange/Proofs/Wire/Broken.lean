import HttpExchange.Proofs.Wire.Sending

/-!
A writer that failed. What made it fail stays where it is, and so the writer takes nothing any more:
whatever is written later, the wire is as it was.
-/

namespace HttpExchange

namespace Writer

variable {w w' w'' : Writer} {b : Bytes} {c c' : Clock}

/-- At its position the writer fails, or takes nothing. -/
def Broken (w : Writer) : Prop :=
  w.rule.most = some 0 ∨ (∃ fault, w.failure? = some fault) ∨
    ∃ position, w.rule.zeroAt = some position ∧ position ≤ w.taken

/-- The later writer went on from the earlier one without taking anything. -/
structure Kept (w w' : Writer) : Prop where
  output : w'.output = w.output
  rule : w'.rule = w.rule
  taken : w'.taken = w.taken

namespace Kept

theorem refl (w : Writer) : Kept w w := ⟨rfl, rfl, rfl⟩

theorem trans (one : Kept w w') (two : Kept w' w'') : Kept w w'' :=
  ⟨two.output.trans one.output, two.rule.trans one.rule, two.taken.trans one.taken⟩

theorem broken (kept : Kept w w') (broken : w.Broken) : w'.Broken := by
  unfold Broken failure? at broken ⊢
  rwa [kept.rule, kept.taken]

end Kept

theorem kept_note (w : Writer) {e : WireEvent} (silent : bytesOf [e] = []) : Kept w (w.note e) := by
  refine ⟨?_, rfl, rfl⟩
  rw [note, output_cons, silent, List.append_nil]

theorem kept_pause {awake : Bool} (eq : w.pause c = (awake, w', c')) : Kept w w' := by
  obtain ⟨stallEnd, rfl⟩ := pause_writer eq
  exact ⟨rfl, rfl, rfl⟩

theorem kept_flush {out : Outcome IoFault Unit} (eq : w.flush c = (out, w', c')) : Kept w w' := by
  unfold flush at eq
  simp only at eq
  split at eq
  · cases eq
    exact .refl w
  · split at eq <;> cases eq <;> exact kept_note w rfl

theorem limited_eq_nil_iff {α : Type} (limit : Option α) (size : α → Nat) (x : Bytes) :
    (limit.map fun limit => x.take (size limit)).getD x = [] ↔
      x = [] ∨ ∃ n, limit = some n ∧ size n = 0 := by
  cases limit with
  | none =>
      refine ⟨.inl, ?_⟩
      rintro (none | ⟨n, other, _⟩)
      · exact none
      · cases other
  | some n =>
      rw [Option.map_some, Option.getD_some, List.take_eq_nil_iff]
      constructor
      · rintro (zero | none)
        · exact .inr ⟨n, rfl, zero⟩
        · exact .inl none
      · rintro (none | ⟨_, same, zero⟩)
        · exact .inr none
        · cases same
          exact .inl zero

theorem accepted_eq_nil_iff (w : Writer) (room : Option Nat) (b : Bytes) :
    w.accepted room b = [] ↔ (((b = [] ∨ ∃ n, w.rule.most = some n ∧ n = 0) ∨
      ∃ n, room = some n ∧ n = 0) ∨ ∃ limit, w.rule.failAt = some limit ∧ limit.1 - w.taken = 0) ∨
      ∃ position, w.rule.zeroAt = some position ∧ position - w.taken = 0 := by
  refine (limited_eq_nil_iff w.rule.zeroAt (fun position => position - w.taken) _).trans ?_
  refine or_congr_left ((limited_eq_nil_iff w.rule.failAt (fun limit => limit.1 - w.taken) _).trans ?_)
  refine or_congr_left ((limited_eq_nil_iff room id _).trans ?_)
  exact or_congr_left (limited_eq_nil_iff w.rule.most id b)

theorem failure?_of_failAt {limit : Nat × IoFault} (failAt : w.rule.failAt = some limit)
    (reached : limit.1 - w.taken = 0) : w.failure? = some limit.2 := by
  rw [failure?, failAt]
  exact if_pos (Nat.le_of_sub_eq_zero reached)

theorem accepted_of_broken (broken : w.Broken) (sound : w.failure? = none) (room : Option Nat)
    (b : Bytes) : w.accepted room b = [] := by
  rw [accepted_eq_nil_iff]
  rcases broken with most | ⟨fault, failing⟩ | ⟨position, zero, reached⟩
  · exact .inl (.inl (.inl (.inr ⟨0, most, rfl⟩)))
  · cases sound.symm.trans failing
  · exact .inr ⟨position, zero, Nat.sub_eq_zero_of_le reached⟩

/-- A broken writer takes nothing, and says so unless it keeps the write waiting. -/
theorem write_broken (broken : w.Broken) {out : Outcome IoFault Bytes}
    (eq : w.write b c = (out, w', c')) :
    Kept w w' ∧ (out = .ok [] ∨ (∃ fault, out = .error fault) ∨ out = .stuck) := by
  unfold write at eq
  split at eq
  · next paused =>
      cases eq
      exact ⟨kept_pause paused, .inr (.inr rfl)⟩
  · next w₁ c₁ paused =>
      have kept := kept_pause paused
      split at eq
      · cases eq
        exact ⟨kept, .inr (.inl ⟨_, rfl⟩)⟩
      · next sound =>
          split at eq
          · cases eq
            exact ⟨kept, .inr (.inr rfl)⟩
          · next room c₂ _ =>
              have none := accepted_of_broken (kept.broken broken) sound room b
              rw [none] at eq
              cases eq
              exact ⟨kept, .inl rfl⟩

theorem writeAll_broken (broken : w.Broken) {out : Outcome IoFault Unit}
    (eq : w.writeAll b c = (out, w', c')) : Kept w w' := by
  rw [writeAll] at eq
  split at eq
  · cases eq
    exact .refl w
  · split at eq
    · next written =>
        obtain ⟨kept, out⟩ := write_broken broken written
        rcases out with none | ⟨_, failed⟩ | waits
        · cases none
          cases eq
          exact kept
        · cases failed
        · cases waits
    · next written =>
        cases eq
        exact (write_broken broken written).1
    · next written =>
        cases eq
        exact (write_broken broken written).1

theorem passGates_room {taken : Nat} {gates : List (Nat × Option Nat)} {room : Option Nat}
    (eq : passGates taken gates c = (true, room, c')) : room ≠ some 0 := by
  induction gates generalizing c with
  | nil =>
      cases eq
      exact nofun
  | cons gate gates ih =>
      obtain ⟨position, moment⟩ := gate
      unfold passGates at eq
      split at eq
      · next before =>
          cases eq
          intro none
          have := Option.some.inj none
          omega
      · cases moment with
        | none => cases eq
        | some t =>
            rcases waited : c.waitUntil t with ⟨awake, c₁⟩
            simp only [waited] at eq
            cases awake with
            | true => exact ih eq
            | false => cases eq

theorem broken_of_accepted_nil (bytes : b ≠ []) (sound : w.failure? = none) {room : Option Nat}
    (free : room ≠ some 0) (nothing : w.accepted room b = []) : w.Broken := by
  rw [accepted_eq_nil_iff] at nothing
  rcases nothing with (((empty | ⟨_, most, rfl⟩) | ⟨_, full, rfl⟩) | ⟨_, failAt, here⟩) |
    ⟨position, zero, here⟩
  · exact absurd empty bytes
  · exact .inl most
  · exact absurd full free
  · cases sound.symm.trans (failure?_of_failAt failAt here)
  · exact .inr (.inr ⟨position, zero, Nat.le_of_sub_eq_zero here⟩)

/-- A writer that fails, or takes nothing of some bytes, is broken. -/
theorem broken_of_write (some : b ≠ []) {out : Outcome IoFault Bytes}
    (eq : w.write b c = (out, w', c')) (failed : out = .ok [] ∨ ∃ fault, out = .error fault) :
    w.Broken := by
  unfold write at eq
  split at eq
  · cases eq
    rcases failed with other | ⟨_, other⟩ <;> cases other
  · next w₁ c₁ paused =>
      obtain ⟨stallEnd, rfl⟩ := pause_writer paused
      split at eq
      · next fault failing => exact .inr (.inl ⟨fault, failing⟩)
      · next sound =>
          split at eq
          · cases eq
            rcases failed with other | ⟨_, other⟩ <;> cases other
          · next room c₂ passed =>
              simp only at eq
              split at eq
              · next none =>
                  exact broken_of_accepted_nil some sound (passGates_room passed)
                    (List.isEmpty_iff.mp none)
              · next part =>
                  cases eq
                  rcases failed with none | ⟨_, other⟩
                  · rw [Outcome.ok.injEq] at none
                    rw [none] at part
                    exact absurd rfl part
                  · cases other

theorem broken_of_writeAll {fault : IoFault} (eq : w.writeAll b c = (.error fault, w', c')) :
    w'.Broken := by
  generalize failed : Outcome.error fault = out at eq
  fun_induction writeAll b w c with
  | case1 => cases failed.trans (congrArg Prod.fst eq).symm
  | case2 b w c some x w₁ c₁ written none =>
      cases eq
      rw [List.isEmpty_iff] at none some
      have broken := broken_of_write some written (.inl (congrArg Outcome.ok none))
      exact (write_broken broken written).1.broken broken
  | case3 b w c _ x w₁ c₁ _ _ ih => exact ih eq
  | case4 b w c some e w₁ c₁ written =>
      cases eq
      rw [List.isEmpty_iff] at some
      have broken := broken_of_write some written (.inr ⟨e, rfl⟩)
      exact (write_broken broken written).1.broken broken
  | case5 => cases failed.trans (congrArg Prod.fst eq).symm

end Writer

end HttpExchange
