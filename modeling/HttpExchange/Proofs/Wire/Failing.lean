import HttpExchange.Proofs.Wire.Broken
import HttpExchange.Wire.Head

/-!
Where a writer fails. Its rule says behind how many bytes, and at which flush; whoever gets so many
bytes and flushes through has come past every such place.
-/

namespace HttpExchange

namespace Writer

/-- The writer fails by the time that it was given so many more bytes and flushes. -/
inductive Fails (w : Writer) (bytes flushes : Nat) : Prop where
  | full (most : w.rule.most = some 0) (pos : 0 < bytes) : Fails w bytes flushes
  | failAt {position : Nat} {fault : IoFault} (failAt : w.rule.failAt = some (position, fault))
      (pos : 0 < bytes) (within : position < w.taken + bytes) : Fails w bytes flushes
  | zeroAt {position : Nat} (zeroAt : w.rule.zeroAt = some position) (pos : 0 < bytes)
      (within : position < w.taken + bytes) : Fails w bytes flushes
  | failFlush {number : Nat} {fault : IoFault}
      (failFlush : w.rule.failFlush.lookup number = some fault)
      (later : w.count .flushed < number) (within : number ≤ w.count .flushed + flushes) :
      Fails w bytes flushes

/-- The later writer went on from the earlier one by taking so many bytes and by so many flushes,
and it did not fail. -/
structure Passed (w w' : Writer) (bytes flushes : Nat) : Prop where
  taken : w'.taken = w.taken + bytes
  flushed : w'.count .flushed = w.count .flushed + flushes
  rule : w'.rule = w.rule
  sound : ¬ w.Fails bytes flushes

/-- The writer fails by the time that all this is sent, with a flush behind each part. -/
def FailsIn (w : Writer) (sends : List Bytes) : Prop := w.Fails sends.flatten.length sends.length

/-- The later writer went on from the earlier one by sending all this, with a flush behind each
part. -/
structure Carried (w w' : Writer) (sends : List Bytes) : Prop where
  passed : Passed w w' sends.flatten.length sends.length
  output : w'.output = w.output ++ sends.flatten

variable {w w' w'' : Writer} {b : Bytes} {c c' : Clock}

theorem not_fails_zero (w : Writer) : ¬ w.Fails 0 0 := by
  intro fails
  cases fails <;> omega

/-- What fails within two parts fails within the first one, or behind it within the second one. -/
theorem Fails.split {first second flushes flushes' : Nat} (taken : w'.taken = w.taken + first)
    (flushed : w'.count .flushed = w.count .flushed + flushes) (rule : w'.rule = w.rule)
    (fails : w.Fails (first + second) (flushes + flushes')) :
    w.Fails first flushes ∨ w'.Fails second flushes' := by
  cases fails with
  | full most pos =>
      by_cases more : 0 < second
      · exact .inr (.full (rule ▸ most) more)
      · exact .inl (.full most (by omega))
  | failAt failAt pos within =>
      by_cases more : 0 < second
      · exact .inr (.failAt (rule ▸ failAt) more (by omega))
      · exact .inl (.failAt failAt (by omega) (by omega))
  | zeroAt zeroAt pos within =>
      by_cases more : 0 < second
      · exact .inr (.zeroAt (rule ▸ zeroAt) more (by omega))
      · exact .inl (.zeroAt zeroAt (by omega) (by omega))
  | @failFlush number _ failFlush later within =>
      by_cases here : number ≤ w.count .flushed + flushes
      · exact .inl (.failFlush failFlush later here)
      · exact .inr (.failFlush (rule ▸ failFlush) (by omega) (by omega))

theorem Fails.mono {bytes flushes bytes' flushes' : Nat} (fails : w.Fails bytes flushes)
    (more : bytes ≤ bytes') (later : flushes ≤ flushes') : w.Fails bytes' flushes' := by
  cases fails with
  | full most pos => exact .full most (by omega)
  | failAt failAt pos within => exact .failAt failAt (by omega) (by omega)
  | zeroAt zeroAt pos within => exact .zeroAt zeroAt (by omega) (by omega)
  | failFlush failFlush after within => exact .failFlush failFlush after (by omega)

namespace Passed

theorem refl (w : Writer) : Passed w w 0 0 := ⟨rfl, rfl, rfl, not_fails_zero w⟩

theorem trans {first second flushes flushes' : Nat} (one : Passed w w' first flushes)
    (two : Passed w' w'' second flushes') :
    Passed w w'' (first + second) (flushes + flushes') := by
  refine ⟨?_, ?_, two.rule.trans one.rule, ?_⟩
  · rw [two.taken, one.taken, Nat.add_assoc]
  · rw [two.flushed, one.flushed, Nat.add_assoc]
  · intro fails
    exact (fails.split one.taken one.flushed one.rule).elim one.sound two.sound

/-- Behind what a writer came past it fails where it would have failed from the start. -/
theorem fails_iff {first second flushes flushes' : Nat} (passed : Passed w w' first flushes) :
    w.Fails (first + second) (flushes + flushes') ↔ w'.Fails second flushes' := by
  obtain ⟨taken, flushed, rule, sound⟩ := passed
  constructor
  · intro fails
    exact (fails.split taken flushed rule).resolve_left sound
  · intro fails
    cases fails with
    | full most pos => exact .full (rule ▸ most) (by omega)
    | failAt failAt pos within => exact .failAt (rule ▸ failAt) (by omega) (by omega)
    | zeroAt zeroAt pos within => exact .zeroAt (rule ▸ zeroAt) (by omega) (by omega)
    | failFlush failFlush later within =>
        exact .failFlush (rule ▸ failFlush) (by omega) (by omega)

end Passed

theorem passed_note (w : Writer) {e : WireEvent} (other : e ≠ .flushed) :
    Passed w (w.note e) 0 0 :=
  ⟨rfl, List.count_cons_of_ne other, rfl, not_fails_zero w⟩

theorem length_limited_le {α : Type} (limit : Option α) (size : α → Nat) (x : Bytes) :
    ((limit.map fun limit => x.take (size limit)).getD x).length ≤ x.length ∧
      ∀ n, limit = some n →
        ((limit.map fun limit => x.take (size limit)).getD x).length ≤ size n := by
  cases limit with
  | none => exact ⟨Nat.le_refl _, nofun⟩
  | some n =>
      rw [Option.map_some, Option.getD_some, List.length_take]
      refine ⟨Nat.min_le_right _ _, ?_⟩
      intro n same
      cases same
      exact Nat.min_le_left _ _

/-- No write takes bytes from a place on where writing fails. -/
theorem length_accepted_le (w : Writer) (room : Option Nat) (b : Bytes) :
    (∀ position fault, w.rule.failAt = some (position, fault) →
      (w.accepted room b).length ≤ position - w.taken) ∧
    ∀ position, w.rule.zeroAt = some position →
      (w.accepted room b).length ≤ position - w.taken := by
  refine ⟨?_, fun position zeroAt => (length_limited_le _ _ _).2 _ zeroAt⟩
  intro position fault failAt
  exact Nat.le_trans (length_limited_le w.rule.zeroAt (fun position => position - w.taken) _).1
    ((length_limited_le w.rule.failAt (fun limit => limit.1 - w.taken) _).2 _ failAt)

/-- A write that takes something does not go beyond a place where the writer fails. -/
theorem passed_write {part : Bytes} (eq : w.write b c = (.ok part, w', c')) (some : part ≠ []) :
    Passed w w' part.length 0 := by
  have pos := List.length_pos_iff.mpr some
  unfold write at eq
  split at eq
  · cases eq
  · next w₁ c₁ paused =>
      obtain ⟨stallEnd, rfl⟩ := pause_writer paused
      split at eq
      · cases eq
      · split at eq
        · cases eq
        · next room c₂ _ =>
            simp only at eq
            split at eq
            · cases eq
              exact absurd rfl some
            · cases eq
              obtain ⟨failAt, zeroAt⟩ := length_accepted_le { w with stallEnd } room b
              refine ⟨rfl, List.count_cons_of_ne WireEvent.noConfusion, rfl, ?_⟩
              intro fails
              cases fails with
              | full most _ =>
                  refine some ((accepted_eq_nil_iff _ room b).mpr ?_)
                  exact .inl (.inl (.inl (.inr ⟨0, most, rfl⟩)))
              | failAt at_ _ within =>
                  have short := failAt _ _ at_
                  simp only at short
                  omega
              | zeroAt at_ _ within =>
                  have short := zeroAt _ at_
                  simp only at short
                  omega
              | failFlush _ later within => omega

theorem passed_writeAll (eq : w.writeAll b c = (.ok (), w', c')) : Passed w w' b.length 0 := by
  fun_induction writeAll b w c with
  | case1 b w c none =>
      rw [List.isEmpty_iff.mp none]
      cases eq
      exact .refl _
  | case3 b w c _ part w₁ c₁ written more ih =>
      rw [List.isEmpty_iff] at more
      obtain ⟨_, ⟨rest, rfl⟩, _, told⟩ := wrote_write written
      cases told part rfl
      have later := ih eq
      rw [List.drop_left] at later
      rw [List.length_append]
      exact (passed_write written more).trans later
  | case2 | case4 | case5 => cases eq

theorem passed_flush (eq : w.flush c = (.ok (), w', c')) : Passed w w' 0 1 := by
  unfold flush at eq
  simp only at eq
  split at eq
  · cases eq
  · split at eq
    · cases eq
    · next sound =>
        cases eq
        refine ⟨rfl, List.count_cons_self, rfl, ?_⟩
        intro fails
        cases fails with
        | full _ pos | failAt _ pos _ | zeroAt _ pos _ => exact absurd pos (Nat.lt_irrefl 0)
        | @failFlush number _ failFlush later within =>
            have here : number = w.count .flushed + 1 := by omega
            rw [here, sound] at failFlush
            cases failFlush

theorem fails_of_broken (broken : w.Broken) {bytes : Nat} (pos : 0 < bytes) (flushes : Nat) :
    w.Fails bytes flushes := by
  rcases broken with most | ⟨fault, failing⟩ | ⟨position, zeroAt, reached⟩
  · exact .full most pos
  · rcases failAt : w.rule.failAt with _ | ⟨position, fault'⟩
    · rw [failure?, failAt] at failing
      cases failing
    · rw [failure?, failAt] at failing
      simp only at failing
      split at failing
      · next reached => exact .failAt failAt pos (by omega)
      · cases failing
  · exact .zeroAt zeroAt pos (by omega)

theorem fails_of_writeAll {fault : IoFault} (eq : w.writeAll b c = (.error fault, w', c')) :
    w.Fails b.length 0 := by
  generalize failed : Outcome.error fault = out at eq
  fun_induction writeAll b w c with
  | case1 => cases failed.trans (congrArg Prod.fst eq).symm
  | case2 b w c some x w₁ c₁ written none =>
      rw [List.isEmpty_iff] at none some
      exact fails_of_broken (broken_of_write some written (.inl (congrArg Outcome.ok none)))
        (List.length_pos_iff.mpr some) 0
  | case3 b w c _ part w₁ c₁ written more ih =>
      rw [List.isEmpty_iff] at more
      obtain ⟨_, ⟨rest, rfl⟩, _, told⟩ := wrote_write written
      cases told part rfl
      have later := ih eq
      rw [List.drop_left] at later
      rw [List.length_append]
      exact (passed_write written more).fails_iff.mpr later
  | case4 b w c some e w₁ c₁ written =>
      rw [List.isEmpty_iff] at some
      exact fails_of_broken (broken_of_write some written (.inr ⟨e, rfl⟩))
        (List.length_pos_iff.mpr some) 0
  | case5 => cases failed.trans (congrArg Prod.fst eq).symm

theorem fails_of_flush {fault : IoFault} (eq : w.flush c = (.error fault, w', c')) :
    w.Fails 0 1 := by
  unfold flush at eq
  simp only at eq
  split at eq
  · cases eq
  · split at eq
    · next failing => exact .failFlush failing (Nat.lt_succ_self _) (Nat.le_refl _)
    · cases eq

theorem FailsIn.mono {sends more : List Bytes} (fails : w.FailsIn sends) (part : sends <+: more) :
    w.FailsIn more :=
  Fails.mono fails (Bytes.flatten_prefix part).length_le part.length_le

namespace Carried

variable {sends more : List Bytes}

theorem refl (w : Writer) : Carried w w [] := ⟨.refl w, (List.append_nil _).symm⟩

theorem trans (one : Carried w w' sends) (two : Carried w' w'' more) :
    Carried w w'' (sends ++ more) := by
  refine ⟨?_, ?_⟩
  · rw [List.flatten_append, List.length_append, List.length_append]
    exact one.passed.trans two.passed
  · rw [two.output, one.output, List.flatten_append, List.append_assoc]

theorem failsIn_iff (carried : Carried w w' sends) :
    w.FailsIn (sends ++ more) ↔ w'.FailsIn more := by
  rw [FailsIn, List.flatten_append, List.length_append, List.length_append]
  exact carried.passed.fails_iff

theorem not_failsIn (carried : Carried w w' sends) : ¬ w.FailsIn sends := carried.passed.sound

end Carried

end Writer

end HttpExchange
