import HttpExchange.Wire.Reader

/-!
How time goes on while something arrives: nothing takes longer than its clock allows, and a read
that gets stuck takes all of that time.
-/

namespace HttpExchange

namespace Clock

variable {c c₁ c₂ : Clock}

/-- Time went on, but not because of a wait that ends behind the limit. -/
structure Elapses (c c' : Clock) : Prop where
  limit : c'.limit = c.limit
  onward : c.now ≤ c'.now
  within : c'.now ≤ max c.now c.limit

theorem Elapses.refl (c : Clock) : c.Elapses c :=
  ⟨rfl, Nat.le_refl _, Nat.le_max_left _ _⟩

theorem Elapses.trans (first : c.Elapses c₁) (second : c₁.Elapses c₂) : c.Elapses c₂ := by
  have within := second.within
  rw [first.limit] at within
  refine ⟨second.limit.trans first.limit, Nat.le_trans first.onward second.onward, ?_⟩
  exact Nat.le_trans within (Nat.max_le.mpr ⟨first.within, Nat.le_max_right _ _⟩)

theorem elapses_expire (c : Clock) (wake : Option Nat) : c.Elapses (c.expire wake) :=
  ⟨rfl, Nat.le_max_left _ _, Nat.le_refl _⟩

theorem elapses_waitUntil {moment : Nat} {awake : Bool} (eq : c.waitUntil moment = (awake, c₁)) :
    c.Elapses c₁ := by
  unfold waitUntil at eq
  split at eq
  · next early =>
      cases eq
      refine ⟨rfl, Nat.le_max_left _ _, ?_⟩
      exact Nat.max_le.mpr ⟨Nat.le_max_left _ _, Nat.le_trans early (Nat.le_max_right _ _)⟩
  · cases eq
    exact elapses_expire c _

/-- All the time that was left went by. -/
def Expires (c c' : Clock) : Prop := c'.now = max c.now c.limit

theorem Elapses.expires (first : c.Elapses c₁) (second : c₁.Expires c₂) : c.Expires c₂ := by
  have onward := first.onward
  have within := first.within
  unfold Expires at second ⊢
  rw [second, first.limit]
  omega

theorem expires_waitUntil {moment : Nat} (eq : c.waitUntil moment = (false, c₁)) :
    c.Expires c₁ := by
  unfold waitUntil at eq
  split at eq
  · cases eq
  · cases eq
    rfl

end Clock

variable {c c' : Clock}

theorem Arrival.elapses_take {patient : Bool} {room : Nat} {arrivals left : List Arrival}
    {out : Outcome IoFault Bytes} (eq : Arrival.take patient room arrivals c = (out, left, c')) :
    c.Elapses c' := by
  fun_induction Arrival.take patient room arrivals c with
  | case1 | case3 | case5 =>
      cases eq
      exact .refl _
  | case2 _ _ _ _ ih | case4 _ _ _ _ ih => exact ih eq
  | case6 _ _ _ _ awake ih | case8 _ _ _ _ awake ih =>
      exact (Clock.elapses_waitUntil awake).trans (ih eq)
  | case7 _ _ _ _ asleep | case9 _ _ _ _ asleep =>
      cases eq
      exact Clock.elapses_waitUntil asleep
  | case10 =>
      cases eq
      exact Clock.elapses_expire _ _

theorem Arrival.expires_take {patient : Bool} {room : Nat} {arrivals left : List Arrival}
    (eq : Arrival.take patient room arrivals c = (.stuck, left, c')) : c.Expires c' := by
  fun_induction Arrival.take patient room arrivals c with
  | case1 | case3 | case5 => cases eq
  | case2 _ _ _ _ ih | case4 _ _ _ _ ih => exact ih eq
  | case6 _ _ _ _ awake ih | case8 _ _ _ _ awake ih =>
      exact (Clock.elapses_waitUntil awake).expires (ih eq)
  | case7 _ _ _ _ asleep | case9 _ _ _ _ asleep =>
      cases eq
      exact Clock.expires_waitUntil asleep
  | case10 =>
      cases eq
      rfl

namespace Reader

variable {r r' : Reader} {before : Bytes}

theorem elapses_next {room : Nat} {out : Outcome IoFault (Option UInt8)}
    (eq : r.next room c = (out, r', c')) : c.Elapses c' := by
  unfold next at eq
  split at eq
  · cases eq
    exact .refl _
  · split at eq <;> next taken =>
      cases eq
      exact Arrival.elapses_take taken

theorem elapses_lineOnto {budget : Nat} {out : Outcome IoFault Bytes}
    (eq : lineOnto budget before r c = (out, r', c')) : c.Elapses c' := by
  fun_induction lineOnto budget before r c with
  | case1 =>
      cases eq
      exact .refl _
  | case3 _ _ _ _ _ _ _ read _ ih => exact (elapses_next read).trans (ih eq)
  | case2 _ _ _ _ _ _ read | case4 _ _ _ _ _ _ read | case5 _ _ _ _ _ _ _ read
  | case6 _ _ _ _ _ _ read =>
      cases eq
      exact elapses_next read

theorem elapses_exactlyOnto {count : Nat} {out : Outcome IoFault (Option Bytes)}
    (eq : exactlyOnto count before r c = (out, r', c')) : c.Elapses c' := by
  fun_induction exactlyOnto count before r c with
  | case1 =>
      cases eq
      exact .refl _
  | case2 _ _ _ _ _ _ _ read ih => exact (elapses_next read).trans (ih eq)
  | case3 _ _ _ _ _ _ read | case4 _ _ _ _ _ _ _ read | case5 _ _ _ _ _ _ read =>
      cases eq
      exact elapses_next read

theorem elapses_available {most : Nat} {out : Outcome IoFault Bytes}
    (eq : r.available most c = (out, r', c')) : c.Elapses c' := by
  unfold available at eq
  split at eq
  · cases eq
    exact .refl _
  · split at eq <;> next taken =>
      cases eq
      exact Arrival.elapses_take taken

theorem expires_next {room : Nat} (eq : r.next room c = (.stuck, r', c')) : c.Expires c' := by
  unfold next at eq
  split at eq
  · cases eq
  · split at eq
    · cases eq
    · cases eq
    · cases eq
    · next taken =>
        cases eq
        exact Arrival.expires_take taken

theorem expires_lineOnto {budget : Nat} (eq : lineOnto budget before r c = (.stuck, r', c')) :
    c.Expires c' := by
  fun_induction lineOnto budget before r c with
  | case1 | case2 | case4 | case5 => cases eq
  | case3 _ _ _ _ _ _ _ read _ ih => exact (elapses_next read).expires (ih eq)
  | case6 _ _ _ _ _ _ read =>
      cases eq
      exact expires_next read

theorem expires_exactlyOnto {count : Nat} (eq : exactlyOnto count before r c = (.stuck, r', c')) :
    c.Expires c' := by
  fun_induction exactlyOnto count before r c with
  | case1 | case3 | case4 => cases eq
  | case2 _ _ _ _ _ _ _ read ih => exact (elapses_next read).expires (ih eq)
  | case5 _ _ _ _ _ _ read =>
      cases eq
      exact expires_next read

theorem expires_available {most : Nat} (eq : r.available most c = (.stuck, r', c')) :
    c.Expires c' := by
  unfold available at eq
  split at eq
  · cases eq
  · split at eq
    · cases eq
    · cases eq
    · next taken =>
        cases eq
        exact Arrival.expires_take taken

end Reader

end HttpExchange
