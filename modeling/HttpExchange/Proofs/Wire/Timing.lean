import HttpExchange.Proofs.Wire.Waiting
import HttpExchange.Wire.Reader

/-!
What comes of a read does not depend on when it is begun. The clock only decides when it comes:
whatever comes on one clock comes on every other one, as soon as the limit leaves room for the
waits in between, and not before.
-/

namespace HttpExchange

def Clock.reached (moment : Nat) (c : Clock) : Clock := { c with now := max c.now moment }

/-- On every clock the same answer comes: at some moment, and not before. -/
def Comes {α : Type} (stuck : α → Prop) (ask answer : Clock → α) : Prop :=
  ∀ clock : Clock, ∃ moment : Nat, ∀ limit : Nat,
    (moment ≤ limit → ask (clock.limited limit) = answer ((clock.reached moment).limited limit)) ∧
    (limit < moment → stuck (ask (clock.limited limit)))

namespace Comes

variable {α β : Type} {stuck : α → Prop} {stuck₁ : β → Prop} {ask ask₂ answer : Clock → α}
  {ask₁ answer₁ : Clock → β} {c : Clock}

theorem now (same : ∀ c, ask c = answer c) : Comes stuck ask answer := by
  intro clock
  refine ⟨0, fun limit => ⟨?_, ?_⟩⟩
  · intro _
    rw [same, Clock.reached, Nat.max_zero]
  · intro early
    exact absurd early (Nat.not_lt_zero limit)

theorem wait (moment : Nat → Nat) :
    Comes (·.1 = false) (fun c => c.waitUntil (moment c.now)) (fun c => (true, c)) := by
  intro clock
  refine ⟨moment clock.now, fun limit => ⟨?_, ?_⟩⟩
  · intro late
    exact clock.waitUntil_limited late
  · intro early
    exact congrArg Prod.fst (if_neg (Nat.not_le_of_lt early))

theorem behind (first : Comes stuck₁ ask₁ answer₁) (second : Comes stuck ask₂ answer)
    (goes : ∀ c c', ask₁ c = answer₁ c' → ask c = ask₂ c')
    (waits : ∀ c, stuck₁ (ask₁ c) → stuck (ask c)) : Comes stuck ask answer := by
  intro clock
  obtain ⟨moment₁, came₁⟩ := first clock
  obtain ⟨moment₂, came₂⟩ := second (clock.reached moment₁)
  have both : (clock.reached moment₁).reached moment₂ = clock.reached (max moment₁ moment₂) := by
    simp only [Clock.reached, Nat.max_assoc]
  refine ⟨max moment₁ moment₂, fun limit => ⟨?_, ?_⟩⟩
  · intro late
    rw [goes _ _ ((came₁ limit).1 (by omega)), (came₂ limit).1 (by omega), both]
  · intro early
    by_cases late : moment₁ ≤ limit
    · rw [goes _ _ ((came₁ limit).1 late)]
      exact (came₂ limit).2 (by omega)
    · exact waits _ ((came₁ limit).2 (by omega))

theorem map (first : Comes stuck₁ ask₁ answer₁)
    (goes : ∀ c c', ask₁ c = answer₁ c' → ask c = answer c')
    (waits : ∀ c, stuck₁ (ask₁ c) → stuck (ask c)) : Comes stuck ask answer :=
  first.behind (now fun _ => rfl) goes waits

/-- What came on a clock comes under every limit that leaves room for it. -/
theorem limited (comes : Comes stuck ask answer) (came : ¬ stuck (ask c)) :
    ∃ moment ≤ c.limit, ask c = answer (c.reached moment) ∧ ∀ limit, moment ≤ limit →
      ask (c.limited limit) = answer ((c.reached moment).limited limit) := by
  obtain ⟨moment, comes⟩ := comes c
  have inTime : moment ≤ c.limit := by
    apply Nat.le_of_not_lt
    intro early
    exact came ((comes c.limit).2 early)
  exact ⟨moment, inTime, (comes c.limit).1 inTime, fun limit late => (comes limit).1 late⟩

end Comes

variable {c c' : Clock}

theorem Arrival.comes_take {patient : Bool} {room : Nat} {arrivals left : List Arrival}
    {out : Outcome IoFault Bytes} (eq : Arrival.take patient room arrivals c = (out, left, c'))
    (came : out ≠ .stuck) :
    Comes (·.1 = .stuck) (Arrival.take patient room arrivals) (fun c => (out, left, c)) := by
  induction arrivals generalizing c with
  | nil =>
      cases eq
      exact .now fun _ => rfl
  | cons arrival arrivals ih =>
      have waits : ∀ moment : Nat → Nat,
          (∀ c c', c.waitUntil (moment c.now) = (true, c') →
            Arrival.take patient room (arrival :: arrivals) c =
              Arrival.take patient room arrivals c') →
          (∀ c c', c.waitUntil (moment c.now) = (false, c') →
            (Arrival.take patient room (arrival :: arrivals) c).1 = .stuck) →
          Comes (·.1 = .stuck) (Arrival.take patient room (arrival :: arrivals))
            (fun c => (out, left, c)) := by
        intro moment awake asleep
        rcases waited : c.waitUntil (moment c.now) with ⟨_ | _, c₁⟩
        · have stuck := asleep c c₁ waited
          rw [eq] at stuck
          exact absurd stuck came
        · rw [awake c c₁ waited] at eq
          apply (Comes.wait moment).behind (ih eq) awake
          intro c early
          rcases waiting : c.waitUntil (moment c.now) with ⟨_ | _, c₂⟩
          · exact asleep c c₂ waiting
          · simp only [waiting] at early
            cases early
      cases arrival with
      | bytes b =>
          by_cases empty : b.isEmpty
          · simp only [Arrival.take, if_pos empty] at eq ⊢
            exact ih eq
          · simp only [Arrival.take, if_neg empty] at eq ⊢
            cases eq
            exact .now fun _ => rfl
      | fault e =>
          by_cases passes : patient && e.kind.isTransient
          · simp only [Arrival.take, if_pos passes] at eq ⊢
            exact ih eq
          · simp only [Arrival.take, if_neg passes] at eq ⊢
            cases eq
            exact .now fun _ => rfl
      | pause ms =>
          apply waits (· + ms)
          all_goals
            intro c c' waited
            rw [Arrival.take, waited]
      | «until» moment =>
          apply waits fun _ => moment
          all_goals
            intro c c' waited
            rw [Arrival.take, waited]
      | silence =>
          cases eq
          exact absurd rfl came

namespace Reader

variable {r r' : Reader} {before : Bytes}

theorem comes_next {room : Nat} {out : Outcome IoFault (Option UInt8)}
    (eq : r.next room c = (out, r', c')) (came : out ≠ .stuck) :
    Comes (·.1 = .stuck) (r.next room) (fun c => (out, r', c)) := by
  obtain ⟨arrivals, buffer, capacity⟩ := r
  cases buffer with
  | cons b rest =>
      cases eq
      exact .now fun _ => rfl
  | nil =>
      rcases taken : Arrival.take true room arrivals c with ⟨answer, left, c₁⟩
      simp only [next, taken] at eq
      have other : answer ≠ .stuck := by
        rintro rfl
        cases eq
        exact came rfl
      apply (Arrival.comes_take taken other).map
      · intro c c' took
        simp only [next, took]
        rcases answer with (_ | ⟨b, rest⟩) | e | _ <;> cases eq <;> rfl
      · intro c waits
        rcases took : Arrival.take true room arrivals c with ⟨answer, left, c₁⟩
        rw [took] at waits
        cases waits
        simp only [next, took]

theorem comes_lineOnto {budget : Nat} {out : Outcome IoFault Bytes}
    (eq : lineOnto budget before r c = (out, r', c')) (came : out ≠ .stuck) :
    Comes (·.1 = .stuck) (lineOnto budget before r) (fun c => (out, r', c)) := by
  induction budget generalizing before r c with
  | zero =>
      cases eq
      exact .now fun _ => rfl
  | succ budget ih =>
      rcases read : r.next r.capacity c with ⟨answer, r₁, c₁⟩
      rw [lineOnto, read] at eq
      have other : answer ≠ .stuck := by
        rintro rfl
        cases eq
        exact came rfl
      have first := comes_next read other
      have waits : ∀ c, (r.next r.capacity c).1 = .stuck →
          (lineOnto (budget + 1) before r c).1 = .stuck := by
        intro c stuck
        rcases asked : r.next r.capacity c with ⟨answer, r₂, c₂⟩
        rw [asked] at stuck
        cases stuck
        rw [lineOnto, asked]
      rcases answer with (_ | b) | e | _
      · cases eq
        refine first.map ?_ waits
        intro c c' asked
        rw [lineOnto, asked]
      · by_cases ends : b = Bytes.lf
        · simp only [if_pos ends] at eq
          cases eq
          refine first.map ?_ waits
          intro c c' asked
          rw [lineOnto, asked]
          exact if_pos ends
        · simp only [if_neg ends] at eq
          refine first.behind (ih eq) ?_ waits
          intro c c' asked
          rw [lineOnto, asked]
          exact if_neg ends
      · cases eq
        refine first.map ?_ waits
        intro c c' asked
        rw [lineOnto, asked]
      · exact absurd rfl other

theorem comes_exactlyOnto {count : Nat} {out : Outcome IoFault (Option Bytes)}
    (eq : exactlyOnto count before r c = (out, r', c')) (came : out ≠ .stuck) :
    Comes (·.1 = .stuck) (exactlyOnto count before r) (fun c => (out, r', c)) := by
  induction count generalizing before r c with
  | zero =>
      cases eq
      exact .now fun _ => rfl
  | succ count ih =>
      rcases read : r.next (max (count + 1) r.capacity) c with ⟨answer, r₁, c₁⟩
      rw [exactlyOnto, read] at eq
      have other : answer ≠ .stuck := by
        rintro rfl
        cases eq
        exact came rfl
      have first := comes_next read other
      have waits : ∀ c, (r.next (max (count + 1) r.capacity) c).1 = .stuck →
          (exactlyOnto (count + 1) before r c).1 = .stuck := by
        intro c stuck
        rcases asked : r.next (max (count + 1) r.capacity) c with ⟨answer, r₂, c₂⟩
        rw [asked] at stuck
        cases stuck
        rw [exactlyOnto, asked]
      rcases answer with (_ | b) | e | _
      · cases eq
        refine first.map ?_ waits
        intro c c' asked
        rw [exactlyOnto, asked]
      · refine first.behind (ih eq) ?_ waits
        intro c c' asked
        rw [exactlyOnto, asked]
      · cases eq
        refine first.map ?_ waits
        intro c c' asked
        rw [exactlyOnto, asked]
      · exact absurd rfl other

theorem comes_available {most : Nat} {out : Outcome IoFault Bytes}
    (eq : r.available most c = (out, r', c')) (came : out ≠ .stuck) :
    Comes (·.1 = .stuck) (r.available most) (fun c => (out, r', c)) := by
  obtain ⟨arrivals, buffer, capacity⟩ := r
  cases buffer with
  | cons b rest =>
      cases eq
      exact .now fun _ => rfl
  | nil =>
      rcases taken : Arrival.take false capacity arrivals c with ⟨answer, left, c₁⟩
      simp only [available, taken] at eq
      have other : answer ≠ .stuck := by
        rintro rfl
        cases eq
        exact came rfl
      apply (Arrival.comes_take taken other).map
      · intro c c' took
        simp only [available, took]
        rcases answer with b | e | _ <;> cases eq <;> rfl
      · intro c waits
        rcases took : Arrival.take false capacity arrivals c with ⟨answer, left, c₁⟩
        rw [took] at waits
        cases waits
        simp only [available, took]

end Reader

end HttpExchange
