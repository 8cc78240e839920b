import HttpExchange.Proofs.Body.Producing
import HttpExchange.Proofs.Body.Transfer

/-!
A delivery as rounds: in each the producer is asked for one chunk, and the chunk is written and
passed on. A delivery is a number of rounds and the one demand behind them that halts it, and it
is no other: the rounds and the halt give back what the delivery came to.
-/

namespace HttpExchange

namespace Delivery

/-- A delivery with its producer, between two demands. -/
structure Course where
  /-- When the producer answered last. -/
  last : Nat
  delivery : Delivery
  producer : Producer
  link : Link

namespace Course

def demand (patience : Patience) (s : Course) : Pull × Producer × Delivery × Link :=
  s.delivery.demand (patience.deadline? s.last) s.producer s.link

def loop (patience : Patience) (s : Course) : Outcome BodyError Nat × Delivery × Link :=
  s.delivery.loop patience s.last s.producer s.link

end Course

variable {patience : Patience} {s s' s'' : Course} {p : Producer} {d d' d₁ : Delivery}
  {l l' l₁ l₂ : Link} {b : Bytes} {pulled sent : List Bytes} {out : Outcome BodyError Nat}

/-- One chunk is taken from the producer. Nothing is written for one without bytes. -/
inductive Round (patience : Patience) : Course → Bytes → Course → Prop where
  | skip {s : Course} {p : Producer} {d : Delivery} {l : Link}
      (asked : s.demand patience = (.chunk [], p, d, l)) : Round patience s [] ⟨l.clock.now, d, p, l⟩
  | deliver {s : Course} {p : Producer} {d d₁ : Delivery} {l l₁ l₂ : Link} {b : Bytes}
      (asked : s.demand patience = (.chunk b, p, d₁, l₁)) (some : b ≠ [])
      (wrote : d₁.deliver b l₁ = (.ok (), d, l₂)) (passed : l₂.flush = (.ok (), l)) :
      Round patience s b ⟨l₁.clock.now, d, p, l⟩

inductive Rounds (patience : Patience) : Course → List Bytes → Course → Prop where
  | none (s : Course) : Rounds patience s [] s
  | more {s s' s'' : Course} {b : Bytes} {bs : List Bytes} (first : Round patience s b s')
      (rest : Rounds patience s' bs s'') : Rounds patience s (b :: bs) s''

/-- The demand behind which there is no other, and what comes of it. -/
inductive Halt (patience : Patience) : Course → Outcome BodyError Nat → Delivery → Link → Prop where
  | failed {s : Course} {p : Producer} {d : Delivery} {l : Link} {cause : Mishap}
      (asked : s.demand patience = (.failed cause, p, d, l)) :
      Halt patience s (.error (d.failure cause)) d l
  | cancelled {s : Course} {p : Producer} {d : Delivery} {l : Link}
      (asked : s.demand patience = (.cancelled, p, d, l)) :
      Halt patience s (.error (.cancelled d.isCommitted)) d l
  | stuck {s : Course} {p : Producer} {d : Delivery} {l : Link}
      (asked : s.demand patience = (.stuck, p, d, l)) : Halt patience s .stuck d l
  | ended {s : Course} {p : Producer} {d d₁ : Delivery} {l l₁ : Link}
      {out : Outcome BodyError Nat} (asked : s.demand patience = (.ended, p, d₁, l₁))
      (finished : d₁.finish l₁ = (out, d, l)) : Halt patience s out d l
  | refused {s : Course} {p : Producer} {d d₁ : Delivery} {l l₁ : Link} {b : Bytes} {e : BodyError}
      (asked : s.demand patience = (.chunk b, p, d₁, l₁)) (some : b ≠ [])
      (wrote : d₁.deliver b l₁ = (.error e, d, l)) : Halt patience s (.error e) d l
  | caught {s : Course} {p : Producer} {d d₁ : Delivery} {l l₁ : Link} {b : Bytes}
      (asked : s.demand patience = (.chunk b, p, d₁, l₁)) (some : b ≠ [])
      (wrote : d₁.deliver b l₁ = (.stuck, d, l)) : Halt patience s .stuck d l
  | unflushed {s : Course} {p : Producer} {d d₁ : Delivery} {l l₁ l₂ : Link} {b : Bytes}
      {e : WireError} (asked : s.demand patience = (.chunk b, p, d₁, l₁)) (some : b ≠ [])
      (wrote : d₁.deliver b l₁ = (.ok (), d, l₂)) (passed : l₂.flush = (.error e, l)) :
      Halt patience s (.error (.wire e)) d l
  | unpassed {s : Course} {p : Producer} {d d₁ : Delivery} {l l₁ l₂ : Link} {b : Bytes}
      (asked : s.demand patience = (.chunk b, p, d₁, l₁)) (some : b ≠ [])
      (wrote : d₁.deliver b l₁ = (.ok (), d, l₂)) (passed : l₂.flush = (.stuck, l)) :
      Halt patience s .stuck d l

theorem loop_eq (patience : Patience) (last : Nat) (d : Delivery) (p : Producer) (l : Link) :
    d.loop patience last p l = match d.demand (patience.deadline? last) p l with
      | (.chunk b, p₁, d₁, l₁) =>
        if b.isEmpty then d₁.loop patience l₁.clock.now p₁ l₁
        else match d₁.deliver b l₁ with
          | (.ok (), d₂, l₂) => match l₂.flush with
            | (.ok (), l₃) => d₂.loop patience l₁.clock.now p₁ l₃
            | (.error e, l₃) => (.error (.wire e), d₂, l₃)
            | (.stuck, l₃) => (.stuck, d₂, l₃)
          | (.error e, d₂, l₂) => (.error e, d₂, l₂)
          | (.stuck, d₂, l₂) => (.stuck, d₂, l₂)
      | (.failed cause, _, d, l) => (.error (d.failure cause), d, l)
      | (.ended, _, d, l) => d.finish l
      | (.cancelled, _, d, l) => (.error (.cancelled d.isCommitted), d, l)
      | (.stuck, _, d, l) => (.stuck, d, l) := by
  rw [loop]
  split
  · next b p₁ d₁ l₁ asked =>
      rw [asked]
      by_cases none : b.isEmpty = true
      · rw [if_pos none]
        exact (if_pos none).symm
      · rw [if_neg none]
        simp only [if_neg none]
        split
        · next d₂ l₂ wrote =>
            rw [wrote]
            simp only
            split <;> next passed => rw [passed]
        · next wrote => rw [wrote]
        · next wrote => rw [wrote]
  all_goals
    next asked => rw [asked]

theorem loop_of_round (round : Round patience s b s') : s.loop patience = s'.loop patience := by
  cases round with
  | skip asked =>
      rw [Course.demand] at asked
      rw [Course.loop, loop_eq, asked]
      exact if_pos List.isEmpty_nil
  | deliver asked some wrote passed =>
      rw [Course.demand] at asked
      rw [Course.loop, loop_eq, asked]
      simp only [List.isEmpty_iff, if_neg some, wrote, passed]
      rfl

theorem loop_of_rounds (rounds : Rounds patience s pulled s') :
    s.loop patience = s'.loop patience := by
  induction rounds with
  | none s => rfl
  | more first rest ih => exact (loop_of_round first).trans ih

theorem loop_of_halt (halt : Halt patience s out d l) : s.loop patience = (out, d, l) := by
  rw [Course.loop, loop_eq]
  cases halt with
  | failed asked | cancelled asked | stuck asked =>
      rw [Course.demand] at asked
      rw [asked]
  | ended asked finished =>
      rw [Course.demand] at asked
      rw [asked]
      exact finished
  | refused asked some wrote | caught asked some wrote =>
      rw [Course.demand] at asked
      rw [asked]
      simp only [List.isEmpty_iff, if_neg some, wrote]
  | unflushed asked some wrote passed | unpassed asked some wrote passed =>
      rw [Course.demand] at asked
      rw [asked]
      simp only [List.isEmpty_iff, if_neg some, wrote, passed]

/-- Every delivery is some rounds, and a halt behind them. -/
theorem rounds_of_loop (eq : s.loop patience = (out, d', l')) :
    ∃ pulled s', Rounds patience s pulled s' ∧ Halt patience s' out d' l' := by
  obtain ⟨last, d, p, l⟩ := s
  rw [Course.loop] at eq
  fun_induction Delivery.loop patience last d p l with
  | case1 last d p l b p₁ d₁ l₁ asked none ih =>
      obtain ⟨pulled, s', rounds, halt⟩ := ih eq
      rw [List.isEmpty_iff] at none
      subst none
      exact ⟨_, s', .more (.skip asked) rounds, halt⟩
  | case2 last d p l b p₁ d₁ l₁ asked some d₂ l₂ wrote l₃ passed ih =>
      obtain ⟨pulled, s', rounds, halt⟩ := ih eq
      rw [List.isEmpty_iff] at some
      exact ⟨_, s', .more (.deliver asked some wrote passed) rounds, halt⟩
  | case3 last d p l b p₁ d₁ l₁ asked some d₂ l₂ wrote e l₃ passed =>
      rw [List.isEmpty_iff] at some
      cases eq
      exact ⟨[], _, .none _, .unflushed asked some wrote passed⟩
  | case4 last d p l b p₁ d₁ l₁ asked some d₂ l₂ wrote l₃ passed =>
      rw [List.isEmpty_iff] at some
      cases eq
      exact ⟨[], _, .none _, .unpassed asked some wrote passed⟩
  | case5 last d p l b p₁ d₁ l₁ asked some e d₂ l₂ wrote =>
      rw [List.isEmpty_iff] at some
      cases eq
      exact ⟨[], _, .none _, .refused asked some wrote⟩
  | case6 last d p l b p₁ d₁ l₁ asked some d₂ l₂ wrote =>
      rw [List.isEmpty_iff] at some
      cases eq
      exact ⟨[], _, .none _, .caught asked some wrote⟩
  | case7 last d p l cause p₁ d₁ l₁ asked =>
      cases eq
      exact ⟨[], _, .none _, .failed asked⟩
  | case8 last d p l p₁ d₁ l₁ asked => exact ⟨[], _, .none _, .ended asked eq⟩
  | case9 last d p l p₁ d₁ l₁ asked =>
      cases eq
      exact ⟨[], _, .none _, .cancelled asked⟩
  | case10 last d p l p₁ d₁ l₁ asked =>
      cases eq
      exact ⟨[], _, .none _, .stuck asked⟩

end Delivery

end HttpExchange
