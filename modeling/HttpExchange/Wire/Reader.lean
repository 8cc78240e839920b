import HttpExchange.Bytes
import HttpExchange.Wire.Clock
import HttpExchange.Wire.Fault

/-!
The receiving side of a connection. What arrives is a script: bytes in segments, pauses, failures,
silence; behind it the input ends for good. A reader takes a segment or a part of one at a time
into a buffer, when the buffer is empty, and hands out the buffer's bytes. A failure that passes is
seen only by who takes whatever there is. A read that gets stuck hands out nothing, and the bytes
that it has taken are the buffer's again.

The weight of a reader counts what may still be taken. Every byte that is handed out makes it
smaller, and nothing makes it larger; loops over the input end for this reason.
-/

namespace HttpExchange

/-- A step of what arrives. -/
inductive Arrival where
  | bytes (b : Bytes)
  | fault (e : IoFault)
  | pause (ms : Nat)
  | until (moment : Nat)
  | silence
  deriving DecidableEq, Repr

/-- The bytes of one segment that fit, with what is still to arrive; no bytes mean the end. Who
is patient tries again after a failure that passes. -/
def Arrival.take (patient : Bool) (room : Nat) : List Arrival → Clock →
    Outcome IoFault Bytes × List Arrival × Clock
  | [], c => (.ok [], [], c)
  | .bytes b :: rest, c =>
    if b.isEmpty then take patient room rest c
    else
      let left := b.drop room
      (.ok (b.take room), if left.isEmpty then rest else .bytes left :: rest, c)
  | .fault e :: rest, c =>
    if patient && e.kind.isTransient then take patient room rest c else (.error e, rest, c)
  | .pause ms :: rest, c => match c.waitUntil (c.now + ms) with
    | (true, c') => take patient room rest c'
    | (false, c') => (.stuck, .until (c.now + ms) :: rest, c')
  | .until moment :: rest, c => match c.waitUntil moment with
    | (true, c') => take patient room rest c'
    | (false, c') => (.stuck, .until moment :: rest, c')
  | .silence :: rest, c => (.stuck, .silence :: rest, c.expire none)

def Arrival.weight : List Arrival → Nat
  | [] => 0
  | .bytes b :: rest => b.length + 1 + weight rest
  | _ :: rest => 1 + weight rest

/-- A buffered reader. -/
structure Reader where
  arrivals : List Arrival
  buffer : Bytes := []
  capacity : Nat
  deriving DecidableEq, Repr

namespace Reader

def weight (r : Reader) : Nat := r.buffer.length + Arrival.weight r.arrivals

/-- The next byte, or none at the end. An empty buffer is filled with at most `room` bytes. -/
def next (room : Nat) (r : Reader) (c : Clock) :
    Outcome IoFault (Option UInt8) × Reader × Clock :=
  match r.buffer with
  | b :: rest => (.ok (some b), { r with buffer := rest }, c)
  | [] => match Arrival.take true room r.arrivals c with
    | (.ok (b :: rest), arrivals, c) => (.ok (some b), { r with arrivals, buffer := rest }, c)
    | (.ok [], arrivals, c) => (.ok none, { r with arrivals }, c)
    | (.error e, arrivals, c) => (.error e, { r with arrivals }, c)
    | (.stuck, arrivals, c) => (.stuck, { r with arrivals }, c)

/-- Puts bytes in front of those in the buffer, in reverse. -/
def putBack (r : Reader) (before : Bytes) : Reader :=
  { r with buffer := before.reverseAux r.buffer }

/-- Reads up to a line feed, the end, or `budget` bytes, onto bytes in reverse. -/
def lineOnto : (budget : Nat) → Bytes → Reader → Clock → Outcome IoFault Bytes × Reader × Clock
  | 0, before, r, c => (.ok before.reverse, r, c)
  | budget + 1, before, r, c => match r.next r.capacity c with
    | (.ok (some b), r, c) =>
      if b = Bytes.lf then (.ok (b :: before).reverse, r, c)
      else lineOnto budget (b :: before) r c
    | (.ok none, r, c) => (.ok before.reverse, r, c)
    | (.error e, r, c) => (.error e, r, c)
    | (.stuck, r, c) => (.stuck, r.putBack before, c)

/-- Reads a line with its line feed. Without one at its end it is `budget` bytes long, or the
input ended. -/
def line (budget : Nat) (r : Reader) (c : Clock) : Outcome IoFault Bytes × Reader × Clock :=
  lineOnto budget [] r c

/-- Reads `count` bytes onto bytes in reverse, or none if the input ends before. A count that the
buffer cannot hold is read past it. -/
def exactlyOnto : (count : Nat) → Bytes → Reader → Clock →
    Outcome IoFault (Option Bytes) × Reader × Clock
  | 0, before, r, c => (.ok (some before.reverse), r, c)
  | count + 1, before, r, c => match r.next (max (count + 1) r.capacity) c with
    | (.ok (some b), r, c) => exactlyOnto count (b :: before) r c
    | (.ok none, r, c) => (.ok none, r, c)
    | (.error e, r, c) => (.error e, r, c)
    | (.stuck, r, c) => (.stuck, r.putBack before, c)

/-- Reads `count` bytes, or none if the input ends before. -/
def exactly (count : Nat) (r : Reader) (c : Clock) :
    Outcome IoFault (Option Bytes) × Reader × Clock :=
  exactlyOnto count [] r c

/-- Takes what the buffer holds, at most `most` bytes; no bytes mean the end. An empty buffer is
filled first. -/
def available (most : Nat) (r : Reader) (c : Clock) : Outcome IoFault Bytes × Reader × Clock :=
  match r.buffer with
  | _ :: _ => (.ok (r.buffer.take most), { r with buffer := r.buffer.drop most }, c)
  | [] => match Arrival.take false r.capacity r.arrivals c with
    | (.ok b, arrivals, c) => (.ok (b.take most), { r with arrivals, buffer := b.drop most }, c)
    | (.error e, arrivals, c) => (.error e, { r with arrivals }, c)
    | (.stuck, arrivals, c) => (.stuck, { r with arrivals }, c)

/-- Everything that comes before the limit of the clock, up to the end or a failure. -/
def gather (r : Reader) (c : Clock) : Bytes := r.buffer ++ comingOf r.arrivals c
where
  /-- The bytes of a script that come before it fails or falls silent. -/
  comingOf : List Arrival → Clock → Bytes
    | [], _ => []
    | .bytes b :: rest, c => b ++ comingOf rest c
    | .fault _ :: _, _ | .silence :: _, _ => []
    | .pause ms :: rest, c => match c.waitUntil (c.now + ms) with
      | (true, c) => comingOf rest c
      | (false, _) => []
    | .until moment :: rest, c => match c.waitUntil moment with
      | (true, c) => comingOf rest c
      | (false, _) => []

/-- Everything that can still be read in any time, up to the end or a failure. -/
def unread (r : Reader) : Bytes := r.buffer ++ bytesOf r.arrivals
where
  /-- The bytes of a script before it fails or falls silent. -/
  bytesOf : List Arrival → Bytes
    | [] => []
    | .bytes b :: rest => b ++ bytesOf rest
    | .fault _ :: _ | .silence :: _ => []
    | .pause _ :: rest | .until _ :: rest => bytesOf rest

end Reader

theorem Arrival.weight_take {patient room arrivals c out left c'}
    (taken : Arrival.take patient room arrivals c = (out, left, c')) :
    Arrival.weight left ≤ Arrival.weight arrivals ∧
      ∀ b, out = .ok b → b ≠ [] →
        b.length + Arrival.weight left ≤ Arrival.weight arrivals := by
  fun_induction Arrival.take patient room arrivals c with
  | case1 => cases taken; simp [weight]
  | case2 b rest c empty ih =>
    have := ih taken
    simp only [weight]
    exact ⟨by omega, fun x eq ne => by have := this.2 x eq ne; omega⟩
  | case3 b rest c nonempty remaining =>
    cases taken
    have total : (b.take room).length + remaining.length = b.length := by
      rw [← List.length_append, List.take_append_drop]
    constructor
    · split <;> simp only [weight] <;> omega
    · intro x eq _
      cases eq
      split <;> simp only [weight] <;> omega
  | case4 e rest c passes ih =>
    have := ih taken
    simp only [weight]
    exact ⟨by omega, fun x eq ne => by have := this.2 x eq ne; omega⟩
  | case5 e rest c => cases taken; simp [weight]
  | case6 ms rest c c' wait ih =>
    have := ih taken
    simp only [weight]
    exact ⟨by omega, fun x eq ne => by have := this.2 x eq ne; omega⟩
  | case7 ms rest c c' wait => cases taken; simp [weight]
  | case8 moment rest c c' wait ih =>
    have := ih taken
    simp only [weight]
    exact ⟨by omega, fun x eq ne => by have := this.2 x eq ne; omega⟩
  | case9 moment rest c c' wait => cases taken; simp [weight]
  | case10 => cases taken; simp [weight]

namespace Reader

theorem weight_next {room r c out r' c'} (eq : next room r c = (out, r', c')) :
    r'.weight ≤ r.weight ∧ ∀ b, out = .ok (some b) → r'.weight < r.weight := by
  unfold next at eq
  split at eq
  · next b rest buffered =>
    cases eq
    simp only [weight, buffered, List.length_cons]
    exact ⟨by omega, fun _ _ => by omega⟩
  · next empty =>
    split at eq
    · next b rest arrivals c₁ taken =>
      cases eq
      have := (Arrival.weight_take taken).2 _ rfl (by simp)
      simp only [weight, empty, List.length_cons, List.length_nil] at *
      exact ⟨by omega, fun _ _ => by omega⟩
    all_goals
      next taken =>
        cases eq
        have := (Arrival.weight_take taken).1
        simp only [weight, empty, List.length_nil]
        exact ⟨by omega, by simp⟩

theorem weight_putBack (r : Reader) (before : Bytes) :
    (r.putBack before).weight = r.weight + before.length := by
  simp only [weight, putBack, List.reverseAux_eq, List.length_append, List.length_reverse]
  omega

theorem weight_lineOnto {budget before r c out r' c'}
    (eq : lineOnto budget before r c = (out, r', c')) :
    r'.weight ≤ r.weight + before.length ∧
      ∀ l, out = .ok l → r'.weight + l.length ≤ r.weight + before.length := by
  fun_induction lineOnto budget before r c with
  | case1 =>
    cases eq
    refine ⟨Nat.le_add_right _ _, fun l same => ?_⟩
    cases same
    simp
  | case2 budget before r c r₁ c₁ read =>
    cases eq
    have taken := (weight_next read).2 _ rfl
    refine ⟨by omega, fun l same => ?_⟩
    cases same
    simp only [List.length_reverse, List.length_cons]
    omega
  | case3 budget before r c b r₁ c₁ read _ ih =>
    have taken := (weight_next read).2 _ rfl
    have rest := ih eq
    simp only [List.length_cons] at rest
    exact ⟨by omega, fun l same => by have := rest.2 l same; omega⟩
  | case4 budget before r c r₁ c₁ read =>
    cases eq
    have taken := (weight_next read).1
    refine ⟨by omega, fun l same => ?_⟩
    cases same
    simp only [List.length_reverse]
    omega
  | case5 budget before r c e r₁ c₁ read =>
    cases eq
    exact ⟨Nat.le_add_right_of_le (weight_next read).1, by simp⟩
  | case6 budget before r c r₁ c₁ read =>
    cases eq
    rw [weight_putBack]
    exact ⟨Nat.add_le_add_right (weight_next read).1 _, by simp⟩

theorem weight_line {budget r c out r' c'} (eq : line budget r c = (out, r', c')) :
    r'.weight ≤ r.weight ∧ ∀ l, out = .ok l → l ≠ [] → r'.weight < r.weight := by
  have facts := weight_lineOnto eq
  refine ⟨facts.1, fun l same some => ?_⟩
  have taken := facts.2 l same
  have := List.length_pos_iff.2 some
  simp only [List.length_nil] at taken
  omega

theorem weight_exactlyOnto {count before r c out r' c'}
    (eq : exactlyOnto count before r c = (out, r', c')) :
    r'.weight ≤ r.weight + before.length ∧
      ∀ b, out = .ok (some b) → r'.weight + count ≤ r.weight := by
  fun_induction exactlyOnto count before r c with
  | case1 => cases eq; exact ⟨Nat.le_add_right _ _, fun _ _ => Nat.le_refl _⟩
  | case2 count before r c b r₁ c₁ read ih =>
    have taken := (weight_next read).2 _ rfl
    have rest := ih eq
    simp only [List.length_cons] at rest
    exact ⟨by omega, fun b same => by have := rest.2 b same; omega⟩
  | case3 count before r c r₁ c₁ read | case4 count before r c e r₁ c₁ read =>
    cases eq
    exact ⟨Nat.le_add_right_of_le (weight_next read).1, by simp⟩
  | case5 count before r c r₁ c₁ read =>
    cases eq
    rw [weight_putBack]
    exact ⟨Nat.add_le_add_right (weight_next read).1 _, by simp⟩

theorem weight_exactly {count r c out r' c'} (eq : exactly count r c = (out, r', c')) :
    r'.weight ≤ r.weight ∧ (∀ b, out = .ok (some b) → 0 < count → r'.weight < r.weight) := by
  have facts := weight_exactlyOnto eq
  exact ⟨facts.1, fun b same some => by have := facts.2 b same; omega⟩

theorem weight_available {most r c out r' c'} (eq : available most r c = (out, r', c')) :
    r'.weight ≤ r.weight ∧ (∀ b, out = .ok b → b ≠ [] → r'.weight < r.weight) := by
  unfold available at eq
  split at eq
  · next b rest buffered =>
    cases eq
    simp only [weight, List.length_drop]
    refine ⟨by omega, fun x same some => ?_⟩
    cases same
    have : 0 < (r.buffer.take most).length := List.length_pos_iff.2 some
    rw [List.length_take] at this
    omega
  · next empty =>
    split at eq
    · next b arrivals c₁ taken =>
      cases eq
      have facts := Arrival.weight_take taken
      simp only [weight, empty, List.length_nil, List.length_drop]
      constructor
      · by_cases some : b = []
        · simp only [some, List.length_nil]; omega
        · have := facts.2 _ rfl some; omega
      · intro x same some
        cases same
        have pos : 0 < (b.take most).length := List.length_pos_iff.2 some
        rw [List.length_take] at pos
        have : b ≠ [] := by rintro rfl; simp at some
        have := facts.2 _ rfl this
        omega
    all_goals
      next taken =>
        cases eq
        have := (Arrival.weight_take taken).1
        simp only [weight, empty, List.length_nil]
        exact ⟨by omega, by simp⟩

end Reader

end HttpExchange
