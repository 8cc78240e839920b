import HttpExchange.Wire.Error
import HttpExchange.Wire.Reader
import Mathlib.Data.List.Basic

/-!
A reader in front of known bytes. How the bytes are cut into segments, and how many of them are in
the buffer already, makes no difference to what a read hands out. Behind the bytes the script goes
on; a connection that is severed there has ended, or fails in a way that means the same.
-/

namespace HttpExchange

/-- What a reader gets from here is the end, or a failure that says that the peer is gone. -/
def Arrival.Severed (tail : List Arrival) : Prop :=
  tail = [] ∨ ∃ fault rest, tail = .fault fault :: rest ∧ fault.kind.isTeardown = true

/-- The reader hands out `x`, however it is cut, before anything of `tail` happens. -/
structure Reader.Holds (r : Reader) (x : Bytes) (tail : List Arrival) : Prop where
  room : 0 < r.capacity
  cut : ∃ segments : List Bytes,
    r.arrivals = segments.map Arrival.bytes ++ tail ∧ r.buffer ++ segments.flatten = x

theorem IoKind.isTransient_of_isTeardown {kind : IoKind} (gone : kind.isTeardown = true) :
    kind.isTransient = false := by
  cases kind <;> first | rfl | cases gone

namespace Arrival

theorem take_segments (patient : Bool) {room : Nat} (pos : 0 < room) {b : UInt8} {x : Bytes}
    (segments : List Bytes) (tail : List Arrival) (c : Clock) (whole : segments.flatten = b :: x) :
    ∃ (first : Bytes) (rest : List Bytes),
      take patient room (segments.map bytes ++ tail) c =
        (.ok (b :: first), rest.map bytes ++ tail, c) ∧ first ++ rest.flatten = x := by
  induction segments with
  | nil => cases whole
  | cons segment segments ih =>
      cases segment with
      | nil =>
          obtain ⟨first, rest, taken, same⟩ := ih whole
          refine ⟨first, rest, ?_, same⟩
          rw [List.map_cons, List.cons_append, take, if_pos List.isEmpty_nil]
          exact taken
      | cons b' segment =>
          rw [List.flatten_cons, List.cons_append, List.cons.injEq] at whole
          obtain ⟨rfl, whole⟩ := whole
          obtain ⟨room, rfl⟩ : ∃ n, room = n + 1 := ⟨room - 1, by omega⟩
          rw [List.map_cons, List.cons_append, take, if_neg (by simp)]
          by_cases all : segment.length ≤ room
          · refine ⟨segment, segments, ?_, whole⟩
            simp only [List.take_succ_cons, List.drop_succ_cons, List.take_of_length_le all,
              List.drop_of_length_le all, List.isEmpty_nil, if_true]
          · refine ⟨segment.take room, segment.drop room :: segments, ?_, ?_⟩
            · have left : (segment.drop room).isEmpty = false := by
                rw [List.isEmpty_eq_false_iff, ne_eq, List.drop_eq_nil_iff]
                exact all
              simp only [List.take_succ_cons, List.drop_succ_cons, left, Bool.false_eq_true, if_false,
                List.map_cons, List.cons_append]
            · rw [List.flatten_cons, ← List.append_assoc, List.take_append_drop]
              exact whole

theorem take_no_segments {patient : Bool} {room : Nat} (segments : List Bytes)
    (tail : List Arrival) (c : Clock) (none : segments.flatten = []) :
    take patient room (segments.map bytes ++ tail) c = take patient room tail c := by
  induction segments with
  | nil => rfl
  | cons segment segments ih =>
      rw [List.flatten_cons, List.append_eq_nil_iff] at none
      rw [List.map_cons, List.cons_append, take, none.1, if_pos List.isEmpty_nil]
      exact ih none.2

theorem take_severed (patient : Bool) (room : Nat) {tail : List Arrival} (severed : Severed tail)
    (c : Clock) :
    take patient room tail c = (.ok [], [], c) ∨
      ∃ fault rest, take patient room tail c = (.error fault, rest, c) ∧
        fault.kind.isTeardown = true := by
  rcases severed with rfl | ⟨fault, rest, rfl, gone⟩
  · exact .inl rfl
  · refine .inr ⟨fault, rest, ?_, gone⟩
    rw [take, IoKind.isTransient_of_isTeardown gone, Bool.and_false, if_neg Bool.false_ne_true]

end Arrival

theorem WireError.ofRead_teardown {fault : IoFault} (gone : fault.kind.isTeardown = true) :
    WireError.ofRead fault = .incomplete := if_pos gone

namespace Reader

variable {r : Reader} {b : UInt8} {x y : Bytes} {tail : List Arrival}

/-- What a reader holds in front of a script is determined. -/
theorem Holds.unique (one : r.Holds x tail) (other : r.Holds y tail) : x = y := by
  obtain ⟨_, segments, arrivals, rfl⟩ := one
  obtain ⟨_, segments', arrivals', rfl⟩ := other
  have same := List.append_cancel_right (arrivals.symm.trans arrivals')
  have injective : Function.Injective Arrival.bytes := fun _ _ same => Arrival.bytes.inj same
  rw [injective.list_map same]

theorem holds_segments {capacity : Nat} (room : 0 < capacity) (segments : List Bytes)
    (tail : List Arrival) :
    ({ arrivals := segments.map .bytes ++ tail, capacity } : Reader).Holds segments.flatten tail :=
  ⟨room, segments, rfl, List.nil_append _⟩

theorem holds_segment {capacity : Nat} (room : 0 < capacity) (segment : Bytes)
    (tail : List Arrival) :
    ({ arrivals := .bytes segment :: tail, capacity } : Reader).Holds segment tail := by
  have segments := holds_segments room [segment] tail
  rwa [List.flatten_singleton] at segments

theorem next_holds (holds : r.Holds (b :: x) tail) {room : Nat} (pos : 0 < room) (c : Clock) :
    ∃ r', r.next room c = (.ok (some b), r', c) ∧ r'.Holds x tail ∧ r'.capacity = r.capacity := by
  obtain ⟨positive, segments, arrivals, whole⟩ := holds
  unfold next
  cases buffered : r.buffer with
  | cons b' buffer =>
      rw [buffered, List.cons_append, List.cons.injEq] at whole
      obtain ⟨rfl, whole⟩ := whole
      exact ⟨_, rfl, ⟨positive, segments, arrivals, whole⟩, rfl⟩
  | nil =>
      rw [buffered, List.nil_append] at whole
      obtain ⟨first, rest, taken, same⟩ :=
        Arrival.take_segments true pos segments tail c whole
      simp only [arrivals, taken]
      exact ⟨_, rfl, ⟨positive, rest, rfl, same⟩, rfl⟩

theorem next_severed (room : Nat) (holds : r.Holds [] tail) (severed : Arrival.Severed tail)
    (c : Clock) :
    ∃ r', r.next room c = (.ok none, r', c) ∨
      ∃ fault, r.next room c = (.error fault, r', c) ∧ fault.kind.isTeardown = true := by
  obtain ⟨_, segments, arrivals, whole⟩ := holds
  rw [List.append_eq_nil_iff] at whole
  unfold next
  simp only [whole.1, arrivals, Arrival.take_no_segments segments tail c whole.2]
  rcases Arrival.take_severed true room severed c with
    ended | ⟨fault, rest, failed, gone⟩
  · simp only [ended]
    exact ⟨_, .inl rfl⟩
  · simp only [failed]
    exact ⟨_, .inr ⟨fault, rfl, gone⟩⟩

theorem lineOnto_append {budget : Nat} {line : Bytes} (before : Bytes) (noLf : Bytes.lf ∉ line)
    (fits : line.length ≤ budget) (holds : r.Holds (line ++ y) tail) (c : Clock) :
    ∃ r', lineOnto budget before r c =
        lineOnto (budget - line.length) (line.reverse ++ before) r' c ∧
      r'.Holds y tail ∧ r'.capacity = r.capacity := by
  induction line generalizing budget before r with
  | nil => exact ⟨r, rfl, holds, rfl⟩
  | cons b line ih =>
      rw [List.length_cons] at fits
      obtain ⟨budget, rfl⟩ : ∃ n, budget = n + 1 := ⟨budget - 1, by omega⟩
      have other : b ≠ Bytes.lf := fun same => noLf (same ▸ List.mem_cons_self)
      rw [List.cons_append] at holds
      obtain ⟨r₁, read, holds₁, same₁⟩ := next_holds holds holds.room c
      obtain ⟨r', rest, holds', same'⟩ :=
        ih (b :: before) (fun member => noLf (List.mem_cons_of_mem b member))
          (Nat.le_of_succ_le_succ fits) holds₁
      refine ⟨r', ?_, holds', same'.trans same₁⟩
      rw [lineOnto]
      simp only [read, if_neg other, rest, List.length_cons, Nat.add_sub_add_right,
        List.reverse_cons, List.append_assoc, List.singleton_append]

theorem line_holds {budget : Nat} {line : Bytes} (noLf : Bytes.lf ∉ line)
    (fits : line.length < budget) (holds : r.Holds (line ++ Bytes.lf :: y) tail) (c : Clock) :
    ∃ r', r.line budget c = (.ok (line ++ [Bytes.lf]), r', c) ∧ r'.Holds y tail := by
  obtain ⟨r₁, passed, holds₁, _⟩ :=
    lineOnto_append [] noLf (Nat.le_of_lt fits) holds c
  obtain ⟨left, more⟩ : ∃ n, budget - line.length = n + 1 := ⟨budget - line.length - 1, by omega⟩
  obtain ⟨r', read, holds', _⟩ := next_holds holds₁ holds₁.room c
  refine ⟨r', ?_, holds'⟩
  rw [Reader.line, passed, more, lineOnto]
  simp only [read, if_true, List.append_nil, List.reverse_cons, List.reverse_reverse]

/-- A line that is severed is handed out without a line feed, or not at all. -/
theorem line_severed {budget : Nat} {line : Bytes} (noLf : Bytes.lf ∉ line)
    (fits : line.length < budget) (holds : r.Holds line tail) (severed : Arrival.Severed tail)
    (c : Clock) :
    ∃ r', r.line budget c = (.ok line, r', c) ∨
      ∃ fault, r.line budget c = (.error fault, r', c) ∧ fault.kind.isTeardown = true := by
  rw [← List.append_nil line] at holds
  obtain ⟨r₁, passed, holds₁, _⟩ :=
    lineOnto_append [] noLf (Nat.le_of_lt fits) holds c
  obtain ⟨left, more⟩ : ∃ n, budget - line.length = n + 1 := ⟨budget - line.length - 1, by omega⟩
  obtain ⟨r', ended | ⟨fault, failed, gone⟩⟩ := next_severed r₁.capacity holds₁ severed c
  · refine ⟨r', .inl ?_⟩
    rw [Reader.line, passed, more, lineOnto]
    simp only [ended, List.append_nil, List.reverse_reverse]
  · refine ⟨r', .inr ⟨fault, ?_, gone⟩⟩
    rw [Reader.line, passed, more, lineOnto]
    simp only [failed]

theorem exactlyOnto_holds (before : Bytes) {b : Bytes} (holds : r.Holds (b ++ y) tail) (c : Clock) :
    ∃ r', exactlyOnto b.length before r c = (.ok (some (before.reverse ++ b)), r', c) ∧
      r'.Holds y tail := by
  induction b generalizing before r with
  | nil =>
      refine ⟨r, ?_, holds⟩
      rw [List.length_nil, exactlyOnto, List.append_nil]
  | cons b bs ih =>
      rw [List.cons_append] at holds
      obtain ⟨r₁, read, holds₁, _⟩ :=
        next_holds holds (show 0 < max (bs.length + 1) r.capacity by omega) c
      obtain ⟨r', rest, holds'⟩ := ih (b :: before) holds₁
      refine ⟨r', ?_, holds'⟩
      rw [List.length_cons, exactlyOnto]
      simp only [read, rest, List.reverse_cons, List.append_assoc, List.singleton_append]

theorem exactly_holds {b : Bytes} (holds : r.Holds (b ++ y) tail) (c : Clock) :
    ∃ r', r.exactly b.length c = (.ok (some b), r', c) ∧ r'.Holds y tail :=
  exactlyOnto_holds [] holds c

/-- More bytes than come before a connection is severed are not handed out in part. -/
theorem exactlyOnto_severed {count : Nat} (before : Bytes) (holds : r.Holds x tail)
    (severed : Arrival.Severed tail) (more : x.length < count) (c : Clock) :
    ∃ r', exactlyOnto count before r c = (.ok none, r', c) ∨
      ∃ fault, exactlyOnto count before r c = (.error fault, r', c) ∧
        fault.kind.isTeardown = true := by
  induction x generalizing count before r with
  | nil =>
      obtain ⟨count, rfl⟩ : ∃ n, count = n + 1 := ⟨count - 1, by rw [List.length_nil] at more; omega⟩
      obtain ⟨r', ended | ⟨fault, failed, gone⟩⟩ :=
        next_severed (max (count + 1) r.capacity) holds severed c
      · refine ⟨r', .inl ?_⟩
        rw [exactlyOnto]
        simp only [ended]
      · refine ⟨r', .inr ⟨fault, ?_, gone⟩⟩
        rw [exactlyOnto]
        simp only [failed]
  | cons b x ih =>
      rw [List.length_cons] at more
      obtain ⟨count, rfl⟩ : ∃ n, count = n + 1 := ⟨count - 1, by omega⟩
      obtain ⟨r₁, read, holds₁, _⟩ :=
        next_holds holds (show 0 < max (count + 1) r.capacity by omega) c
      obtain ⟨r', rest⟩ := ih (b :: before) holds₁ (Nat.lt_of_succ_lt_succ more)
      refine ⟨r', ?_⟩
      rw [exactlyOnto]
      simp only [read]
      exact rest

theorem exactly_severed {count : Nat} (holds : r.Holds x tail) (severed : Arrival.Severed tail)
    (more : x.length < count) (c : Clock) :
    ∃ r', r.exactly count c = (.ok none, r', c) ∨
      ∃ fault, r.exactly count c = (.error fault, r', c) ∧ fault.kind.isTeardown = true :=
  exactlyOnto_severed [] holds severed more c

end Reader

end HttpExchange
