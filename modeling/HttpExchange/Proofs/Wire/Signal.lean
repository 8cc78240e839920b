import HttpExchange.Proofs.Wire.Supply
import HttpExchange.Proofs.Wire.Taking

/-!
What arrives, one thing after another: bytes, failures, and waits in between. Reading passes them in
order. Waits and failures that pass leave no trace; a read ends with what was asked for, at the end
of the script, or with a failure, and then the failure is what came next.
-/

namespace HttpExchange

inductive Signal where
  | byte (b : UInt8)
  | fault (e : IoFault)
  | wait

namespace Signal

def byte? : Signal → Option UInt8
  | byte b => some b
  | fault _ | wait => none

/-- These signals bring these bytes, and nothing that a patient reader notices. -/
structure Passed (p : List Signal) (b : Bytes) : Prop where
  bytes : p.filterMap byte? = b
  transient : ∀ e, fault e ∈ p → e.kind.isTransient = true

variable {p q : List Signal} {a b : Bytes} {e : IoFault}

theorem Passed.nil : Passed [] [] := ⟨rfl, nofun⟩

theorem Passed.append (first : Passed p a) (second : Passed q b) : Passed (p ++ q) (a ++ b) := by
  refine ⟨by rw [List.filterMap_append, first.bytes, second.bytes], fun e member => ?_⟩
  exact (List.mem_append.mp member).elim (first.transient e) (second.transient e)

theorem passed_bytes (b : Bytes) : Passed (b.map byte) b := by
  refine ⟨?_, fun e member => ?_⟩
  · rw [List.filterMap_map]
    exact List.filterMap_some
  · obtain ⟨_, _, same⟩ := List.mem_map.mp member
    cases same

theorem Passed.wait (passed : Passed p b) : Passed (wait :: p) b :=
  ⟨passed.bytes, fun e member => (List.mem_cons.mp member).elim nofun (passed.transient e)⟩

theorem Passed.fault (passed : Passed p b) (passes : e.kind.isTransient = true) :
    Passed (fault e :: p) b := by
  refine ⟨passed.bytes, fun e' member => ?_⟩
  rcases List.mem_cons.mp member with same | inside
  · cases same
    exact passes
  · exact passed.transient e' inside

end Signal

open Signal (Passed)

namespace Arrival

def signals : List Arrival → List Signal
  | [] => []
  | .bytes b :: rest => b.map .byte ++ signals rest
  | .fault e :: rest => .fault e :: signals rest
  | .pause _ :: rest | .until _ :: rest | .silence :: rest => .wait :: signals rest

theorem filterMap_signals (arrivals : List Arrival) :
    (signals arrivals).filterMap Signal.byte? = carried arrivals := by
  induction arrivals with
  | nil => rfl
  | cons a rest ih =>
      cases a with
      | bytes b => rw [signals, carried, List.filterMap_append, (Signal.passed_bytes b).bytes, ih]
      | fault | pause | «until» | silence => exact ih

inductive Taken (patient : Bool) (room : Nat) (arrivals left : List Arrival) :
    Outcome IoFault Bytes → Prop where
  | bytes {b : Bytes} {p : List Signal} (passed : Passed p [])
      (brings : signals arrivals = p ++ (b.map .byte ++ signals left)) (some : b ≠ []) :
      Taken patient room arrivals left (.ok b)
  | spent {p : List Signal} (passed : Passed p []) (brings : signals arrivals = p ++ signals left)
      (spent : left = [] ∨ room = 0) : Taken patient room arrivals left (.ok [])
  | fails {p : List Signal} {e : IoFault} (passed : Passed p [])
      (brings : signals arrivals = p ++ .fault e :: signals left)
      (lasts : patient = true → e.kind.isTransient = false) :
      Taken patient room arrivals left (.error e)
  | stuck (waits : .wait ∈ signals arrivals) : Taken patient room arrivals left .stuck

variable {patient : Bool} {room : Nat} {arrivals rest left : List Arrival} {c c' : Clock}
  {out : Outcome IoFault Bytes}

theorem Taken.behind {p : List Signal} (taken : Taken patient room rest left out)
    (passed : Passed p []) (brings : signals arrivals = p ++ signals rest) :
    Taken patient room arrivals left out := by
  cases taken with
  | bytes later same some =>
      exact .bytes (passed.append later) (by rw [brings, same, List.append_assoc]) some
  | spent later same spent =>
      exact .spent (passed.append later) (by rw [brings, same, List.append_assoc]) spent
  | fails later same lasts =>
      exact .fails (passed.append later) (by rw [brings, same, List.append_assoc]) lasts
  | stuck waits => exact .stuck (brings ▸ List.mem_append_right p waits)

theorem take_taken (eq : take patient room arrivals c = (out, left, c')) :
    Taken patient room arrivals left out := by
  fun_induction take patient room arrivals c with
  | case1 =>
      cases eq
      exact .spent .nil rfl (.inl rfl)
  | case2 segment rest c empty ih =>
      refine (ih eq).behind .nil ?_
      rw [signals, List.isEmpty_iff.mp empty]
      rfl
  | case3 segment rest c some remaining =>
      cases eq
      have brings : signals (.bytes segment :: rest) = (segment.take room).map .byte ++
          signals (if remaining.isEmpty then rest else .bytes remaining :: rest) := by
        have whole : segment.take room ++ remaining = segment := List.take_append_drop room segment
        split
        · next none =>
            rw [List.isEmpty_iff.mp none, List.append_nil] at whole
            rw [signals, whole]
        · rw [signals, signals, ← List.append_assoc, ← List.map_append, whole]
      by_cases none : segment.take room = []
      · rw [none] at brings ⊢
        refine .spent .nil brings (.inr ?_)
        rw [List.isEmpty_iff] at some
        exact (List.take_eq_nil_iff.mp none).resolve_right some
      · exact .bytes .nil brings none
  | case4 e rest c passes ih =>
      have transient : e.kind.isTransient = true := (Bool.and_eq_true_iff.mp passes).2
      exact (ih eq).behind (Passed.nil.fault transient) rfl
  | case5 e rest c lasts =>
      cases eq
      refine .fails .nil rfl fun patient => ?_
      rwa [patient, Bool.true_and, Bool.not_eq_true] at lasts
  | case6 _ _ _ _ _ ih | case8 _ _ _ _ _ ih => exact (ih eq).behind Passed.nil.wait rfl
  | case7 | case9 | case10 =>
      cases eq
      exact .stuck List.mem_cons_self

end Arrival

namespace Reader

/-- What is still to come, the buffer first. -/
def signals (r : Reader) : List Signal := r.buffer.map .byte ++ Arrival.signals r.arrivals

def Prompt (r : Reader) : Prop := .wait ∉ r.signals

/-- Nothing more is to be had: the script is over, or the buffer has no room for any of it. -/
def Spent (r : Reader) : Prop := r.buffer = [] ∧ (r.arrivals = [] ∨ r.capacity = 0)

/-- Reading has passed these bytes. -/
structure Passes (r : Reader) (b : Bytes) (r' : Reader) : Prop where
  brings : ∃ p, r.signals = p ++ r'.signals ∧ Passed p b
  capacity : r'.capacity = r.capacity

/-- Reading has passed these bytes and met a failure. -/
def Fails (r : Reader) (b : Bytes) (e : IoFault) (r' : Reader) : Prop :=
  ∃ p, r.signals = p ++ .fault e :: r'.signals ∧ Passed p b

variable {r r₁ r' : Reader} {a b : Bytes} {e e' : IoFault} {c c' : Clock}

theorem filterMap_signals (r : Reader) : r.signals.filterMap Signal.byte? = r.ahead := by
  rw [signals, List.filterMap_append, (Signal.passed_bytes r.buffer).bytes,
    Arrival.filterMap_signals, ahead]

namespace Holds

variable {x : Bytes} {tail : List Arrival}

theorem signals (holds : r.Holds x tail) :
    r.signals = x.map .byte ++ Arrival.signals tail := by
  obtain ⟨_, segments, arrivals, rfl⟩ := holds
  have flat : Arrival.signals (segments.map Arrival.bytes ++ tail) =
      segments.flatten.map .byte ++ Arrival.signals tail := by
    clear arrivals
    induction segments with
    | nil => rfl
    | cons segment segments ih =>
        rw [List.map_cons, List.cons_append, Arrival.signals, ih, List.flatten_cons,
          List.map_append, List.append_assoc]
  rw [Reader.signals, arrivals, flat, List.map_append, List.append_assoc]

theorem ahead (holds : r.Holds x tail) : r.ahead = x ++ Arrival.carried tail := by
  rw [← filterMap_signals, holds.signals, List.filterMap_append, (Signal.passed_bytes x).bytes,
    Arrival.filterMap_signals]

end Holds

namespace Passes

theorem refl (r : Reader) : r.Passes [] r := ⟨⟨[], rfl, .nil⟩, rfl⟩

theorem trans (first : r.Passes a r₁) (second : r₁.Passes b r') : r.Passes (a ++ b) r' := by
  obtain ⟨⟨p, brings, passed⟩, same⟩ := first
  obtain ⟨⟨q, brings', passed'⟩, same'⟩ := second
  refine ⟨⟨p ++ q, ?_, passed.append passed'⟩, same'.trans same⟩
  rw [brings, brings', List.append_assoc]

theorem fails (first : r.Passes a r₁) (second : r₁.Fails b e r') : r.Fails (a ++ b) e r' := by
  obtain ⟨⟨p, brings, passed⟩, _⟩ := first
  obtain ⟨q, brings', passed'⟩ := second
  refine ⟨p ++ q, ?_, passed.append passed'⟩
  rw [brings, brings', List.append_assoc]

theorem takes (passes : r.Passes b r') : r.Takes b r' := by
  obtain ⟨⟨p, brings, passed⟩, _⟩ := passes
  rw [Takes, ← filterMap_signals, brings, List.filterMap_append, passed.bytes, filterMap_signals]

theorem wait_mem (passes : r.Passes b r') (waits : .wait ∈ r'.signals) : .wait ∈ r.signals := by
  obtain ⟨⟨p, brings, _⟩, _⟩ := passes
  exact brings ▸ List.mem_append_right p waits

theorem prompt (passes : r.Passes b r') (prompt : r.Prompt) : r'.Prompt :=
  fun waits => prompt (passes.wait_mem waits)

/-- Between two places there are the same bytes whenever they are read. -/
theorem unique (one : r.Passes a r') (other : r.Passes b r') : a = b := by
  obtain ⟨⟨p, brings, passed⟩, _⟩ := one
  obtain ⟨⟨q, brings', passed'⟩, _⟩ := other
  have same := List.append_cancel_right (brings.symm.trans brings')
  rw [← passed.bytes, ← passed'.bytes, same]

/-- A reader that got past a place met no failure there, except one that passes. -/
theorem transient_of_fails (passes : r.Passes a r') (fails : r.Fails b e r') :
    e.kind.isTransient = true := by
  obtain ⟨⟨p, brings, passed⟩, _⟩ := passes
  obtain ⟨q, brings', _⟩ := fails
  have same : p = q ++ [.fault e] := by
    have joined : p ++ r'.signals = (q ++ [.fault e]) ++ r'.signals := by
      rw [← brings, brings', List.append_assoc]
      rfl
    exact List.append_cancel_right joined
  exact passed.transient e (same ▸ List.mem_append_right q List.mem_cons_self)

end Passes

theorem Fails.takes (fails : r.Fails b e r') : r.Takes b r' := by
  obtain ⟨p, brings, passed⟩ := fails
  rw [Takes, ← filterMap_signals, brings, List.filterMap_append, passed.bytes, ← filterMap_signals]
  rfl

/-- The failure that was met in a place is the one that stands there. -/
theorem Fails.unique (one : r.Fails a e r') (other : r.Fails b e' r') : e = e' := by
  obtain ⟨p, brings, _⟩ := one
  obtain ⟨q, brings', _⟩ := other
  have same : p ++ [.fault e] = q ++ [.fault e'] := by
    have joined : (p ++ [.fault e]) ++ r'.signals = (q ++ [.fault e']) ++ r'.signals := by
      rw [List.append_assoc, List.append_assoc]
      exact brings.symm.trans brings'
    exact List.append_cancel_right joined
  exact Signal.fault.inj (List.singleton_inj.mp (List.append_inj' same rfl).2)

theorem passes_filled {p : List Signal} {left : List Arrival} {buffer : Bytes}
    (none : r.buffer = []) (passed : Passed p [])
    (brings : Arrival.signals r.arrivals = p ++ ((b ++ buffer).map .byte ++ Arrival.signals left)) :
    r.Passes b { r with arrivals := left, buffer } := by
  refine ⟨⟨p ++ b.map .byte, ?_, passed.append (Signal.passed_bytes b)⟩, rfl⟩
  rw [signals, none, brings, List.map_append]
  simp only [signals, List.map_nil, List.nil_append, List.append_assoc]

theorem passes_unfilled {p : List Signal} {left : List Arrival} (none : r.buffer = [])
    (passed : Passed p []) (brings : Arrival.signals r.arrivals = p ++ Arrival.signals left) :
    r.Passes [] { r with arrivals := left } :=
  ⟨⟨p, by simp only [signals, none, brings, List.map_nil, List.nil_append], passed⟩, rfl⟩

theorem fails_filled {p : List Signal} {left : List Arrival} (none : r.buffer = [])
    (passed : Passed p [])
    (brings : Arrival.signals r.arrivals = p ++ .fault e :: Arrival.signals left) :
    r.Fails [] e { r with arrivals := left } :=
  ⟨p, by simp only [signals, none, brings, List.map_nil, List.nil_append], passed⟩

theorem wait_filled (none : r.buffer = []) (waits : .wait ∈ Arrival.signals r.arrivals) :
    .wait ∈ r.signals := by
  rw [signals, none]
  exact waits

inductive ReadsByte (room : Nat) (r r' : Reader) : Outcome IoFault (Option UInt8) → Prop where
  | byte {x : UInt8} (passes : r.Passes [x] r') : ReadsByte room r r' (.ok (some x))
  | spent (passes : r.Passes [] r') (emptied : r'.buffer = [])
      (spent : r'.arrivals = [] ∨ room = 0) : ReadsByte room r r' (.ok none)
  | fails {e : IoFault} (fails : r.Fails [] e r') (lasts : e.kind.isTransient = false) :
      ReadsByte room r r' (.error e)
  | stuck (waits : .wait ∈ r.signals) : ReadsByte room r r' .stuck

theorem next_reads {room : Nat} {out : Outcome IoFault (Option UInt8)}
    (eq : r.next room c = (out, r', c')) : ReadsByte room r r' out := by
  unfold next at eq
  split at eq
  · next x buffer buffered =>
      cases eq
      refine .byte ⟨⟨[.byte x], ?_, Signal.passed_bytes [x]⟩, rfl⟩
      simp only [signals, buffered, List.map_cons, List.cons_append, List.nil_append]
  · next none =>
      split at eq
      · next x first arrivals c₁ took =>
          cases eq
          cases Arrival.take_taken took with
          | bytes passed brings => exact .byte (passes_filled none passed brings)
      · next arrivals c₁ took =>
          cases eq
          cases Arrival.take_taken took with
          | bytes _ _ some => exact absurd rfl some
          | spent passed brings spent =>
              exact .spent (passes_unfilled none passed brings) none spent
      · next e arrivals c₁ took =>
          cases eq
          cases Arrival.take_taken took with
          | fails passed brings lasts => exact .fails (fails_filled none passed brings) (lasts rfl)
      · next arrivals c₁ took =>
          cases eq
          cases Arrival.take_taken took with
          | stuck waits => exact .stuck (wait_filled none waits)

inductive ReadsLine (budget : Nat) (r r' : Reader) : Outcome IoFault Bytes → Prop where
  | whole (front : Bytes) (passes : r.Passes (front ++ [Bytes.lf]) r') (noLf : Bytes.lf ∉ front)
      (fits : front.length < budget) : ReadsLine budget r r' (.ok (front ++ [Bytes.lf]))
  | full {run : Bytes} (passes : r.Passes run r') (noLf : Bytes.lf ∉ run)
      (long : run.length = budget) : ReadsLine budget r r' (.ok run)
  | spent {begun : Bytes} (passes : r.Passes begun r') (noLf : Bytes.lf ∉ begun)
      (short : begun.length < budget) (spent : r'.Spent) : ReadsLine budget r r' (.ok begun)
  | fails {begun : Bytes} {e : IoFault} (fails : r.Fails begun e r')
      (lasts : e.kind.isTransient = false) : ReadsLine budget r r' (.error e)
  | stuck (waits : .wait ∈ r.signals) : ReadsLine budget r r' .stuck

theorem ReadsLine.cons {budget : Nat} {x : UInt8} {out : Outcome IoFault Bytes}
    (passes : r.Passes [x] r₁) (other : x ≠ Bytes.lf) (line : ReadsLine budget r₁ r' out) :
    ReadsLine (budget + 1) r r' (out.map (x :: ·)) := by
  cases line with
  | whole front more noLf fits =>
      exact .whole (x :: front) (passes.trans more)
        (List.not_mem_cons_of_ne_of_not_mem other.symm noLf) (Nat.succ_lt_succ fits)
  | full more noLf long =>
      exact .full (passes.trans more) (List.not_mem_cons_of_ne_of_not_mem other.symm noLf)
        (congrArg (· + 1) long)
  | spent more noLf short spent =>
      exact .spent (passes.trans more) (List.not_mem_cons_of_ne_of_not_mem other.symm noLf)
        (Nat.succ_lt_succ short) spent
  | fails fails lasts => exact .fails (passes.fails fails) lasts
  | stuck waits => exact .stuck (passes.wait_mem waits)

theorem lineOnto_reads {budget : Nat} {before : Bytes} {out : Outcome IoFault Bytes}
    (eq : lineOnto budget before r c = (out, r', c')) :
    ∃ own, out = own.map (before.reverse ++ ·) ∧ ReadsLine budget r r' own := by
  fun_induction lineOnto budget before r c with
  | case1 before r c =>
      cases eq
      exact ⟨.ok [], by rw [Outcome.map, List.append_nil], .full (.refl _) List.not_mem_nil rfl⟩
  | case2 budget before r c r₁ c₁ read =>
      cases eq
      cases next_reads read with
      | byte passes =>
          refine ⟨.ok [Bytes.lf], by rw [Outcome.map, List.reverse_cons], ?_⟩
          exact .whole [] passes List.not_mem_nil (Nat.succ_pos budget)
  | case3 budget before r c x r₁ c₁ read other ih =>
      cases next_reads read with
      | byte passes =>
          obtain ⟨own, rfl, line⟩ := ih eq
          refine ⟨own.map (x :: ·), ?_, line.cons passes other⟩
          cases own with
          | ok more =>
              simp only [Outcome.map, List.reverse_cons, List.append_assoc, List.singleton_append]
          | error | stuck => rfl
  | case4 budget before r c r₁ c₁ read =>
      cases eq
      cases next_reads read with
      | spent passes emptied spent =>
          refine ⟨.ok [], by rw [Outcome.map, List.append_nil], ?_⟩
          exact .spent passes List.not_mem_nil (Nat.succ_pos budget)
            ⟨emptied, spent.imp_right passes.capacity.trans⟩
  | case5 budget before r c e r₁ c₁ read =>
      cases eq
      cases next_reads read with
      | fails fails lasts => exact ⟨.error e, rfl, .fails fails lasts⟩
  | case6 budget before r c r₁ c₁ read =>
      cases eq
      cases next_reads read with
      | stuck waits => exact ⟨.stuck, rfl, .stuck waits⟩

theorem line_reads {budget : Nat} {out : Outcome IoFault Bytes}
    (eq : r.line budget c = (out, r', c')) : ReadsLine budget r r' out := by
  obtain ⟨own, rfl, line⟩ := lineOnto_reads eq
  cases own <;> exact line

inductive ReadsCount (count : Nat) (r r' : Reader) : Outcome IoFault (Option Bytes) → Prop where
  | whole {b : Bytes} (passes : r.Passes b r') (size : b.length = count) :
      ReadsCount count r r' (.ok (some b))
  | spent {begun : Bytes} (passes : r.Passes begun r') (short : begun.length < count)
      (spent : r'.Spent) : ReadsCount count r r' (.ok none)
  | fails {begun : Bytes} {e : IoFault} (fails : r.Fails begun e r')
      (lasts : e.kind.isTransient = false) : ReadsCount count r r' (.error e)
  | stuck (waits : .wait ∈ r.signals) : ReadsCount count r r' .stuck

theorem ReadsCount.cons {count : Nat} {x : UInt8} {out : Outcome IoFault (Option Bytes)}
    (passes : r.Passes [x] r₁) (rest : ReadsCount count r₁ r' out) :
    ReadsCount (count + 1) r r' (out.map (Option.map (x :: ·))) := by
  cases rest with
  | whole more size => exact .whole (passes.trans more) (congrArg (· + 1) size)
  | spent more short spent => exact .spent (passes.trans more) (Nat.succ_lt_succ short) spent
  | fails fails lasts => exact .fails (passes.fails fails) lasts
  | stuck waits => exact .stuck (passes.wait_mem waits)

theorem exactlyOnto_reads {count : Nat} {before : Bytes} {out : Outcome IoFault (Option Bytes)}
    (eq : exactlyOnto count before r c = (out, r', c')) :
    ∃ own, out = own.map (Option.map (before.reverse ++ ·)) ∧ ReadsCount count r r' own := by
  fun_induction exactlyOnto count before r c with
  | case1 before r c =>
      cases eq
      refine ⟨.ok (some []), ?_, .whole (.refl _) rfl⟩
      rw [Outcome.map, Option.map_some, List.append_nil]
  | case2 count before r c x r₁ c₁ read ih =>
      cases next_reads read with
      | byte passes =>
          obtain ⟨own, rfl, rest⟩ := ih eq
          refine ⟨own.map (Option.map (x :: ·)), ?_, rest.cons passes⟩
          rcases own with (_ | more) | e | _
          · rfl
          · simp only [Outcome.map, Option.map_some, List.reverse_cons, List.append_assoc,
              List.singleton_append]
          · rfl
          · rfl
  | case3 count before r c r₁ c₁ read =>
      cases eq
      cases next_reads read with
      | spent passes emptied spent =>
          refine ⟨.ok none, rfl, .spent passes (Nat.succ_pos count) ⟨emptied, .inl ?_⟩⟩
          exact spent.resolve_right (by omega)
  | case4 count before r c e r₁ c₁ read =>
      cases eq
      cases next_reads read with
      | fails fails lasts => exact ⟨.error e, rfl, .fails fails lasts⟩
  | case5 count before r c r₁ c₁ read =>
      cases eq
      cases next_reads read with
      | stuck waits => exact ⟨.stuck, rfl, .stuck waits⟩

theorem exactly_reads {count : Nat} {out : Outcome IoFault (Option Bytes)}
    (eq : r.exactly count c = (out, r', c')) : ReadsCount count r r' out := by
  obtain ⟨own, rfl, rest⟩ := exactlyOnto_reads eq
  rcases own with (_ | b) | e | _ <;> exact rest

/-- What taking whatever there is comes to. Failures that pass are told like any other. -/
inductive ReadsSome (most : Nat) (r r' : Reader) : Outcome IoFault Bytes → Prop where
  | bytes {b : Bytes} (passes : r.Passes b r') (some : b ≠ []) (fits : b.length ≤ most) :
      ReadsSome most r r' (.ok b)
  | spent (passes : r.Passes [] r') (spent : r'.Spent) : ReadsSome most r r' (.ok [])
  | fails {e : IoFault} (fails : r.Fails [] e r') : ReadsSome most r r' (.error e)
  | stuck (waits : .wait ∈ r.signals) : ReadsSome most r r' .stuck

theorem available_reads {most : Nat} {out : Outcome IoFault Bytes} (pos : 0 < most)
    (eq : r.available most c = (out, r', c')) : ReadsSome most r r' out := by
  have filled (b : Bytes) (some : b ≠ []) : b.take most ≠ [] := by
    rw [ne_eq, List.take_eq_nil_iff]
    rintro (none | none)
    · omega
    · exact some none
  unfold available at eq
  split at eq
  · next x rest buffered =>
      cases eq
      have some : r.buffer ≠ [] := buffered ▸ List.cons_ne_nil x rest
      refine .bytes ⟨⟨(r.buffer.take most).map .byte, ?_, Signal.passed_bytes _⟩, rfl⟩
        (filled _ some) (List.length_take_le _ _)
      simp only [signals]
      rw [← List.append_assoc, ← List.map_append, List.take_append_drop]
  · next none =>
      split at eq
      · next b arrivals c₁ took =>
          cases eq
          cases Arrival.take_taken took with
          | bytes passed brings some =>
              rw [← List.take_append_drop most b] at brings
              exact .bytes (passes_filled none passed brings) (filled b some)
                (List.length_take_le _ _)
          | spent passed brings spent =>
              rw [List.take_nil, List.drop_nil]
              exact .spent (passes_filled none passed brings) ⟨rfl, spent⟩
      · next e arrivals c₁ took =>
          cases eq
          cases Arrival.take_taken took with
          | fails passed brings => exact .fails (fails_filled none passed brings)
      · next arrivals c₁ took =>
          cases eq
          cases Arrival.take_taken took with
          | stuck waits => exact .stuck (wait_filled none waits)

end Reader

end HttpExchange
