import HttpExchange.Proofs.Wire.Line
import HttpExchange.Wire.Head

/-!
What reading takes off the input. Nothing is assumed of what arrives: between the bytes there may be
pauses, failures and silence. Every read takes bytes off the front, in order, and a read that gets
stuck takes none.
-/

namespace HttpExchange

/-- The bytes of a script, whatever happens between them. -/
def Arrival.carried : List Arrival → Bytes
  | [] => []
  | .bytes b :: rest => b ++ carried rest
  | .fault _ :: rest | .pause _ :: rest | .until _ :: rest | .silence :: rest => carried rest

namespace Arrival

variable {patient : Bool} {room : Nat} {arrivals left : List Arrival} {c c' : Clock}
  {out : Outcome IoFault Bytes}

theorem carried_take (eq : take patient room arrivals c = (out, left, c')) :
    ∃ b, carried arrivals = b ++ carried left ∧ (∀ taken, out = .ok taken → b = taken) ∧
      ((∀ taken, out ≠ .ok taken) → b = []) := by
  fun_induction take patient room arrivals c with
  | case1 =>
      cases eq
      exact ⟨[], rfl, by simp⟩
  | case2 segment rest c empty ih =>
      rw [carried, List.isEmpty_iff.mp empty]
      exact ih eq
  | case3 segment rest c some remaining =>
      cases eq
      refine ⟨segment.take room, ?_, by simp⟩
      have whole : segment.take room ++ remaining = segment := List.take_append_drop room segment
      split
      · next none =>
          rw [List.isEmpty_iff.mp none, List.append_nil] at whole
          rw [carried, whole]
      · rw [carried, carried, ← List.append_assoc, whole]
  | case4 _ _ _ _ ih | case6 _ _ _ _ _ ih | case8 _ _ _ _ _ ih => exact ih eq
  | case5 | case7 | case9 | case10 =>
      cases eq
      exact ⟨[], rfl, by simp⟩

end Arrival

namespace Reader

def ahead (r : Reader) : Bytes := r.buffer ++ Arrival.carried r.arrivals

/-- From one reader to the other, these bytes were taken off the input. -/
def Takes (r : Reader) (b : Bytes) (r' : Reader) : Prop := r.ahead = b ++ r'.ahead

variable {r r₁ r' : Reader} {a b before : Bytes} {c c' : Clock}

theorem Takes.refl (r : Reader) : r.Takes [] r := rfl

theorem Takes.trans (first : r.Takes a r₁) (second : r₁.Takes b r') : r.Takes (a ++ b) r' := by
  rw [Takes, first, second, List.append_assoc]

theorem ahead_putBack (r : Reader) (before : Bytes) :
    (r.putBack before).ahead = before.reverse ++ r.ahead := by
  rw [ahead, putBack, List.reverseAux_eq, List.append_assoc, ahead]

theorem ahead_putBack_cons {x : UInt8} (taken : r.Takes [x] r₁) (before : Bytes) :
    (r₁.putBack (x :: before)).ahead = (r.putBack before).ahead := by
  rw [ahead_putBack, ahead_putBack, taken, List.reverse_cons, List.append_assoc]

theorem Takes.kept (taken : r.Takes [] r') (before : Bytes) :
    (r.putBack before).Takes before.reverse r' := by
  rw [Takes, ahead_putBack, taken, List.nil_append]

theorem Takes.returned (taken : r.Takes [] r') (before : Bytes) :
    (r.putBack before).Takes [] (r'.putBack before) := by
  rw [Takes, ahead_putBack, ahead_putBack, taken, List.nil_append, List.nil_append]

theorem takes_filled {left : List Arrival} {buffer : Bytes} (none : r.buffer = [])
    (front : Arrival.carried r.arrivals = (a ++ buffer) ++ Arrival.carried left) :
    r.Takes a { r with arrivals := left, buffer } := by
  rw [Takes, ahead, none, List.nil_append, front, List.append_assoc, ahead]

theorem takes_unfilled {left : List Arrival} (none : r.buffer = [])
    (front : Arrival.carried r.arrivals = [] ++ Arrival.carried left) :
    r.Takes [] { r with arrivals := left } := by
  simp only [Takes, ahead, none, front, List.nil_append]

theorem next_takes {room : Nat} {out : Outcome IoFault (Option UInt8)}
    (eq : r.next room c = (out, r', c')) :
    ∃ b, r.Takes b r' ∧ (∀ x, out = .ok (some x) → b = [x]) ∧
      ((∀ x, out ≠ .ok (some x)) → b = []) := by
  unfold next at eq
  split at eq
  · next x buffer buffered =>
      cases eq
      refine ⟨[x], ?_, by simp⟩
      simp only [Takes, ahead, buffered, List.cons_append, List.nil_append]
  · next none =>
      split at eq
      · next x first arrivals c₁ taken =>
          cases eq
          obtain ⟨b, front, same, _⟩ := Arrival.carried_take taken
          cases same _ rfl
          exact ⟨[x], takes_filled none front, by simp⟩
      · next arrivals c₁ taken =>
          cases eq
          obtain ⟨b, front, same, _⟩ := Arrival.carried_take taken
          cases same _ rfl
          exact ⟨[], takes_unfilled none front, by simp⟩
      all_goals
        next taken =>
          cases eq
          obtain ⟨b, front, _, nothing⟩ := Arrival.carried_take taken
          cases nothing (by simp)
          exact ⟨[], takes_unfilled none front, by simp⟩

/-- What a line is read off, with what was read of it before, goes into the line; a read that gets
stuck leaves everything ahead. -/
theorem lineOnto_takes {budget : Nat} {out : Outcome IoFault Bytes}
    (eq : lineOnto budget before r c = (out, r', c')) :
    ∃ b, (r.putBack before).Takes b r' ∧ (∀ line, out = .ok line → line = b) ∧
      (out = .stuck → b = []) := by
  fun_induction lineOnto budget before r c with
  | case1 before r c =>
      cases eq
      exact ⟨before.reverse, (Takes.refl _).kept before, by simp⟩
  | case2 budget before r c r₁ c₁ read =>
      cases eq
      obtain ⟨b, taken, same, _⟩ := next_takes read
      cases same _ rfl
      refine ⟨(Bytes.lf :: before).reverse, ?_, by simp⟩
      rw [Takes, ← ahead_putBack_cons taken, ahead_putBack]
  | case3 budget before r c x r₁ c₁ read _ ih =>
      obtain ⟨b, taken, same, _⟩ := next_takes read
      cases same _ rfl
      obtain ⟨rest, takes, whole, nothing⟩ := ih eq
      rw [Takes, ahead_putBack_cons taken] at takes
      exact ⟨rest, takes, whole, nothing⟩
  | case4 budget before r c r₁ c₁ read | case5 budget before r c e r₁ c₁ read =>
      cases eq
      obtain ⟨b, taken, _, nothing⟩ := next_takes read
      cases nothing (by simp)
      exact ⟨before.reverse, taken.kept before, by simp⟩
  | case6 budget before r c r₁ c₁ read =>
      cases eq
      obtain ⟨b, taken, _, nothing⟩ := next_takes read
      cases nothing (by simp)
      exact ⟨[], taken.returned before, by simp⟩

/-- A line that is handed out ends with its first line feed, or has none. -/
theorem lineOnto_line {budget : Nat} {line : Bytes} (noLf : Bytes.lf ∉ before)
    (eq : lineOnto budget before r c = (.ok line, r', c')) :
    line.length ≤ before.length + budget ∧
      (Bytes.lf ∉ line ∨ ∃ front, line = front ++ [Bytes.lf] ∧ Bytes.lf ∉ front) := by
  fun_induction lineOnto budget before r c with
  | case1 before r c =>
      cases eq
      exact ⟨by simp, .inl (by simpa using noLf)⟩
  | case2 budget before r c r₁ c₁ read =>
      cases eq
      refine ⟨by simp, .inr ⟨before.reverse, List.reverse_cons, by simpa using noLf⟩⟩
  | case3 budget before r c x r₁ c₁ read other ih =>
      have noLf' : Bytes.lf ∉ x :: before := by
        intro member
        rcases List.mem_cons.mp member with here | inside
        · exact other here.symm
        · exact noLf inside
      obtain ⟨short, ends⟩ := ih noLf' eq
      refine ⟨?_, ends⟩
      rw [List.length_cons] at short
      omega
  | case4 budget before r c r₁ c₁ read =>
      cases eq
      exact ⟨by simp, .inl (by simpa using noLf)⟩
  | case5 | case6 => cases eq

theorem exactlyOnto_takes {count : Nat} {out : Outcome IoFault (Option Bytes)}
    (eq : exactlyOnto count before r c = (out, r', c')) :
    ∃ b, (r.putBack before).Takes b r' ∧
      (∀ got, out = .ok (some got) → got = b ∧ b.length = before.length + count) ∧
      (out = .stuck → b = []) := by
  fun_induction exactlyOnto count before r c with
  | case1 before r c =>
      cases eq
      exact ⟨before.reverse, (Takes.refl _).kept before, by simp⟩
  | case2 count before r c x r₁ c₁ read ih =>
      obtain ⟨b, taken, same, _⟩ := next_takes read
      cases same _ rfl
      obtain ⟨rest, takes, whole, nothing⟩ := ih eq
      rw [Takes, ahead_putBack_cons taken] at takes
      refine ⟨rest, takes, fun got same => ?_, nothing⟩
      obtain ⟨rfl, size⟩ := whole got same
      rw [List.length_cons] at size
      exact ⟨rfl, by omega⟩
  | case3 count before r c r₁ c₁ read | case4 count before r c e r₁ c₁ read =>
      cases eq
      obtain ⟨b, taken, _, nothing⟩ := next_takes read
      cases nothing (by simp)
      exact ⟨before.reverse, taken.kept before, by simp⟩
  | case5 count before r c r₁ c₁ read =>
      cases eq
      obtain ⟨b, taken, _, nothing⟩ := next_takes read
      cases nothing (by simp)
      exact ⟨[], taken.returned before, by simp⟩

/-- Whatever there is, is taken off the input, and nothing if that fails. -/
theorem available_takes {most : Nat} {out : Outcome IoFault Bytes}
    (eq : r.available most c = (out, r', c')) :
    ∃ b, r.Takes b r' ∧ ∀ got, out = .ok got → got = b := by
  unfold available at eq
  split at eq
  · cases eq
    refine ⟨r.buffer.take most, ?_, by simp⟩
    simp only [Takes, ahead]
    rw [← List.append_assoc, List.take_append_drop]
  · next none =>
      split at eq
      · next got arrivals c₁ taken =>
          cases eq
          obtain ⟨b, front, same, _⟩ := Arrival.carried_take taken
          cases same _ rfl
          rw [← List.take_append_drop most got] at front
          exact ⟨got.take most, takes_filled none front, by simp⟩
      all_goals
        next taken =>
          cases eq
          obtain ⟨b, front, _, nothing⟩ := Arrival.carried_take taken
          cases nothing (by simp)
          exact ⟨[], takes_unfilled none front, by simp⟩

end Reader

namespace Wire

/-- Lines that are not blank, and a blank line behind them. -/
def IsHead (head : Bytes) : Prop :=
  ∃ lines ending, lines ≠ [] ∧ (∀ line ∈ lines, ∃ text, Bytes.Line text line ∧ text ≠ []) ∧
    Bytes.Line [] ending ∧ head = lines.flatten ++ ending

theorem isBlankLine_reverse (front : Bytes) :
    isBlankLine front.reverse = true ↔ Bytes.textOf front = [] := by
  rw [isBlankLine, Bool.or_eq_true, beq_iff_eq, beq_iff_eq, Bytes.textOf]
  rcases List.eq_nil_or_concat front with rfl | ⟨before, last, rfl⟩
  · simp
  · by_cases ends : last = Bytes.cr
    · simp [ends]
    · simp [ends]

theorem blank_of_isBlankLine {front : Bytes} (noLf : Bytes.lf ∉ front)
    (blank : isBlankLine front.reverse = true) : Bytes.Line [] (front ++ [Bytes.lf]) := by
  have line := Bytes.Line.of_front noLf
  rwa [(isBlankLine_reverse front).mp blank] at line

variable {limit budget : Nat} {lines line head : Bytes} {r r' : Reader} {c c' : Clock}

/-- What is read off the input is blank lines, unless a head has begun, and then the head. -/
theorem headOnto_takes {whole : List Bytes} {begun : Bytes} (passed : lines = whole.flatten.reverse)
    (part : line = begun.reverse)
    (each : ∀ line ∈ whole, ∃ text, Bytes.Line text line ∧ text ≠ []) (noLf : Bytes.lf ∉ begun)
    (eq : headOnto limit budget lines line r c = (.ok (some head), r', c')) :
    ∃ blanks, (∀ line ∈ blanks, Bytes.Line [] line) ∧ (lines ≠ [] → blanks = []) ∧ IsHead head ∧
      (r.putBack (line ++ lines)).Takes (blanks.flatten ++ head) r' := by
  -- `whole` and `begun` are what the reader keeps in reverse, so they change with it
  fun_induction headOnto limit budget lines line r c generalizing whole begun with
  | case1 | case7 | case8 => cases eq
  | case6 =>
      split at eq <;> cases eq
  | case2 budget lines line r c b r₁ c₁ read other ih =>
      obtain ⟨_, taken, same, _⟩ := Reader.next_takes read
      cases same _ rfl
      have more : b :: line = (begun ++ [b]).reverse := by rw [part, List.reverse_concat]
      have noLf' : Bytes.lf ∉ begun ++ [b] := by
        intro member
        rcases List.mem_append.mp member with before | here
        · exact noLf before
        · exact other (List.mem_singleton.mp here).symm
      obtain ⟨blanks, blank, none, isHead, takes⟩ := ih passed more each noLf' eq
      rw [List.cons_append, Reader.Takes, Reader.ahead_putBack_cons taken] at takes
      exact ⟨blanks, blank, none, isHead, takes⟩
  | case3 budget lines line r c b r₁ c₁ read same filled ih =>
      obtain ⟨_, taken, ended, _⟩ := Reader.next_takes read
      cases ended _ rfl
      obtain rfl : b = Bytes.lf := not_not.mp same
      rw [part, Bool.not_eq_true', ← Bool.not_eq_true, isBlankLine_reverse] at filled
      have passed' : Bytes.lf :: (line ++ lines) =
          (whole ++ [begun ++ [Bytes.lf]]).flatten.reverse := by
        simp [part, passed]
      have each' : ∀ line ∈ whole ++ [begun ++ [Bytes.lf]],
          ∃ text, Bytes.Line text line ∧ text ≠ [] :=
        List.forall_mem_append.mpr ⟨each, List.forall_mem_singleton.mpr ⟨_, .of_front noLf, filled⟩⟩
      obtain ⟨blanks, blank, none, isHead, takes⟩ := ih passed' rfl each' List.not_mem_nil eq
      rw [List.nil_append, Reader.Takes, Reader.ahead_putBack_cons taken] at takes
      exact ⟨blanks, blank, fun _ => none (List.cons_ne_nil _ _), isHead, takes⟩
  | case4 budget lines line r c b r₁ c₁ read same blank none ih =>
      obtain ⟨_, taken, ended, _⟩ := Reader.next_takes read
      cases ended _ rfl
      obtain rfl : b = Bytes.lf := not_not.mp same
      obtain rfl : lines = [] := List.isEmpty_iff.mp none
      rw [part, Bool.not_eq_true', Bool.not_eq_false] at blank
      have isLine := blank_of_isBlankLine noLf blank
      have empty : ([] : Bytes) = ([] : List Bytes).flatten.reverse := rfl
      obtain ⟨blanks, each', _, isHead, takes⟩ :=
        ih empty rfl (List.forall_mem_nil _) List.not_mem_nil eq
      refine ⟨(begun ++ [Bytes.lf]) :: blanks, ?_, fun some => absurd rfl some, isHead, ?_⟩
      · exact List.forall_mem_cons.mpr ⟨isLine, each'⟩
      · have rest : r₁.ahead = blanks.flatten ++ head ++ r'.ahead := takes
        rw [Reader.Takes, ← Reader.ahead_putBack_cons taken, Reader.ahead_putBack, part, rest]
        simp
  | case5 budget lines line r c b r₁ c₁ read same blank some =>
      obtain ⟨_, taken, ended, _⟩ := Reader.next_takes read
      cases ended _ rfl
      obtain rfl : b = Bytes.lf := not_not.mp same
      rw [part, Bool.not_eq_true', Bool.not_eq_false] at blank
      have isLine := blank_of_isBlankLine noLf blank
      have begins : whole ≠ [] := by
        rintro rfl
        exact some (List.isEmpty_iff.mpr passed)
      cases eq
      refine ⟨[], List.forall_mem_nil _, fun _ => rfl,
        ⟨whole, begun ++ [Bytes.lf], begins, each, isLine, by simp [part, passed]⟩, ?_⟩
      rw [Reader.Takes, ← Reader.ahead_putBack_cons taken, Reader.ahead_putBack]
      rfl

theorem readHead_takes (eq : readHead limit r c = (.ok (some head), r', c')) :
    IsHead head ∧ ∃ blanks : List Bytes, (∀ line ∈ blanks, Bytes.Line [] line) ∧
      r.Takes (blanks.flatten ++ head) r' := by
  have empty : ([] : Bytes) = ([] : List Bytes).flatten.reverse := rfl
  obtain ⟨blanks, each, _, isHead, takes⟩ :=
    headOnto_takes empty rfl (List.forall_mem_nil _) List.not_mem_nil eq
  exact ⟨isHead, blanks, each, takes⟩

end Wire

end HttpExchange
